import Ia32.Proofs.Reading

/-!
# Dispatch

A step offers the code behind an opcode to one form after the other. Here it is compared with
dispatch by the extension, which carries out the one form that the code selects. Both give
the same answer and leave the same machine, in whatever order the forms are tried, because a
form that declines leaves nothing behind but its events and at most one form accepts.
-/

namespace Ia32

namespace Exec

/-! ## Trying forms in turn -/

@[simp] theorem run_readExtension (address : UInt32) (core : Core) :
    (readExtension address).run core =
      ((core.memory.codeAt address).extension, core.record [.read address]) := by
  simp [readExtension, run_readByte_record, Code.extension_codeAt]

/-- The state with the instruction pointer moved over the opcode. -/
def behindOpcode (core : Core) : Core :=
  core.past (core.code.opening.position + 1)

theorem code_past (core : Core) (count : Nat) :
    (core.past count).code = core.code.drop count :=
  Code.codeAt_add core.memory core.cpu.eip count

@[simp] theorem code_behindOpcode (core : Core) :
    (behindOpcode core).code = core.code.operands :=
  code_past core _

theorem extension_behindOpcode (core : Core) :
    ((behindOpcode core).memory.codeAt (behindOpcode core).cpu.eip).extension =
      core.code.operands.extension :=
  congrArg Code.extension (code_behindOpcode core)

/-- Moving over the opcode and then over the operands is moving over both. -/
theorem advance_behindOpcode (core : Core) (length : Nat) :
    { (behindOpcode core).cpu with
      eip := (behindOpcode core).cpu.eip + UInt32.ofNat length } =
    { core.cpu with
      eip := core.cpu.eip + UInt32.ofNat (core.code.opening.position + 1 + length) } := by
  rw [UInt32.ofNat_add (core.code.opening.position + 1), ← UInt32.add_assoc]
  rfl

@[simp] theorem run_fetchByte (core : Core) :
    fetchByte.run core = (core.code.byte 0, core.past 1) := by
  have start : core.code.byte 0 = core.memory.readByte core.cpu.eip :=
    congrArg core.memory.readByte (add_ofNat_zero core.cpu.eip)
  simp only [fetchByte, run_bind, run_eip, run_readByte_record, run_advance, run_pure, start]
  rfl

theorem run_fetchOpcode (core : Core) :
    fetchOpcode.run core =
      ((core.code.opening.opcode, core.code.opening.full), behindOpcode core) := by
  by_cases sized : core.code.byte 0 = OpcodeMap.operandSizeByte
  · simp only [fetchOpcode, run_bind, run_fetchByte, run_pure, sized, if_true, Code.opening,
      behindOpcode, code_past, Core.past_past]
    rfl
  · simp only [fetchOpcode, run_bind, run_fetchByte, run_pure, sized, if_false, Code.opening,
      behindOpcode]

section

variable {opcode : UInt8} {full : Width} (core : Core)

/-- Forms that decline are passed over and leave nothing behind but their refusals. -/
theorem run_tryForms_append {refused : List (Form OperandSize)}
    (fits : ∀ form ∈ refused, (form.resolve full).ImmediateFits)
    (declines : ∀ form ∈ refused, ¬form.Accepts core.code.extension)
    (forms : List (Form OperandSize)) :
    (tryForms opcode full core.cpu.eip (refused ++ forms)).run core =
      (tryForms opcode full core.cpu.eip forms).run
        { core with
          journal := core.journal ++
            Form.refusals opcode core.cpu core.memory (refused.map (Form.resolve full)) } := by
  induction refused generalizing core with
  | nil => simp [Form.refusals]
  | cons form refused ih =>
      rcases List.forall_mem_cons.mp fits with ⟨formFits, othersFit⟩
      rcases List.forall_mem_cons.mp declines with ⟨formDeclines, othersDecline⟩
      rw [← Form.accepts_resolve full] at formDeclines
      have declined := Form.run_attempt_of_not_accepts formFits opcode formDeclines
      have others := ih
        { core with
          journal := core.journal ++ (form.resolve full).refusal opcode core.cpu core.memory }
        othersFit othersDecline
      rw [List.map_cons, Form.refusals, ← Array.append_assoc]
      simpa [tryForms, declined] using others

/-- When no form takes the code, nothing happens but the refusals of all forms. -/
theorem run_tryForms_of_refused {forms : List (Form OperandSize)}
    (fits : ∀ form ∈ forms, (form.resolve full).ImmediateFits)
    (refused : ∀ form ∈ forms, ¬form.Accepts core.code.extension) :
    (tryForms opcode full core.cpu.eip forms).run core =
      (.ok none,
        { core with
          journal := core.journal ++
            Form.refusals opcode core.cpu core.memory (forms.map (Form.resolve full)) }) := by
  have passed : (tryForms opcode full core.cpu.eip (forms ++ [])).run core = _ :=
    run_tryForms_append core fits refused []
  rw [List.append_nil] at passed
  exact passed

/-- A form that takes the code is carried out, and the forms behind it are not tried. -/
theorem run_tryForms_cons {form : Form OperandSize}
    (fits : (form.resolve full).ImmediateFits) {instruction : Instruction} {length : Nat}
    (decoded : (form.resolve full).decode opcode core.cpu.registers core.code =
      .instruction instruction length) (others : List (Form OperandSize)) :
    let behind := { core.cpu with eip := core.cpu.eip + UInt32.ofNat length }
    let effect :=
      (instruction.effect behind core.memory).after (Access.reads core.cpu.eip length)
    (tryForms opcode full core.cpu.eip (form :: others)).run core =
      (.ok (some instruction.mnemonic),
        (core.apply effect).push (.executed instruction effect.word)) := by
  have executed := Form.run_execute_of_instruction decoded
  simp [tryForms, Form.run_attempt fits, executed]

/-- The first form that takes the code is carried out. The forms in front of it leave nothing
behind but their refusals. -/
theorem run_tryForms_of_taken {refused others : List (Form OperandSize)}
    {form : Form OperandSize}
    (fits : ∀ tried ∈ refused ++ form :: others, (tried.resolve full).ImmediateFits)
    (declines : ∀ other ∈ refused, ¬other.Accepts core.code.extension)
    {instruction : Instruction} {length : Nat}
    (decoded : (form.resolve full).decode opcode core.cpu.registers core.code =
      .instruction instruction length) :
    let passed := Form.refusals opcode core.cpu core.memory (refused.map (Form.resolve full))
    let behind := { core.cpu with eip := core.cpu.eip + UInt32.ofNat length }
    let effect :=
      (instruction.effect behind core.memory).after (Access.reads core.cpu.eip length)
    (tryForms opcode full core.cpu.eip (refused ++ form :: others)).run core =
      (.ok (some instruction.mnemonic),
        ({ core with journal := core.journal ++ passed }.apply effect).push
          (.executed instruction effect.word)) := by
  rcases List.forall_mem_append.mp fits with ⟨refusedFit, othersFit⟩
  intro passed behind effect
  rw [run_tryForms_append core refusedFit declines]
  exact run_tryForms_cons { core with journal := core.journal ++ passed }
    (othersFit form List.mem_cons_self) decoded others

end

section Listed

variable {opcode : UInt8} {listed : List (Form OperandSize)}

theorem fits_of_perm (reordered : listed.Perm (OpcodeMap.forms opcode)) (full : Width) :
    ∀ form ∈ listed, (form.resolve full).ImmediateFits :=
  fun _ member => OpcodeMap.immediateFits_of_mem_forms (reordered.subset member) full

theorem ne_nil_of_perm (reordered : listed.Perm (OpcodeMap.forms opcode))
    (known : OpcodeMap.forms opcode ≠ []) : listed ≠ [] := by
  intro empty
  rw [empty] at reordered
  exact known reordered.nil_eq.symm

/-- Trying the forms of an opcode leaves nothing but their refusals when the extension selects
none. -/
theorem run_tryForms_of_unselected (core : Core)
    (reordered : listed.Perm (OpcodeMap.forms opcode)) (full : Width)
    (unselected : OpcodeMap.selected? opcode core.code.extension = none) :
    (tryForms opcode full core.cpu.eip listed).run core =
      (.ok none,
        { core with
          journal := core.journal ++
            Form.refusals opcode core.cpu core.memory (listed.map (Form.resolve full)) }) := by
  have found := OpcodeMap.find?_of_perm reordered core.code.extension
  rw [unselected] at found
  apply run_tryForms_of_refused core (fits_of_perm reordered full)
  intro form member
  exact of_decide_eq_false (Bool.eq_false_iff.mpr (List.find?_eq_none.mp found form member))

/-- Trying the forms of an opcode carries out the one that the extension selects. -/
theorem run_tryForms_of_selected (core : Core)
    (reordered : listed.Perm (OpcodeMap.forms opcode)) {full : Width} {form : Form OperandSize}
    (selected : OpcodeMap.selected? opcode core.code.extension = some form)
    {instruction : Instruction} {length : Nat}
    (decoded : (form.resolve full).decode opcode core.cpu.registers core.code =
      .instruction instruction length) :
    let behind := { core.cpu with eip := core.cpu.eip + UInt32.ofNat length }
    let effect := instruction.effect behind core.memory
    ∃ journal, (tryForms opcode full core.cpu.eip listed).run core =
      (.ok (some instruction.mnemonic),
        { cpu := effect.cpu, memory := effect.memory, journal }) := by
  have found := OpcodeMap.find?_of_perm reordered core.code.extension
  rw [selected] at found
  have fits := fits_of_perm reordered full
  rcases List.find?_eq_some_iff_append.mp found with ⟨_, refused, others, tried, passed⟩
  rw [tried] at fits ⊢
  have declines : ∀ other ∈ refused, ¬other.Accepts core.code.extension := by
    intro other among
    simpa using passed other among
  exact ⟨_, run_tryForms_of_taken core fits declines decoded⟩

end Listed

section

variable {table : UInt8 → List (Form OperandSize)} (core : Core) {after : Core}
  (running : core.code.opening.opcode ≠ OpcodeMap.halt)
  (known : table core.code.opening.opcode ≠ [])

include running known

/-- What a step does and reports is what trying the forms of the opcode does and reports, when
one of them takes the code. -/
theorem run_executeNext_of_taken {mnemonic : Mnemonic}
    (taken : (tryForms core.code.opening.opcode core.code.opening.full
      (behindOpcode core).cpu.eip (table core.code.opening.opcode)).run (behindOpcode core) =
      (.ok (some mnemonic), after)) :
    (executeNext table).run core = (.executed mnemonic, after) := by
  rcases List.exists_cons_of_ne_nil known with ⟨first, others, listed⟩
  rw [listed] at taken
  simp only [executeNext, run_bind, run_eip, run_fetchOpcode, running, if_false, listed, taken,
    run_pure]

/-- When none of the forms takes the code, a step reads the extension again and moves the pointer
back to the first byte. -/
theorem run_executeNext_of_refused
    (refused : (tryForms core.code.opening.opcode core.code.opening.full
      (behindOpcode core).cpu.eip (table core.code.opening.opcode)).run (behindOpcode core) =
      (.ok none, after)) :
    let start := core.cpu.eip
    let operands := (behindOpcode core).cpu.eip
    let extension := (after.memory.codeAt operands).extension
    (executeNext table).run core =
      (.undecodable (.unknownExtension core.code.opening.opcode extension start),
        { after.record [.read operands] with cpu := { after.cpu with eip := start } }) := by
  rcases List.exists_cons_of_ne_nil known with ⟨first, others, listed⟩
  rw [listed] at refused
  simp only [executeNext, run_bind, run_eip, run_fetchOpcode, running, if_false, listed, refused,
    run_readExtension, run_setEip, run_pure]
  rfl

end

/-! ## Steps that follow a reading -/

/-- An action does what a reading says, whatever it notes in the journal. -/
def Follows (action : Exec Finding) (core : Core) (reading : Reading) : Prop :=
  ∃ journal, action.run core =
    (reading.finding core.cpu.eip,
      { cpu := (reading.after core.cpu core.memory).1
        memory := (reading.after core.cpu core.memory).2
        journal })

/-- Read and carry out the instruction at the instruction pointer by the one form that the
opcode and the extension behind it select. When there is none, the pointer goes back to the
first byte. -/
def executeDirectly : Exec Finding := do
  let start ← eip
  let (opcode, full) ← fetchOpcode
  if opcode = OpcodeMap.halt then
    return .halt
  else if (OpcodeMap.forms opcode).isEmpty then
    setEip start
    return .undecodable (.unknownOpcode opcode start)
  else
    let extension ← readExtension (← eip)
    match OpcodeMap.selected? opcode extension with
    | none =>
        setEip start
        return .undecodable (.unknownExtension opcode extension start)
    | some form =>
        match ← (form.resolve full).attempt opcode with
        | .error fault => return .fault fault
        | .ok (.executed mnemonic) => return .executed mnemonic
        | .ok (.declined _) =>
            setEip start
            return .undecodable (.unknownExtension opcode extension start)

/-- Trying the forms of an opcode in any order does what reading the code once says. -/
theorem executeNext_follows (table : UInt8 → List (Form OperandSize)) (core : Core)
    (reordered : (table core.code.opening.opcode).Perm
      (OpcodeMap.forms core.code.opening.opcode)) :
    Follows (executeNext table) core (.ofCode core.cpu.registers core.code) := by
  have reads := Reading.reads_ofCode core.cpu.registers core.code
  generalize Reading.ofCode core.cpu.registers core.code = reading at reads
  simp only [Follows]
  cases reads with
  | halt halting =>
      simp only [executeNext, run_bind, run_eip, run_fetchOpcode, halting, if_true, run_pure]
      exact ⟨_, rfl⟩
  | unknownOpcode running unknown =>
      rw [unknown] at reordered
      simp only [executeNext, run_bind, run_eip, run_fetchOpcode, running, if_false,
        reordered.eq_nil]
      exact ⟨_, rfl⟩
  | unknownExtension running known unselected =>
      have refused := run_tryForms_of_unselected (behindOpcode core) reordered
        core.code.opening.full (by rwa [code_behindOpcode])
      rw [run_executeNext_of_refused core running (ne_nil_of_perm reordered known) refused]
      simp only [extension_behindOpcode]
      exact ⟨_, rfl⟩
  | decoded running selected decoded =>
      have known := List.ne_nil_of_mem (OpcodeMap.selected?_eq_some_iff.mp selected).1
      rcases run_tryForms_of_selected (behindOpcode core) reordered
        (by rwa [code_behindOpcode]) (by rwa [code_behindOpcode]) with ⟨journal, taken⟩
      rw [run_executeNext_of_taken core running (ne_nil_of_perm reordered known) taken,
        advance_behindOpcode]
      exact ⟨_, rfl⟩

/-- Carrying out the selected form alone does what reading the code once says. -/
theorem executeDirectly_follows (core : Core) :
    Follows executeDirectly core (.ofCode core.cpu.registers core.code) := by
  have reads := Reading.reads_ofCode core.cpu.registers core.code
  generalize Reading.ofCode core.cpu.registers core.code = reading at reads
  simp only [Follows, executeDirectly, run_bind, run_eip, run_fetchOpcode]
  cases reads with
  | halt halting =>
      simp only [halting, if_true, run_pure]
      exact ⟨_, rfl⟩
  | unknownOpcode running unknown =>
      simp only [running, if_false, unknown, List.isEmpty_nil, if_true]
      exact ⟨_, rfl⟩
  | unknownExtension running known unselected =>
      have nonempty := mt List.isEmpty_iff.mp known
      simp only [running, nonempty, Bool.false_eq_true, if_false, run_bind, run_eip,
        run_readExtension, extension_behindOpcode, unselected]
      exact ⟨_, rfl⟩
  | @decoded form _ _ running selected decoded =>
      have member := (OpcodeMap.selected?_eq_some_iff.mp selected).1
      have nonempty := mt List.isEmpty_iff.mp (List.ne_nil_of_mem member)
      have fits := OpcodeMap.immediateFits_of_mem_forms member core.code.opening.full
      let looked := (behindOpcode core).record [.read (behindOpcode core).cpu.eip]
      have behind : looked.code = core.code.operands := code_behindOpcode core
      rw [← behind] at decoded
      have executed : ((form.resolve core.code.opening.full).execute
          core.code.opening.opcode).run looked = _ := Form.run_execute_of_instruction decoded
      simp only [running, nonempty, Bool.false_eq_true, if_false, run_bind, run_eip,
        run_readExtension, extension_behindOpcode, selected, Form.run_attempt fits]
      simp only [looked] at executed
      simp only [executed, Core.cpu_record, advance_behindOpcode]
      exact ⟨_, rfl⟩

end Exec

namespace Machine

/-! ## Machines -/

/-- What can be seen of a transition apart from the events. -/
def Transition.outcome {α : Type} (transition : Transition α) : Except Error α × Machine :=
  (transition.result, transition.machine)

/-- The code at the instruction pointer. -/
def code (machine : Machine) : Code :=
  machine.memory.codeAt machine.cpu.eip

/-- What the code at the instruction pointer is to the machine. -/
def reading (machine : Machine) : Reading :=
  .ofCode machine.cpu.registers machine.code

/-- What a reading comes to on a machine that has not halted. -/
def follow (machine : Machine) : Reading → Except Error Step × Machine
  | .halt length =>
      let cpu := { machine.cpu with eip := machine.cpu.eip + UInt32.ofNat length }
      (.ok .halted, { machine with cpu, halted := true })
  | .unknownOpcode opcode =>
      (.error (.decode (.unknownOpcode opcode machine.cpu.eip)), machine)
  | .unknownExtension opcode extension =>
      (.error (.decode (.unknownExtension opcode extension machine.cpu.eip)), machine)
  | .decoded instruction length =>
      let behind := { machine.cpu with eip := machine.cpu.eip + UInt32.ofNat length }
      let effect := instruction.effect behind machine.memory
      (.ok (.executed instruction.mnemonic),
        { machine with
          cpu := effect.cpu, memory := effect.memory, steps := machine.steps + 1 })

/-- A step by an action that does what a reading says comes to what the reading comes to. -/
theorem outcome_stepBy_of_follows {machine : Machine} (running : machine.halted = false)
    {action : Exec Exec.Finding} {reading : Reading}
    (follows : Exec.Follows action (.start machine.cpu machine.memory) reading) :
    (machine.stepBy action).outcome = machine.follow reading := by
  cases machine with
  | mk cpu memory maxSteps halted steps =>
      cases running
      rcases follows with ⟨journal, run⟩
      simp only [stepBy, run, Transition.outcome]
      cases reading <;> rfl

/-- A step by dispatch on the extension. -/
def stepDirectly (machine : Machine) : Transition Step :=
  machine.stepBy Exec.executeDirectly

/-- A step that tries the forms of the opcode, in whatever order, comes to what reading the
code once comes to. -/
theorem outcome_stepWith {machine : Machine} (running : machine.halted = false)
    {table : UInt8 → List (Form OperandSize)}
    (reordered : (table machine.code.opening.opcode).Perm
      (OpcodeMap.forms machine.code.opening.opcode)) :
    (machine.stepWith table).outcome = machine.follow machine.reading :=
  outcome_stepBy_of_follows running (Exec.executeNext_follows table _ reordered)

theorem outcome_step {machine : Machine} (running : machine.halted = false) :
    machine.step.outcome = machine.follow machine.reading :=
  outcome_stepWith running (List.Perm.refl _)

theorem result_step {machine : Machine} (running : machine.halted = false) :
    machine.step.result = (machine.follow machine.reading).1 :=
  congrArg Prod.fst (outcome_step running)

theorem machine_step {machine : Machine} (running : machine.halted = false) :
    machine.step.machine = (machine.follow machine.reading).2 :=
  congrArg Prod.snd (outcome_step running)

theorem outcome_stepDirectly {machine : Machine} (running : machine.halted = false) :
    machine.stepDirectly.outcome = machine.follow machine.reading :=
  outcome_stepBy_of_follows running (Exec.executeDirectly_follows _)

/-- A machine that has halted stays as it is, whatever the action. -/
theorem outcome_stepBy_of_halted {machine : Machine} (halted : machine.halted = true)
    (action : Exec Exec.Finding) : (machine.stepBy action).outcome = (.ok .halted, machine) := by
  simp only [stepBy, halted, if_true, Transition.outcome]

theorem result_step_of_halted {machine : Machine} (halted : machine.halted = true) :
    machine.step.result = .ok .halted :=
  congrArg Prod.fst (outcome_stepBy_of_halted halted _)

theorem machine_step_of_halted {machine : Machine} (halted : machine.halted = true) :
    machine.step.machine = machine :=
  congrArg Prod.snd (outcome_stepBy_of_halted halted _)

/-- A machine that answers anything else than that it has halted was running. -/
theorem running_of_result_ne {machine : Machine} (other : machine.step.result ≠ .ok .halted) :
    machine.halted = false := by
  cases halted : machine.halted with
  | false => rfl
  | true => exact absurd (result_step_of_halted halted) other

/-- The order in which the forms of an opcode are tried has no influence on the answer of a
step or on the machine after it, and both are those of dispatch on the extension. -/
theorem outcome_stepWith_perm (machine : Machine) (table : UInt8 → List (Form OperandSize))
    (reordered : (table machine.code.opening.opcode).Perm
      (OpcodeMap.forms machine.code.opening.opcode)) :
    (machine.stepWith table).outcome = machine.step.outcome ∧
      machine.step.outcome = machine.stepDirectly.outcome := by
  cases halted : machine.halted with
  | true =>
      rw [stepWith, step, stepWith, stepDirectly]
      simp only [outcome_stepBy_of_halted halted, and_self]
  | false =>
      rw [outcome_stepWith halted reordered, outcome_step halted, outcome_stepDirectly halted]
      exact ⟨rfl, rfl⟩

/-- The immediate group tried from its last form to its first, at a word-wide subtraction. -/
theorem outcome_stepWith_reverse :
    let machine := withMemory {} { bytes := #[0x66, 0x83, 0xE8, 0x01] }
    let table := fun opcode => (OpcodeMap.forms opcode).reverse
    (table machine.code.opening.opcode).Perm (OpcodeMap.forms machine.code.opening.opcode) ∧
      (machine.stepWith table).outcome = machine.stepDirectly.outcome := by
  intro machine table
  have reordered : (table machine.code.opening.opcode).Perm
      (OpcodeMap.forms machine.code.opening.opcode) := List.reverse_perm _
  have same := outcome_stepWith_perm machine table reordered
  exact ⟨reordered, same.1.trans same.2⟩

end Machine

end Ia32
