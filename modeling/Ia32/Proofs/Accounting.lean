import Ia32.Proofs.Journal
import Ia32.Proofs.Run

/-!
# The log of a step

What a step reports, line by line. Every access to a byte above the memory is a warning, and every
form that was tried and declined is traced. Behind these stands a single line about what became
of the step: the instruction that was carried out, or the error. A step that halts and a step
that finds no form for its opcode report nothing else, because what they read is no zero and so
lies in the memory.
-/

namespace Ia32

/-- The accesses by which a form looks at the code at the instruction pointer. -/
def Form.lookups (opcode : UInt8) (cpu : Cpu) (memory : Memory) (form : Form Width) :
    List Access :=
  Access.reads cpu.eip (form.decode opcode cpu.registers (memory.codeAt cpu.eip)).length

/-- Some events tell of some accesses and of a number of forms that declined, and of nothing else:
in their order, the accesses above a memory of the given size are the warnings, and there is one
trace for each form. -/
structure Event.Accounts (size : Nat) (accesses : List Access) (declined : Nat)
    (events : Array Event) : Prop where
  warnings : events.toList.filter (·.level = .warn) = accesses.filterMap (Access.event? size)
  traces : events.toList.countP (·.level = .trace) = declined
  others : ∀ event ∈ events, event.level = .warn ∨ event.level = .trace

namespace Event.Accounts

variable {size : Nat}

/-- An access above the memory is noted by a warning. -/
theorem level_of_event? {access : Access} {event : Event}
    (noted : access.event? size = some event) : event.level = .warn := by
  cases access with
  | read | write =>
      simp only [Access.event?, Option.ite_none_left_eq_some] at noted
      cases noted.2
      rfl

theorem events (accesses : List Access) :
    Accounts size accesses 0 (Access.events size accesses) := by
  have warns : ∀ event ∈ accesses.filterMap (Access.event? size), event.level = .warn := by
    intro event member
    rcases List.mem_filterMap.mp member with ⟨access, _, noted⟩
    exact level_of_event? noted
  constructor
  · exact List.filter_eq_self.mpr fun event member => decide_eq_true (warns event member)
  · apply List.countP_eq_zero.mpr
    intro event member
    simp [warns event member]
  · intro event member
    exact .inl (warns event (List.mem_toArray.mp member))

theorem append {first second : List Access} {declined later : Nat} {early late : Array Event}
    (before : Accounts size first declined early) (behind : Accounts size second later late) :
    Accounts size (first ++ second) (declined + later) (early ++ late) := by
  constructor
  · rw [Array.toList_append, List.filter_append, before.warnings, behind.warnings,
      List.filterMap_append]
  · rw [Array.toList_append, List.countP_append, before.traces, behind.traces]
  · intro event member
    rcases Array.mem_append.mp member with earlier | later
    · exact before.others event earlier
    · exact behind.others event later

/-- A form that declines warns of what it has looked at above the memory and is traced once. -/
theorem refusal (opcode : UInt8) (cpu : Cpu) (memory : Memory) (form : Form Width) :
    Accounts memory.size (form.lookups opcode cpu memory) 1 (form.refusal opcode cpu memory) := by
  have traced : Accounts memory.size [] 1
      #[.declined form.mnemonic (memory.codeAt cpu.eip).extension cpu.eip] := by
    constructor
    · rfl
    · rfl
    · intro event member
      rcases List.mem_singleton.mp (List.mem_toArray.mp member) with rfl
      exact .inr rfl
  have both := (events (form.lookups opcode cpu memory)).append traced
  rwa [List.append_nil] at both

theorem refusals (opcode : UInt8) (cpu : Cpu) (memory : Memory) (forms : List (Form Width)) :
    Accounts memory.size (forms.flatMap (Form.lookups opcode cpu memory)) forms.length
      (Form.refusals opcode cpu memory forms) := by
  induction forms with
  | nil => exact events []
  | cons form forms ih =>
      rw [List.flatMap_cons, List.length_cons, Nat.add_comm]
      exact (refusal opcode cpu memory form).append ih

end Event.Accounts

namespace Machine

/-! ## Accesses of a step -/

/-- The position of the first form of the opcode that takes the extension behind it. All forms in
front of it decline; where no form takes the extension it is the number of all forms. -/
def position (machine : Machine) : Nat :=
  (OpcodeMap.forms machine.opcode).findIdx (·.Accepts machine.extension)

/-- The forms that a step tries: those in front of the first that takes the extension, and this
one. -/
def tried (machine : Machine) : List (Form OperandSize) :=
  (OpcodeMap.forms machine.opcode).take (machine.position + 1)

/-- The accesses by which some forms look at the code behind the opcode, one after the other. -/
def lookups (machine : Machine) (forms : List (Form OperandSize)) : List Access :=
  (forms.map (Form.resolve machine.code.opening.full)).flatMap
    (Form.lookups machine.opcode machine.behindOpcode machine.memory)

/-- The reads of the opcode and of an operand-size byte in front of it. -/
def opcodeReads (machine : Machine) : List Access :=
  Access.reads machine.cpu.eip (machine.code.opening.position + 1)

/-- The accesses to single bytes that a step makes, in order. Each form that is tried looks at its
operands anew, and when all of them have declined the extension is read once more. -/
def accesses (machine : Machine) : List Access :=
  if machine.halted then
    []
  else
    match machine.reading with
    | .halt _ => machine.opcodeReads
    | .unknownOpcode _ => machine.opcodeReads
    | .unknownExtension _ _ =>
        machine.opcodeReads ++ machine.lookups machine.tried ++
          [.read machine.behindOpcode.eip]
    | .decoded instruction length =>
        let behind := { machine.cpu with eip := machine.cpu.eip + UInt32.ofNat length }
        machine.opcodeReads ++ machine.lookups machine.tried ++
          (instruction.effect behind machine.memory).accesses

variable {machine : Machine}

/-! ## Steps that read the opcode only -/

/-- An opcode that is no zero lies in the memory, and an operand-size byte in front of it, too. -/
theorem events_opcodeReads (present : machine.opcode ≠ 0) :
    Access.events machine.memory.size machine.opcodeReads = #[] := by
  have last : machine.memory.Maps machine.opcodeAddress := maps_of_readByte_ne_zero present
  unfold opcodeAddress at last
  unfold opcodeReads Code.opening
  rw [byte_code, add_ofNat_zero]
  split at last
  next sized =>
    have first : machine.memory.Maps machine.cpu.eip := by
      apply maps_of_readByte_ne_zero
      rw [sized]
      decide
    have firstInside : machine.cpu.eip.toNat < machine.memory.size := first
    have lastInside : (machine.cpu.eip + 1).toNat < machine.memory.size := last
    simp only [sized, if_true, Access.reads, Access.events, List.filterMap_cons, Access.event?,
      firstInside, lastInside, List.filterMap_nil]
  next plain =>
    have inside : machine.cpu.eip.toNat < machine.memory.size := last
    simp only [plain, if_false, Access.reads, Access.events, List.filterMap_cons, Access.event?,
      inside, if_true, List.filterMap_nil]

/-- A step that finds no instruction reports what was noted on the way and then the error. -/
theorem events_of_undecodable (running : machine.halted = false) {cause : DecodeError}
    {core : Core}
    (run : (Exec.executeNext OpcodeMap.forms).run (.start machine.cpu machine.memory) =
      (.undecodable cause, core)) :
    machine.step.events = core.journal.push (.undecodable cause) := by
  simp only [step, stepWith, stepBy, running, Bool.false_eq_true, if_false, run]

/-- Behind the opcode the journal holds what was noted when the opcode was read. -/
theorem journal_behindOpcode (machine : Machine) :
    (Exec.behindOpcode (.start machine.cpu machine.memory)).journal =
      Access.events machine.memory.size machine.opcodeReads :=
  Array.empty_append

/-- A step that halts reports that it does and nothing else. -/
theorem events_of_halt (running : machine.halted = false)
    (halting : machine.opcode = OpcodeMap.halt) :
    machine.step.events = #[.halted machine.cpu.eip machine.steps] := by
  have opcode : (Core.start machine.cpu machine.memory).code.opening.opcode = OpcodeMap.halt :=
    machine.opening_opcode.trans halting
  have run : (Exec.executeNext OpcodeMap.forms).run (.start machine.cpu machine.memory) =
      (.halt, Exec.behindOpcode (.start machine.cpu machine.memory)) := by
    simp only [Exec.executeNext, Exec.run_bind, Exec.run_eip, Exec.run_fetchOpcode, opcode, if_true,
      Exec.run_pure]
  have present : machine.opcode ≠ 0 := by
    rw [halting]
    decide
  have silent := events_opcodeReads present
  simp only [step, stepWith, stepBy, running, Bool.false_eq_true, if_false, run,
    journal_behindOpcode, silent]
  rfl

/-- A step that finds no form for its opcode reports the error and nothing else. -/
theorem events_of_unknownOpcode (running : machine.halted = false)
    (moving : machine.opcode ≠ OpcodeMap.halt) (unknown : OpcodeMap.forms machine.opcode = []) :
    machine.step.events = #[.undecodable (.unknownOpcode machine.opcode machine.cpu.eip)] := by
  have opcode : (Core.start machine.cpu machine.memory).code.opening.opcode = machine.opcode :=
    machine.opening_opcode
  have run : (Exec.executeNext OpcodeMap.forms).run (.start machine.cpu machine.memory) =
      (.undecodable (.unknownOpcode machine.opcode machine.cpu.eip),
        { Exec.behindOpcode (.start machine.cpu machine.memory) with cpu := machine.cpu }) := by
    simp only [Exec.executeNext, Exec.run_bind, Exec.run_eip, Exec.run_fetchOpcode, opcode, moving,
      if_false, unknown]
    rfl
  have present : machine.opcode ≠ 0 := by
    intro zero
    rw [zero] at unknown
    cases unknown
  rw [events_of_undecodable running run, journal_behindOpcode, events_opcodeReads present]
  rfl

/-! ## Steps that try the forms of an opcode -/

/-- A step that finds no form for its extension reports the refusals of all forms between the
bytes above the memory, and the error at the end. -/
theorem events_of_unknownExtension (running : machine.halted = false)
    (moving : machine.opcode ≠ OpcodeMap.halt) (known : OpcodeMap.forms machine.opcode ≠ [])
    (unselected : OpcodeMap.selected? machine.opcode machine.extension = none) :
    let size := machine.memory.size
    let forms := (OpcodeMap.forms machine.opcode).map (Form.resolve machine.code.opening.full)
    machine.step.events =
      (Access.events size machine.opcodeReads ++
        Form.refusals machine.opcode machine.behindOpcode machine.memory forms ++
        Access.events size [.read machine.behindOpcode.eip]).push
        (.undecodable (.unknownExtension machine.opcode machine.extension machine.cpu.eip)) := by
  have opcode : (Core.start machine.cpu machine.memory).code.opening.opcode = machine.opcode :=
    machine.opening_opcode
  have extension : (Exec.behindOpcode (.start machine.cpu machine.memory)).code.extension =
      machine.extension :=
    (congrArg Code.extension (Exec.code_behindOpcode _)).trans machine.operands_extension
  have refused := Exec.run_tryForms_of_unselected
    (Exec.behindOpcode (.start machine.cpu machine.memory))
    (List.Perm.refl (OpcodeMap.forms machine.opcode)) machine.code.opening.full
    (by rwa [extension])
  rw [← opcode] at refused moving known
  have run := Exec.run_executeNext_of_refused (.start machine.cpu machine.memory) moving known
    refused
  dsimp only
  rw [events_of_undecodable running run, ← extension, ← opcode, ← journal_behindOpcode]
  rfl

/-- When the forms in front of one decline and this one takes the code, its position is their
number. -/
theorem position_of_listed {refused others : List (Form OperandSize)} {form : Form OperandSize}
    (listed : OpcodeMap.forms machine.opcode = refused ++ form :: others)
    (declines : ∀ other ∈ refused, ¬other.Accepts machine.extension)
    (accepted : form.Accepts machine.extension) : machine.position = refused.length := by
  have none : refused.findIdx (·.Accepts machine.extension) = refused.length := by
    apply List.findIdx_eq_length_of_false
    intro other member
    exact decide_eq_false (declines other member)
  have first : (form :: others).findIdx (·.Accepts machine.extension) = 0 := by
    rw [List.findIdx_cons, decide_eq_true accepted]
    rfl
  rw [position, listed, List.findIdx_append, none, if_neg (Nat.lt_irrefl _), first, Nat.zero_add]

/-- When no form takes the code, its position is the number of all forms. -/
theorem position_of_unselected
    (unselected : OpcodeMap.selected? machine.opcode machine.extension = none) :
    machine.position = (OpcodeMap.forms machine.opcode).length := by
  apply List.findIdx_eq_length_of_false
  intro form member
  apply decide_eq_false
  intro accepted
  have selected := OpcodeMap.selected?_eq_some_iff.mpr ⟨member, accepted⟩
  cases unselected.symm.trans selected

/-- What a step that finds no form for its extension reports in front of the error: the accesses
above the memory, and one refusal for each form. -/
theorem accounts_of_unknownExtension (running : machine.halted = false)
    (moving : machine.opcode ≠ OpcodeMap.halt) (known : OpcodeMap.forms machine.opcode ≠ [])
    (unselected : OpcodeMap.selected? machine.opcode machine.extension = none)
    (reading : machine.reading = .unknownExtension machine.opcode machine.extension) :
    ∃ earlier,
      machine.step.events =
        earlier.push
          (.undecodable (.unknownExtension machine.opcode machine.extension machine.cpu.eip)) ∧
      Event.Accounts machine.memory.size machine.accesses (OpcodeMap.forms machine.opcode).length
        earlier := by
  refine ⟨_, events_of_unknownExtension running moving known unselected, ?_⟩
  have all : machine.tried = OpcodeMap.forms machine.opcode := by
    rw [tried, position_of_unselected unselected]
    exact List.take_of_length_le (Nat.le_succ _)
  have accesses : machine.accesses =
      machine.opcodeReads ++ machine.lookups (OpcodeMap.forms machine.opcode) ++
        [.read machine.behindOpcode.eip] := by
    simp only [Machine.accesses, running, Bool.false_eq_true, if_false, reading, all]
  have refusals := Event.Accounts.refusals machine.opcode machine.behindOpcode machine.memory
    ((OpcodeMap.forms machine.opcode).map (Form.resolve machine.code.opening.full))
  have counted := ((Event.Accounts.events machine.opcodeReads).append refusals).append
    (.events [.read machine.behindOpcode.eip])
  rwa [List.length_map, Nat.zero_add, Nat.add_zero, ← lookups, ← accesses] at counted

/-- A form that is carried out has looked at the bytes of its operands. -/
theorem CarriesOut.lookups {form : Form OperandSize} {instruction : Instruction}
    (carried : machine.CarriesOut form instruction) :
    machine.lookups [form] =
      Access.reads machine.behindOpcode.eip (machine.code.layout.length machine.code.operands) := by
  have behind : machine.memory.codeAt machine.behindOpcode.eip = machine.code.operands :=
    Code.codeAt_add machine.memory machine.cpu.eip _
  have decoded := carried.decoded
  rw [opening_opcode] at decoded
  have registers : machine.behindOpcode.registers = machine.cpu.registers := rfl
  rw [Machine.lookups, List.map_singleton, List.flatMap_singleton, Form.lookups, behind, registers,
    decoded]
  rfl

/-- The instruction that is carried out has the mnemonic of its form. -/
theorem CarriesOut.named {form : Form OperandSize} {instruction : Instruction}
    (carried : machine.CarriesOut form instruction) :
    instruction.mnemonic = form.mnemonic := by
  have accepted := carried.accepted
  rw [← Form.accepts_resolve machine.code.opening.full] at accepted
  rcases Form.decode_of_accepts machine.code.opening.opcode machine.cpu.registers accepted with
    ⟨other, length, decoded, named⟩
  rw [carried.decoded] at decoded
  cases decoded
  rwa [Form.mnemonic_resolve] at named

/-- What a step that carries out an instruction reports in front of it: the accesses above the
memory, and one refusal for each form in front of the one that takes the code. -/
theorem CarriesOut.accounts {form : Form OperandSize} {instruction : Instruction}
    (carried : machine.CarriesOut form instruction) :
    (OpcodeMap.forms machine.opcode)[machine.position]? = some form ∧
      ∃ earlier word,
        machine.step.events = earlier.push (.executed instruction word) ∧
        Event.Accounts machine.memory.size machine.accesses machine.position earlier := by
  rcases carried.events with ⟨refused, others, listed, declines, events⟩
  have accepted := carried.accepted
  rw [operands_extension] at declines accepted
  rw [opening_opcode] at listed events
  have place := position_of_listed listed declines accepted
  refine ⟨?found, _, _, events, ?counted⟩
  case found =>
    rw [place, listed, List.getElem?_append_right (Nat.le_refl _), Nat.sub_self]
    rfl
  case counted =>
    have tried : machine.tried = refused ++ [form] := by
      rw [Machine.tried, place, listed, List.take_length_add_append]
      rfl
    have accesses : machine.accesses =
        machine.opcodeReads ++ machine.lookups refused ++
          (machine.lookups [form] ++
            (instruction.effect machine.behind machine.memory).accesses) := by
      simp only [Machine.accesses, carried.running, Bool.false_eq_true, if_false, carried.reading,
        tried, Machine.lookups, List.map_append, List.flatMap_append, List.append_assoc]
      rfl
    have refusals := Event.Accounts.refusals machine.opcode machine.behindOpcode machine.memory
      (refused.map (Form.resolve machine.code.opening.full))
    have counted := ((Event.Accounts.events machine.opcodeReads).append refusals).append
      (.events (machine.lookups [form] ++
        (instruction.effect machine.behind machine.memory).accesses))
    rw [← Machine.lookups, ← accesses, List.length_map, Nat.zero_add, Nat.add_zero,
      ← place, carried.lookups] at counted
    exact counted

/-! ## The log of a step -/

/-- The answers of a machine that has not halted, each with what is reported: a single event when
nothing but the opcode was read, and otherwise an event behind those that account for the accesses
and the forms that declined. -/
inductive Logs (machine : Machine) : Except Error Step → Array Event → Prop where
  | halted (inside : machine.accesses.filterMap (Access.event? machine.memory.size) = []) :
      Logs machine (.ok .halted) #[.halted machine.cpu.eip machine.steps]
  | unknownOpcode
      (inside : machine.accesses.filterMap (Access.event? machine.memory.size) = []) :
      Logs machine (.error (.decode (.unknownOpcode machine.opcode machine.cpu.eip)))
        #[.undecodable (.unknownOpcode machine.opcode machine.cpu.eip)]
  | unknownExtension {earlier : Array Event}
      (accounts : Event.Accounts machine.memory.size machine.accesses
        (OpcodeMap.forms machine.opcode).length earlier) :
      Logs machine
        (.error (.decode (.unknownExtension machine.opcode machine.extension machine.cpu.eip)))
        (earlier.push
          (.undecodable (.unknownExtension machine.opcode machine.extension machine.cpu.eip)))
  | executed {earlier : Array Event} {form : Form OperandSize} {instruction : Instruction}
      {word : UInt32} (found : (OpcodeMap.forms machine.opcode)[machine.position]? = some form)
      (named : instruction.mnemonic = form.mnemonic)
      (accounts : Event.Accounts machine.memory.size machine.accesses machine.position earlier) :
      Logs machine (.ok (.executed form.mnemonic)) (earlier.push (.executed instruction word))

/-- Reads of an opcode that is no zero leave nothing to warn of. -/
theorem inside_of_opcodeReads (present : machine.opcode ≠ 0)
    (accesses : machine.accesses = machine.opcodeReads) :
    machine.accesses.filterMap (Access.event? machine.memory.size) = [] := by
  rw [accesses]
  exact congrArg Array.toList (events_opcodeReads present)

theorem logs_step (running : machine.halted = false) :
    machine.Logs machine.step.result machine.step.events := by
  have reads := Reading.reads_ofCode machine.cpu.registers machine.code
  generalize found : Reading.ofCode machine.cpu.registers machine.code = reading at reads
  have reading_eq : machine.reading = reading := found
  have answer := result_step running
  rw [reading_eq] at answer
  cases reads with
  | halt halting =>
      rw [opening_opcode] at halting
      have accesses : machine.accesses = machine.opcodeReads := by
        simp only [Machine.accesses, running, Bool.false_eq_true, if_false, reading_eq]
      rw [answer, events_of_halt running halting]
      exact .halted (inside_of_opcodeReads (by rw [halting]; decide) accesses)
  | unknownOpcode moving unknown =>
      rw [opening_opcode] at moving unknown answer
      have accesses : machine.accesses = machine.opcodeReads := by
        simp only [Machine.accesses, running, Bool.false_eq_true, if_false, reading_eq]
      have present : machine.opcode ≠ 0 := by
        intro zero
        rw [zero] at unknown
        cases unknown
      rw [answer, events_of_unknownOpcode running moving unknown]
      exact .unknownOpcode (inside_of_opcodeReads present accesses)
  | unknownExtension moving known unselected =>
      rw [opening_opcode] at moving known unselected reading_eq answer
      rw [operands_extension] at unselected reading_eq answer
      rcases accounts_of_unknownExtension running moving known unselected reading_eq with
        ⟨earlier, events, accounts⟩
      rw [answer, events]
      exact .unknownExtension accounts
  | @decoded _ instruction =>
      have executed : machine.step.result = .ok (.executed instruction.mnemonic) := answer
      rcases exists_carriesOut executed with ⟨form, other, carried, same⟩
      rcases carried.accounts with ⟨found, earlier, word, events, accounts⟩
      rw [executed, events, ← same, carried.named]
      exact .executed found carried.named accounts

/-- The warnings in a log are the accesses above the memory. -/
theorem Logs.warnings {answer : Except Error Step} {events : Array Event}
    (logs : machine.Logs answer events) :
    events.toList.filter (·.level = .warn) =
      machine.accesses.filterMap (Access.event? machine.memory.size) := by
  cases logs with
  | halted inside | unknownOpcode inside => exact inside.symm
  | unknownExtension accounts | executed _ _ accounts =>
      rw [Array.toList_push, List.filter_append, accounts.warnings]
      exact List.append_nil _

/-- The log of a step, line by line. The warnings are the accesses above the memory, one for each
in their order. A machine that has halted logs nothing, and a step that halts or does not know
the opcode a single line. Every other step traces the forms that decline: those in front of the
one that is carried out, or all forms of the opcode. The last line then is the instruction or the
error, and the lines in front of it are the traces and the warnings alone. -/
theorem log_step (machine : Machine) :
    let log := Threshold.select (some .trace) machine.step.events
    let result := machine.step.result
    let forms := OpcodeMap.forms machine.opcode
    let size := machine.memory.size
    log.toList.filter (·.level = .warn) = machine.accesses.filterMap (Access.event? size) ∧
      (machine.halted = true → log = #[]) ∧
      (machine.halted = false → result = .ok .halted →
        ∃ event, log = #[event] ∧ event.level = .info) ∧
      (∀ opcode eip, result = .error (.decode (.unknownOpcode opcode eip)) →
        ∃ event, log = #[event] ∧ event.level = .error) ∧
      (∀ mnemonic, result = .ok (.executed mnemonic) →
        ∃ form earlier last operands,
          forms[machine.position]? = some form ∧ form.mnemonic = mnemonic ∧
          log = earlier.push last ∧
          Event.Accounts size machine.accesses machine.position earlier ∧
          last.level = .debug ∧ last.message = mnemonic.name ++ " " ++ operands) ∧
      (∀ opcode extension eip,
        let error := Error.decode (.unknownExtension opcode extension eip)
        result = .error error →
          ∃ earlier last,
            log = earlier.push last ∧
            Event.Accounts size machine.accesses forms.length earlier ∧
            last.level = .error ∧ last.message = error.message) := by
  intro log result forms size
  have whole : log = machine.step.events := select_trace _
  rw [whole]
  cases halted : machine.halted with
  | true =>
      have silent : machine.step.events = #[] := by
        simp only [step, stepWith, stepBy, halted, if_true]
      have idle : result = .ok .halted := result_step_of_halted halted
      have still : machine.accesses = [] := if_pos halted
      rw [silent, idle, still]
      exact ⟨rfl, fun _ => rfl, by simp, by simp, by simp, by simp⟩
  | false =>
      have logs : machine.Logs result machine.step.events := logs_step halted
      refine ⟨logs.warnings, by simp, ?halted, ?unknownOpcode, ?executed, ?unknownExtension⟩
      all_goals generalize result = answer, machine.step.events = events at logs
      case halted =>
        rintro - rfl
        cases logs with
        | halted => exact ⟨_, rfl, rfl⟩
      case unknownOpcode =>
        rintro opcode eip rfl
        cases logs with
        | unknownOpcode => exact ⟨_, rfl, rfl⟩
      case executed =>
        rintro mnemonic rfl
        cases logs with
        | @executed _ _ instruction word found named accounts =>
            rw [← named]
            exact ⟨_, _, _, instruction.renderOperands word, found, named.symm, rfl, accounts,
              rfl, rfl⟩
      case unknownExtension =>
        dsimp only
        rintro opcode extension eip rfl
        cases logs with
        | unknownExtension accounts => exact ⟨_, _, rfl, accounts, rfl, rfl⟩

/-- An immediate group at the end of a memory. Two forms decline, and each of them and the
conjunction read a distance of four bytes from above the memory. -/
theorem log_step_at_end :
    let machine := withMemory {} { bytes := #[0x80, 0xA0] }
    machine.step.result = .ok (.executed .and) ∧
      ∃ earlier last,
        Threshold.select (some .trace) machine.step.events = earlier.push last ∧
          Event.Accounts 2 machine.accesses 2 earlier ∧ last.level = .debug := by
  intro machine
  have executed : machine.step.result = .ok (.executed .and) :=
    (step_result_iff rfl _).mpr ((Answers.executed_iff _).mpr (by decide))
  have place : machine.position = 2 := by decide
  rcases (log_step machine).2.2.2.2.1 .and executed with
    ⟨_, earlier, last, _, _, _, log, accounts, level, _⟩
  rw [place] at accounts
  exact ⟨executed, earlier, last, log, accounts, level⟩

end Machine

end Ia32
