import Ia32.Proofs.Checked.Execution
import Ia32.Proofs.History

/-!
# Runs in machine words

Steps and runs of a machine that counts its instructions in a machine word. The only thing that
stops a step is a counter that has no room for the instruction that was carried out, and a run,
the limit of which is a machine word, ends before that. So a machine that was built from a program
stays in range: its counter is a machine word and its memory is a block.
-/

namespace Ia32

/-- No form of the opcode map breaks its rules. -/
theorem Exec.finding_ne_fault (core : Core) (cause : Fault) :
    ((executeNext OpcodeMap.forms).run core).1 ≠ .fault cause := by
  rcases executeNext_follows OpcodeMap.forms core (List.Perm.refl _) with ⟨journal, ran⟩
  rw [ran]
  cases Reading.ofCode core.cpu.registers core.code <;> exact nofun

namespace Machine

/-! ## Steps -/

def checkedStep (machine : Machine) : Checked (Transition Step) :=
  if machine.halted then
    return { result := .ok .halted, machine, events := #[] }
  else do
    let start := machine.cpu.eip
    let (finding, core) :=
      (CheckedExec.executeNext OpcodeMap.forms).run (.start machine.cpu machine.memory)
    let after := { machine with cpu := core.cpu, memory := core.memory }
    match ← finding with
    | .halt =>
        return {
          result := .ok .halted
          machine := { after with halted := true }
          events := core.journal.push (.halted start machine.steps) }
    | .executed mnemonic =>
        return {
          result := .ok (.executed mnemonic)
          machine := { after with steps := ← WordSize.sixtyFour.add machine.steps 1 }
          events := core.journal }
    | .undecodable cause =>
        return {
          result := .error (.decode cause)
          machine := after
          events := core.journal.push (.undecodable cause) }
    | .fault cause => throw (.fault cause)

/-- The counter of the machine is a machine word that is not the last one. -/
def HasRoom (machine : Machine) : Prop :=
  machine.steps + 1 < WordSize.sixtyFour.bound

theorem result_step_ne_fault (machine : Machine) (cause : Fault) :
    machine.step.result ≠ .error (.fault cause) := by
  cases halted : machine.halted with
  | true => simp [result_step_of_halted halted]
  | false =>
      rw [result_step halted]
      cases machine.reading <;> simp [follow]

/-- A step stops at most where it counts. -/
theorem checkedStep_eq (machine : Machine) :
    machine.checkedStep =
      match machine.step.result with
      | .ok (.executed _) => do
          let _ ← WordSize.sixtyFour.add machine.steps 1
          return machine.step
      | _ => pure machine.step := by
  have regular := Exec.finding_ne_fault (.start machine.cpu machine.memory)
  unfold checkedStep step stepWith stepBy
  rw [CheckedExec.run_executeNext]
  generalize (Exec.executeNext OpcodeMap.forms).run (.start machine.cpu machine.memory) = answer
    at regular
  rcases answer with ⟨finding, core⟩
  split
  · rfl
  · cases finding with
    | halt | undecodable => rfl
    | executed mnemonic =>
        simp only [CheckedExec.ofFinding]
        unfold WordSize.add
        split <;> rfl
    | fault cause => exact absurd rfl (regular cause)

/-- A machine whose counter has room makes the step that it makes without bounds. -/
theorem checkedStep_of_hasRoom {machine : Machine} (room : machine.HasRoom) :
    machine.checkedStep = pure machine.step := by
  rw [checkedStep_eq]
  split
  · rw [WordSize.add_eq room, pure_bind]
  · rfl

theorem add_of_not_hasRoom {machine : Machine} (full : ¬machine.HasRoom) :
    WordSize.sixtyFour.add machine.steps 1 = throw .overflow :=
  if_neg full

/-- An instruction that the counter has no room for stops the machine. -/
theorem checkedStep_of_not_hasRoom {machine : Machine} (executes : machine.Executes)
    (full : ¬machine.HasRoom) : machine.checkedStep = throw .overflow := by
  rcases executes with ⟨mnemonic, executed⟩
  rw [checkedStep_eq, executed]
  simp only [add_of_not_hasRoom full]
  rfl

/-- A step that is not stopped is the step that is made without bounds. -/
theorem eq_step_of_checkedStep {machine : Machine} {transition : Transition Step}
    (made : machine.checkedStep = .ok transition) : transition = machine.step := by
  rw [checkedStep_eq] at made
  split at made
  · by_cases room : machine.HasRoom
    · rw [WordSize.add_eq room] at made
      exact (Except.ok.inj made).symm
    · rw [add_of_not_hasRoom room] at made
      cases made
  · exact (Except.ok.inj made).symm

/-! ## Runs -/

def checkedRunFrom (threshold : Threshold) (machine : Machine) (events : Array Event) :
    Checked (Transition Unit) :=
  if machine.halted then
    return { result := .ok (), machine, events }
  else if machine.maxSteps.toNat ≤ machine.steps then
    return { result := .error (.budget machine.maxSteps machine.cpu.eip), machine, events }
  else
    match _made : machine.checkedStep with
    | .error panic => throw panic
    | .ok transition =>
        let events := events ++ threshold.select transition.events
        match _answer : transition.result with
        | .ok _ => checkedRunFrom threshold transition.machine events
        | .error error => return { result := .error error, machine := transition.machine, events }
termination_by machine.remaining
decreasing_by
  cases eq_step_of_checkedStep _made
  exact remaining_stepBy_lt ‹_› ‹_› _answer

def checkedRun (threshold : Threshold) (machine : Machine) : Checked (Transition Unit) :=
  machine.checkedRunFrom threshold #[]

/-- Since the limit is a machine word, a counter below it has room. -/
theorem hasRoom_of_lt {machine : Machine} (left : machine.steps < machine.maxSteps.toNat) :
    machine.HasRoom := by
  have word : machine.maxSteps.toNat < WordSize.sixtyFour.bound := machine.maxSteps.toNat_lt
  unfold HasRoom
  omega

/-- As long as a run goes on the counter is below the limit and has room. -/
theorem checkedRunFrom_eq (threshold : Threshold) (machine : Machine) (events : Array Event) :
    machine.checkedRunFrom threshold events = pure (machine.runFrom threshold events) := by
  fun_induction checkedRunFrom threshold machine events with
  | case1 machine events halted => rw [runFrom_of_halted threshold events halted]
  | case2 machine events running exhausted =>
      rw [runFrom_of_exhausted threshold events (Bool.eq_false_iff.mpr running) exhausted]
  | case3 machine events running left panic stopped =>
      have made := checkedStep_of_hasRoom (hasRoom_of_lt (Nat.not_le.mp left))
      cases made.symm.trans stopped
  | case4 machine events running left transition made reported did answer ih =>
      cases eq_step_of_checkedStep made
      rw [runFrom_of_ok threshold events (Bool.eq_false_iff.mpr running) (Nat.not_le.mp left)
        answer]
      exact ih
  | case5 machine events running left transition made reported error answer =>
      cases eq_step_of_checkedStep made
      rw [runFrom_of_error threshold events (Bool.eq_false_iff.mpr running) (Nat.not_le.mp left)
        answer]

theorem checkedRun_eq (threshold : Threshold) (machine : Machine) :
    machine.checkedRun threshold = pure (machine.run threshold) :=
  machine.checkedRunFrom_eq threshold #[]

theorem result_runFrom_ne_fault (threshold : Threshold) (machine : Machine)
    (events : Array Event) (cause : Fault) :
    (machine.runFrom threshold events).result ≠ .error (.fault cause) := by
  fun_induction runFrom threshold machine events with
  | case1 | case2 => simp
  | case3 machine events running left transition others did answer ih => exact ih
  | case4 machine events running left transition others error answer =>
      rintro ⟨⟩
      exact machine.result_step_ne_fault cause answer

/-- Nothing stops a step of a machine whose counter is not full, or a run: both do what they do
without bounds, and no form of the opcode map breaks its rules. A form of any operation and operand
sizes stops exactly when its immediate value is wider than its operand, which leaves everything as
it was. When it declines, the instruction pointer is where it was. -/
theorem never_panics :
    (∀ machine : Machine, machine.HasRoom →
      machine.checkedStep = .ok machine.step ∧
        ∀ cause, machine.step.result ≠ .error (.fault cause)) ∧
    (∀ (machine : Machine) (threshold : Threshold),
      machine.checkedRun threshold = .ok (machine.run threshold) ∧
        ∀ cause, (machine.run threshold).result ≠ .error (.fault cause)) ∧
    (∀ opcode, ∀ form ∈ OpcodeMap.forms opcode, ∀ full, (form.resolve full).ImmediateFits) ∧
    (∀ (form : Form OperandSize) (full : Width) (opcode : UInt8) (core : Core),
      let attempt := ((form.resolve full).attempt opcode).run core
      let checked := ((form.resolve full).checkedAttempt opcode).run core
      checked = (Checked.ofAnswer attempt.1, attempt.2) ∧
        ((∃ panic, checked.1 = .error panic) ↔
          ∃ op operand immediate, form = .binaryPlaceImmediate op operand immediate ∧
            (operand.resolve full).bytes < (immediate.resolve full).bytes) ∧
        (∀ panic, checked.1 = .error panic →
          panic = .fault .immediateTooWide ∧ checked.2 = core) ∧
        ∀ eip, checked.1 = .ok (.declined eip) →
          eip = core.cpu.eip ∧ checked.2.cpu = core.cpu) := by
  refine ⟨?step, ?run, ?fits, ?form⟩
  case step =>
    exact fun machine room => ⟨checkedStep_of_hasRoom room, machine.result_step_ne_fault⟩
  case run =>
    exact fun machine threshold =>
      ⟨checkedRun_eq threshold machine, result_runFrom_ne_fault threshold machine #[]⟩
  case fits =>
    exact fun opcode form member full => OpcodeMap.immediateFits_of_mem_forms member full
  case form =>
    intro form full opcode core attempt checked
    have same : checked = (Checked.ofAnswer attempt.1, attempt.2) :=
      (form.resolve full).run_checkedAttempt opcode core
    rw [← Form.not_immediateFits_resolve_iff]
    by_cases fits : (form.resolve full).ImmediateFits
    · have answers : ∃ outcome, attempt.1 = .ok outcome :=
        ⟨_, congrArg Prod.fst (Form.run_attempt fits opcode core)⟩
      rcases answers with ⟨outcome, answer⟩
      refine ⟨same, ?_, ?_, ?_⟩
      · simp [same, answer, fits, Checked.ofAnswer]
      · simp [same, answer, Checked.ofAnswer]
      · intro eip declined
        rw [same, answer] at declined
        cases declined
        rw [same]
        exact Form.restores_of_declined opcode answer
    · have stopped : checked = (.error (.fault .immediateTooWide), core) :=
        Form.run_checkedAttempt_of_not_fits opcode fits core
      refine ⟨same, ⟨fun _ => fits, fun _ => ⟨_, congrArg Prod.fst stopped⟩⟩, ?_, ?_⟩
      · rw [stopped]
        rintro panic ⟨⟩
        exact ⟨rfl, rfl⟩
      · simp [stopped]

/-- The last instruction that the counter has room for, the one behind it, and a doubleword that is
combined with a byte. -/
theorem never_panics_at_last_count :
    let memory : Memory := { bytes := #[0x04, 1, 0x04, 1] }
    let machine := { withMemory {} memory with steps := 0xFFFFFFFFFFFFFFFE }
    let form : Form OperandSize := .binaryPlaceImmediate (.arithmetic .add) .byte .full
    machine.HasRoom ∧ machine.checkedStep = .ok machine.step ∧
      machine.step.machine.checkedStep = .error .overflow ∧
      ((form.resolve .dword).checkedAttempt 0x83).run (.start .reset memory) =
        (.error (.fault .immediateTooWide), .start .reset memory) := by
  intro memory machine form
  have room : machine.HasRoom := by
    unfold HasRoom
    decide
  have executes : machine.step.machine.Executes :=
    ⟨.add, (step_result_iff (by decide +kernel) _).mpr
      ((Answers.executed_iff _).mpr (by decide +kernel))⟩
  have full : ¬machine.step.machine.HasRoom := by
    unfold HasRoom
    decide +kernel
  have stops := never_panics.2.2.2 form .dword 0x83 (.start .reset memory)
  rcases stops.2.1.mpr ⟨_, _, _, rfl, by decide⟩ with ⟨panic, stopped⟩
  rcases stops.2.2.1 panic stopped with ⟨rfl, unchanged⟩
  exact ⟨room, (never_panics.1 machine room).1, checkedStep_of_not_hasRoom executes full,
    Prod.ext stopped unchanged⟩

/-! ## Machines in range -/

/-- The counter is a machine word, and the memory is no larger than a block can be. -/
structure InRange (machine : Machine) : Prop where
  counter : machine.steps < WordSize.sixtyFour.bound
  block : machine.memory.size ≤ Memory.maxSize

namespace InRange

variable {machine : Machine}

theorem of_ofProgram {config : Config} {program : Array UInt8}
    (built : ofProgram config program = .ok machine) : machine.InRange := by
  have kept := Kept.start built
  have zero : machine.steps = 0 := kept.steps
  have block := (ofProgram_eq_ok_iff.mp built).1
  rw [← kept.size] at block
  exact ⟨by rw [zero]; decide, block⟩

/-- A step that is not stopped stays in range. -/
theorem checkedStep (inRange : machine.InRange) {transition : Transition Step}
    (made : machine.checkedStep = .ok transition) : transition.machine.InRange := by
  have same := eq_step_of_checkedStep made
  have counter : machine.step.machine.steps < WordSize.sixtyFour.bound := by
    by_cases executes : machine.Executes
    · rw [executes.counts.2.2]
      apply Classical.byContradiction
      intro full
      cases (checkedStep_of_not_hasRoom executes full).symm.trans made
    · rw [steps_step_of_not_executes executes]
      exact inRange.counter
  rw [same]
  exact ⟨counter, by rw [size_step]; exact inRange.block⟩

theorem runFrom (inRange : machine.InRange) (threshold : Threshold) (events : Array Event) :
    (machine.runFrom threshold events).machine.InRange := by
  fun_induction Machine.runFrom threshold machine events with
  | case1 | case2 => exact inRange
  | case3 machine events running left transition reported did answer ih =>
      have room := hasRoom_of_lt (Nat.not_le.mp left)
      exact ih (inRange.checkedStep (checkedStep_of_hasRoom room))
  | case4 machine events running left transition reported error answer =>
      have room := hasRoom_of_lt (Nat.not_le.mp left)
      exact inRange.checkedStep (checkedStep_of_hasRoom room)

end InRange

/-- A machine in range. -/
structure Ranged where
  machine : Machine
  inRange : machine.InRange

namespace Ranged

/-- A machine about to start on a program. -/
def ofProgram (config : Config) (program : Array UInt8) : Except Error Ranged :=
  match built : Machine.ofProgram config program with
  | .ok machine => .ok { machine, inRange := .of_ofProgram built }
  | .error error => .error error

/-- The machine after a step, unless the counter stops it. -/
def step (ranged : Ranged) : Checked Ranged :=
  match made : ranged.machine.checkedStep with
  | .ok transition =>
      .ok { machine := transition.machine, inRange := ranged.inRange.checkedStep made }
  | .error panic => .error panic

/-- The machine after a run, which nothing stops. -/
def run (threshold : Threshold) (ranged : Ranged) : Ranged where
  machine := (ranged.machine.run threshold).machine
  inRange := ranged.inRange.runFrom threshold #[]

/-- The machine after some calls, unless one of them is stopped. -/
def perform (threshold : Threshold) (ranged : Ranged) : List Call → Checked Ranged
  | [] => return ranged
  | .step :: calls => do (← ranged.step).perform threshold calls
  | .run :: calls => (ranged.run threshold).perform threshold calls

variable {ranged : Ranged}

/-- A machine that is built is in range. -/
theorem ofProgram_eq_ok_iff {config : Config} {program : Array UInt8} :
    ofProgram config program = .ok ranged ↔
      Machine.ofProgram config program = .ok ranged.machine := by
  rcases ranged with ⟨machine, inRange⟩
  unfold ofProgram
  split
  next built => simp [built]
  next failed => simp [failed]

theorem step_of_hasRoom (room : ranged.machine.HasRoom) :
    ∃ next, ranged.step = .ok next ∧ next.machine = ranged.machine.step.machine := by
  have made := checkedStep_of_hasRoom room
  unfold step
  split
  next same =>
    cases made.symm.trans same
    exact ⟨_, rfl, rfl⟩
  next stopped => cases made.symm.trans stopped

/-- As long as the counter cannot get full, calls do what they do without bounds: a run does not
count beyond the limit, and a step counts one more. -/
theorem perform_eq (threshold : Threshold) (calls : List Call)
    (room : max ranged.machine.steps ranged.machine.maxSteps.toNat + calls.count .step <
      WordSize.sixtyFour.bound) :
    ∃ final, ranged.perform threshold calls = .ok final ∧
      final.machine = ranged.machine.perform threshold calls := by
  induction calls generalizing ranged with
  | nil => exact ⟨ranged, rfl, rfl⟩
  | cons call calls ih =>
      cases call with
      | step =>
          rw [List.count_cons_self] at room
          have roomy : ranged.machine.HasRoom := by
            unfold HasRoom
            omega
          rcases step_of_hasRoom roomy with ⟨next, made, same⟩
          have counted := ranged.machine.steps_step_le
          have limit := ranged.machine.maxSteps_after 1
          have left : max next.machine.steps next.machine.maxSteps.toNat + calls.count .step <
              WordSize.sixtyFour.bound := by
            rw [same, show ranged.machine.step.machine.maxSteps = _ from limit]
            omega
          rcases ih left with ⟨final, performed, ended⟩
          rw [same] at ended
          exact ⟨final, by rw [perform, made]; exact performed, ended⟩
      | run =>
          rw [List.count_cons_of_ne (by decide)] at room
          rcases ranged.machine.counters_run threshold with ⟨limit, counted⟩
          have left : max (ranged.run threshold).machine.steps
              (ranged.run threshold).machine.maxSteps.toNat + calls.count .step <
              WordSize.sixtyFour.bound := by
            rw [run, limit]
            dsimp only
            omega
          exact ih left

end Ranged

end Machine

end Ia32
