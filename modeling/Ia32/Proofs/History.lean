import Ia32.Proofs.Frame
import Ia32.Proofs.Loading
import Ia32.Proofs.Run

/-!
# Histories of calls

What holds of a machine at any time after it was built from a program, whatever steps and runs
have been asked of it and whatever they answered. A run makes steps of its own, so a history is
looked at as the sequence of all machines on which a step was made. The counter is the number of
those that carried out an instruction, and the machine has halted exactly when one of them came
to a halt.
-/

namespace Ia32

namespace Machine

/-! ## Calls -/

/-- What can be asked of a machine. -/
inductive Call where
  | step
  | run
  deriving DecidableEq, Repr

/-- The machine after a call. -/
def call (threshold : Threshold) (machine : Machine) : Call → Machine
  | .step => machine.step.machine
  | .run => (machine.run threshold).machine

/-- The machine after some calls, whatever they answered. -/
def perform (threshold : Threshold) (machine : Machine) : List Call → Machine
  | [] => machine
  | call :: calls => (machine.call threshold call).perform threshold calls

/-- The machines on which a run makes its steps. -/
def runVisits (machine : Machine) : List Machine :=
  if machine.halted then
    []
  else if machine.maxSteps.toNat ≤ machine.steps then
    []
  else
    match _answer : machine.step.result with
    | .ok _ => machine :: machine.step.machine.runVisits
    | .error _ => [machine]
termination_by machine.remaining
decreasing_by exact remaining_stepBy_lt ‹_› ‹_› _answer

/-- The machines on which a call makes steps. -/
def callVisits (machine : Machine) : Call → List Machine
  | .step => [machine]
  | .run => machine.runVisits

/-- The machines on which some calls make steps. -/
def visits (threshold : Threshold) (machine : Machine) : List Call → List Machine
  | [] => []
  | call :: calls =>
      machine.callVisits call ++ (machine.call threshold call).visits threshold calls

/-- A machine that goes on and comes to a halt with the next step. -/
def ReachesHalt (machine : Machine) : Prop :=
  machine.halted = false ∧ machine.opcode = OpcodeMap.halt

/-- Whether the next step carries out an instruction. -/
def executesNext (machine : Machine) : Bool :=
  match machine.step.result with
  | .ok (.executed _) => true
  | .ok .halted => false
  | .error _ => false

theorem executesNext_iff {machine : Machine} : machine.executesNext = true ↔ machine.Executes := by
  unfold executesNext
  constructor
  · intro executes
    split at executes
    next mnemonic answer => exact ⟨mnemonic, answer⟩
    all_goals cases executes
  · rintro ⟨mnemonic, executed⟩
    rw [executed]

/-! ## Single steps -/

theorem size_step (machine : Machine) :
    machine.step.machine.memory.size = machine.memory.size := by
  cases halted : machine.halted with
  | true => rw [machine_step_of_halted halted]
  | false =>
      rw [machine_step halted]
      cases machine.reading with
      | halt | unknownOpcode | unknownExtension => rfl
      | decoded instruction length => exact instruction.size_effect ..

/-- A machine that comes to a halt moves its pointer behind the opcode and has halted. -/
theorem ReachesHalt.outcome_step {machine : Machine} (reaches : machine.ReachesHalt) :
    machine.step.outcome =
      (.ok .halted,
        { machine with
          cpu := { machine.cpu with eip := machine.opcodeAddress + 1 }, halted := true }) := by
  have reads := Reading.reads_ofCode machine.cpu.registers machine.code
  have halting := machine.opening_opcode.trans reaches.2
  rw [Machine.outcome_step reaches.1, Machine.reading, opcodeAddress_add_one]
  generalize Reading.ofCode machine.cpu.registers machine.code = reading at reads
  cases reads with
  | halt => rfl
  | unknownOpcode running | unknownExtension running | decoded running =>
      exact absurd halting running

theorem ReachesHalt.result_step {machine : Machine} (reaches : machine.ReachesHalt) :
    machine.step.result = .ok .halted :=
  congrArg Prod.fst reaches.outcome_step

theorem ReachesHalt.machine_step {machine : Machine} (reaches : machine.ReachesHalt) :
    machine.step.machine =
      { machine with
        cpu := { machine.cpu with eip := machine.opcodeAddress + 1 }, halted := true } :=
  congrArg Prod.snd reaches.outcome_step

/-- A step that carries out nothing and comes to no halt changes nothing. -/
theorem machine_step_of_idle {machine : Machine} (idle : ¬machine.Executes)
    (passes : ¬machine.ReachesHalt) : machine.step.machine = machine := by
  cases halted : machine.halted with
  | true => exact machine_step_of_halted halted
  | false =>
      rcases stop_cases idle with ⟨halts, _⟩ | ⟨error, fails⟩
      · have halting := Answers.halted_iff.mp ((step_result_iff halted _).mp halts)
        exact absurd ⟨halted, halting⟩ passes
      · exact (step_of_error fails).1

theorem steps_step_of_not_executes {machine : Machine} (idle : ¬machine.Executes) :
    machine.step.machine.steps = machine.steps := by
  by_cases reaches : machine.ReachesHalt
  · rw [reaches.machine_step]
  · rw [machine_step_of_idle idle reaches]

/-! ## What every history keeps -/

/-- What holds of a machine after steps on the visited machines: the counter is the number of
instructions that were carried out, the sizes are those of the configuration, and the machine has
halted exactly when a visited machine came to a halt, the opcode of which is then the last byte
that was read. -/
structure Kept (config : Config) (visited : List Machine) (machine : Machine) : Prop where
  steps : machine.steps = visited.countP executesNext
  size : machine.memory.size = config.memorySize.toNat
  maxSteps : machine.maxSteps = config.maxSteps
  halted_iff : machine.halted = true ↔ ∃ earlier ∈ visited, earlier.ReachesHalt
  behind : machine.halted = true →
    machine.memory.readByte (machine.cpu.eip - 1) = OpcodeMap.halt

namespace Kept

variable {config : Config} {visited : List Machine} {machine : Machine}

theorem start {program : Array UInt8} (built : ofProgram config program = .ok machine) :
    Kept config [] machine := by
  rcases ofProgram_eq_ok_iff.mp built with ⟨-, fits, rfl⟩
  rw [← Memory.size_zeros config.memorySize.toNat] at fits
  have size := (Memory.overlays_afterLoad fits).size
  rw [Memory.size_zeros] at size
  exact ⟨rfl, size, rfl, by simp [withMemory], nofun⟩

/-- A step keeps it. -/
theorem step (kept : Kept config visited machine) :
    Kept config (visited ++ [machine]) machine.step.machine := by
  have counted : (visited ++ [machine]).countP executesNext =
      machine.steps + if machine.executesNext then 1 else 0 := by
    rw [List.countP_append, List.countP_singleton, kept.steps]
  have reached : (∃ earlier ∈ visited ++ [machine], earlier.ReachesHalt) ↔
      machine.halted = true ∨ machine.ReachesHalt := by
    rw [kept.halted_iff]
    simp only [List.mem_append, List.mem_singleton, or_and_right, exists_or, exists_eq_left]
  by_cases reaches : machine.ReachesHalt
  · have idle : machine.executesNext = false := by
      rw [executesNext, reaches.result_step]
    rw [reaches.machine_step]
    refine ⟨?_, kept.size, kept.maxSteps, ?_, fun _ => ?_⟩
    · simp only [counted, idle, Bool.false_eq_true, if_false, Nat.add_zero]
    · simp only [reached, reaches, or_true]
    · rw [UInt32.add_sub_cancel]
      exact reaches.2
  by_cases executes : machine.Executes
  · rcases executes.counts with ⟨running, going, more⟩
    have size := machine.size_step.trans kept.size
    have limit := (machine.maxSteps_after 1).trans kept.maxSteps
    refine ⟨?_, size, limit, ?_, fun halted => ?_⟩
    · rw [counted, if_pos (executesNext_iff.mpr executes), more]
    · rw [reached, running, going]
      simp only [reaches, or_false]
    · rw [going] at halted
      cases halted
  · have idle : machine.executesNext = false :=
      Bool.eq_false_iff.mpr (mt executesNext_iff.mp executes)
    rw [machine_step_of_idle executes reaches]
    refine ⟨?_, kept.size, kept.maxSteps, ?_, kept.behind⟩
    · simp only [counted, idle, Bool.false_eq_true, if_false, Nat.add_zero]
    · simp only [reached, reaches, or_false]

/-- A run keeps it, since it is a sequence of steps. -/
theorem runFrom (kept : Kept config visited machine) (threshold : Threshold)
    (events : Array Event) :
    Kept config (visited ++ machine.runVisits) (machine.runFrom threshold events).machine := by
  fun_induction runVisits machine generalizing visited events with
  | case1 machine halted => rwa [runFrom_of_halted threshold events halted, List.append_nil]
  | case2 machine running exhausted =>
      rwa [runFrom_of_exhausted threshold events (Bool.eq_false_iff.mpr running) exhausted,
        List.append_nil]
  | case3 machine running left did answer ih =>
      rw [runFrom_of_ok threshold events (Bool.eq_false_iff.mpr running) (Nat.lt_of_not_le left)
        answer, List.append_cons]
      exact ih kept.step _
  | case4 machine running left error answer =>
      rw [runFrom_of_error threshold events (Bool.eq_false_iff.mpr running)
        (Nat.lt_of_not_le left) answer]
      exact kept.step

theorem call (kept : Kept config visited machine) (threshold : Threshold) (call : Call) :
    Kept config (visited ++ machine.callVisits call) (machine.call threshold call) := by
  cases call with
  | step => exact kept.step
  | run => exact kept.runFrom threshold _

/-- Calls keep it, in any order. -/
theorem perform (kept : Kept config visited machine) (threshold : Threshold)
    (calls : List Call) :
    Kept config (visited ++ machine.visits threshold calls) (machine.perform threshold calls) := by
  induction calls generalizing visited machine with
  | nil => simpa [visits, Machine.perform] using kept
  | cons call calls ih =>
      rw [visits, ← List.append_assoc]
      exact ih (kept.call threshold call)

end Kept

/-! ## Machines that have halted, and histories of runs -/

/-- A run keeps the limit. It does not count beyond it, unless the counter is there already. -/
theorem counters_run (machine : Machine) (threshold : Threshold) :
    (machine.run threshold).machine.maxSteps = machine.maxSteps ∧
      (machine.run threshold).machine.steps ≤ max machine.steps machine.maxSteps.toNat := by
  cases halted : machine.halted with
  | true =>
      rw [run_of_halted halted threshold]
      exact ⟨rfl, Nat.le_max_left ..⟩
  | false =>
      rcases exists_calls halted threshold with ⟨calls, bounded, final, _⟩
      have counted := machine.steps_after_le calls
      rw [final]
      exact ⟨machine.maxSteps_after calls, by omega⟩

end Machine

end Ia32
