import Ia32.Proofs.Execution

/-!
# Runs as sequences of steps

A run makes one step after the other for as long as instructions are carried out. It ends with
the first step that does anything else, or when the machine has carried out all the
instructions that it may, whatever would come next. The counter goes up with each instruction
that is carried out and with nothing else, so the steps that are left bound the run.
-/

namespace Ia32.Machine

/-! ## Sequences of steps -/

/-- The machine after a number of steps, whatever they answer. -/
def after (machine : Machine) : (count : Nat) → Machine
  | 0 => machine
  | count + 1 => (machine.after count).step.machine

/-- What a number of steps report. -/
def reported (machine : Machine) : (count : Nat) → Array Event
  | 0 => #[]
  | count + 1 => machine.reported count ++ (machine.after count).step.events

/-- A step that carries out an instruction. -/
def Executes (machine : Machine) : Prop :=
  ∃ mnemonic, machine.step.result = .ok (.executed mnemonic)

/-- A number of steps that all carry out an instruction. -/
def ExecutesFor (machine : Machine) (count : Nat) : Prop :=
  ∀ index < count, (machine.after index).Executes

theorem ExecutesFor.of_le {machine : Machine} {count index : Nat}
    (executes : machine.ExecutesFor count) (small : index ≤ count) : machine.ExecutesFor index :=
  fun other smaller => executes other (Nat.lt_of_lt_of_le smaller small)

theorem ExecutesFor.succ_iff {machine : Machine} {count : Nat} :
    machine.ExecutesFor (count + 1) ↔
      machine.ExecutesFor count ∧ (machine.after count).Executes := by
  constructor
  · intro executes
    exact ⟨executes.of_le (Nat.le_succ count), executes count (Nat.lt_succ_self count)⟩
  · rintro ⟨earlier, last⟩ index small
    rcases Nat.lt_succ_iff_lt_or_eq.mp small with small | rfl
    · exact earlier index small
    · exact last

/-- Some step within a number of steps is the first that carries out nothing, or they all
carry out an instruction. -/
theorem exists_stop_or_executesFor (machine : Machine) (count : Nat) :
    (∃ index < count, machine.ExecutesFor index ∧ ¬(machine.after index).Executes) ∨
      machine.ExecutesFor count := by
  induction count with
  | zero => exact .inr nofun
  | succ count ih =>
      rcases ih with ⟨index, small, stop⟩ | executes
      · exact .inl ⟨index, Nat.lt_succ_of_lt small, stop⟩
      by_cases next : (machine.after count).Executes
      · exact .inr (ExecutesFor.succ_iff.mpr ⟨executes, next⟩)
      · exact .inl ⟨count, Nat.lt_succ_self count, executes, next⟩

/-! ## What a step counts -/

@[simp] theorem maxSteps_stepBy (machine : Machine) (action : Exec Exec.Finding) :
    (machine.stepBy action).machine.maxSteps = machine.maxSteps := by
  unfold stepBy
  split
  · rfl
  · dsimp only
    split <;> rfl

theorem maxSteps_after (machine : Machine) (count : Nat) :
    (machine.after count).maxSteps = machine.maxSteps := by
  induction count with
  | zero => rfl
  | succ count ih => rw [after, step, stepWith, maxSteps_stepBy, ih]

/-- A step counts at most one instruction. -/
theorem steps_step_le (machine : Machine) : machine.step.machine.steps ≤ machine.steps + 1 := by
  unfold step stepWith stepBy
  split
  · exact Nat.le_succ _
  · dsimp only
    split
    · exact Nat.le_succ _
    · exact Nat.le_refl _
    · exact Nat.le_succ _
    · exact Nat.le_succ _

theorem steps_after_le (machine : Machine) (count : Nat) :
    (machine.after count).steps ≤ machine.steps + count := by
  induction count with
  | zero => exact Nat.le_refl _
  | succ count ih =>
      have step := (machine.after count).steps_step_le
      unfold after
      omega

/-- A step that carries out an instruction counts it, and the machine goes on. -/
theorem Executes.counts {machine : Machine} (executes : machine.Executes) :
    machine.halted = false ∧ machine.step.machine.halted = false ∧
      machine.step.machine.steps = machine.steps + 1 := by
  rcases executes with ⟨mnemonic, executed⟩
  rcases exists_carriesOut executed with ⟨form, instruction, carried, _⟩
  rw [carried.step_machine]
  exact ⟨carried.running, carried.running, rfl⟩

theorem ExecutesFor.halted_after {machine : Machine} {count : Nat}
    (executes : machine.ExecutesFor count) (running : machine.halted = false) :
    (machine.after count).halted = false := by
  cases count with
  | zero => exact running
  | succ count => exact (executes count (Nat.lt_succ_self count)).counts.2.1

theorem ExecutesFor.steps_after {machine : Machine} {count : Nat}
    (executes : machine.ExecutesFor count) :
    (machine.after count).steps = machine.steps + count := by
  induction count with
  | zero => rfl
  | succ count ih =>
      rcases ExecutesFor.succ_iff.mp executes with ⟨earlier, last⟩
      rw [after, last.counts.2.2, ih earlier]
      rfl

/-- A step that answers that the machine has halted leaves it halted. -/
theorem halted_step_of_halts {machine : Machine} (halts : machine.step.result = .ok .halted) :
    machine.step.machine.halted = true := by
  cases halted : machine.halted with
  | true =>
      rwa [machine_step_of_halted halted]
  | false =>
      rw [result_step halted] at halts
      rw [machine_step halted]
      cases reading : machine.reading with
      | halt => rfl
      | unknownOpcode | unknownExtension | decoded =>
          rw [reading] at halts
          cases halts

/-! ## Runs -/

/-- A step that carries out nothing has halted the machine or failed. -/
theorem stop_cases {machine : Machine} (stop : ¬machine.Executes) :
    (machine.step.result = .ok .halted ∧ machine.step.machine.halted = true) ∨
      ∃ error, machine.step.result = .error error := by
  cases answer : machine.step.result with
  | error error => exact .inr ⟨error, rfl⟩
  | ok did =>
      cases did with
      | executed mnemonic => exact absurd ⟨mnemonic, answer⟩ stop
      | halted => exact .inl ⟨rfl, halted_step_of_halts answer⟩

theorem run_of_halted {machine : Machine} (halted : machine.halted = true)
    (threshold : Threshold) :
    machine.run threshold = { result := .ok (), machine, events := #[] } :=
  runFrom_of_halted threshold #[] halted

/-- A run ends with a step that carries out nothing. -/
theorem runFrom_of_stop (threshold : Threshold) {machine : Machine}
    (running : machine.halted = false) (left : machine.steps < machine.maxSteps.toNat)
    (stop : ¬machine.Executes) (events : Array Event) :
    machine.runFrom threshold events =
      { result := machine.step.result.map fun _ => ()
        machine := machine.step.machine
        events := events ++ threshold.select machine.step.events } := by
  rcases stop_cases stop with ⟨halts, halted⟩ | ⟨error, fails⟩
  · rw [runFrom_of_ok threshold events running left halts, runFrom_of_halted _ _ halted, halts]
    rfl
  · rw [runFrom_of_error threshold events running left fails, fails]
    rfl

theorem select_append (threshold : Threshold) (first second : Array Event) :
    threshold.select (first ++ second) = threshold.select first ++ threshold.select second :=
  Array.filter_append Array.size_append

theorem select_trace (events : Array Event) : Threshold.select (some .trace) events = events := by
  apply Array.filter_eq_self.mpr
  intro event _
  cases event <;> rfl

/-- A run goes on behind as many steps that carry out an instruction as it has left. -/
theorem runFrom_after (threshold : Threshold) {machine : Machine} {count : Nat}
    (executes : machine.ExecutesFor count)
    (enough : count ≤ machine.maxSteps.toNat - machine.steps) (events : Array Event) :
    machine.runFrom threshold events =
      (machine.after count).runFrom threshold
        (events ++ threshold.select (machine.reported count)) := by
  induction count with
  | zero => simp [after, reported, Threshold.select]
  | succ count ih =>
      rcases ExecutesFor.succ_iff.mp executes with ⟨earlier, last⟩
      have left : (machine.after count).steps < (machine.after count).maxSteps.toNat := by
        rw [earlier.steps_after, maxSteps_after]
        omega
      have running := last.counts.1
      rcases last with ⟨mnemonic, executed⟩
      rw [ih earlier (Nat.le_of_lt enough), runFrom_of_ok threshold _ running left executed,
        Array.append_assoc, ← select_append]
      rfl

section

variable {machine : Machine} {count : Nat}

/-- A run ends with the first step that carries out nothing, if the steps that are left reach
so far. -/
theorem run_of_stop (running : machine.halted = false)
    (within : count < machine.maxSteps.toNat - machine.steps) (executes : machine.ExecutesFor count)
    (stop : ¬(machine.after count).Executes) (threshold : Threshold) :
    machine.run threshold =
      { result := (machine.after count).step.result.map fun _ => ()
        machine := machine.after (count + 1)
        events := threshold.select (machine.reported (count + 1)) } := by
  have left : (machine.after count).steps < (machine.after count).maxSteps.toNat := by
    rw [executes.steps_after, maxSteps_after]
    omega
  rw [run, runFrom_after threshold executes (Nat.le_of_lt within),
    runFrom_of_stop threshold (executes.halted_after running) left stop, Array.empty_append,
    ← select_append]
  rfl

/-- A run ends without its last step when the machine has carried out all the instructions
that it may. -/
theorem run_of_executesFor (running : machine.halted = false)
    (executes : machine.ExecutesFor (machine.maxSteps.toNat - machine.steps))
    (threshold : Threshold) :
    let final := machine.after (machine.maxSteps.toNat - machine.steps)
    machine.run threshold =
      { result := .error (.budget machine.maxSteps final.cpu.eip)
        machine := final
        events :=
          threshold.select (machine.reported (machine.maxSteps.toNat - machine.steps)) } := by
  intro final
  have limit : final.maxSteps = machine.maxSteps := maxSteps_after ..
  have exhausted : final.maxSteps.toNat ≤ final.steps := by
    rw [limit, executes.steps_after]
    omega
  rw [run, runFrom_after threshold executes (Nat.le_refl _), Array.empty_append,
    runFrom_of_exhausted threshold _ (executes.halted_after running) exhausted, limit]

end

/-- The first steps carry out instructions and the next one halts. -/
def HaltsAt (machine : Machine) (count : Nat) : Prop :=
  machine.ExecutesFor count ∧ (machine.after count).step.result = .ok .halted

/-- The first steps carry out instructions and the next one fails. -/
def FailsAt (machine : Machine) (count : Nat) (cause : DecodeError) : Prop :=
  machine.ExecutesFor count ∧ (machine.after count).step.result = .error (.decode cause)

theorem HaltsAt.stop {machine : Machine} {count : Nat} (halts : machine.HaltsAt count) :
    ¬(machine.after count).Executes := by
  rintro ⟨mnemonic, executed⟩
  rw [halts.2] at executed
  cases executed

theorem FailsAt.stop {machine : Machine} {count : Nat} {cause : DecodeError}
    (fails : machine.FailsAt count cause) : ¬(machine.after count).Executes := by
  rintro ⟨mnemonic, executed⟩
  rw [fails.2] at executed
  cases executed

/-- Within a number of steps one halts, or one fails, or they all carry out instructions. -/
theorem exists_end (machine : Machine) (budget : Nat) :
    (∃ count < budget, machine.HaltsAt count) ∨
      (∃ count < budget, ∃ cause, machine.FailsAt count cause) ∨
      machine.ExecutesFor budget := by
  rcases machine.exists_stop_or_executesFor budget with ⟨count, within, executes, stop⟩ | all
  · rcases stop_cases stop with ⟨halts, _⟩ | ⟨error, fails⟩
    · exact .inl ⟨count, within, executes, halts⟩
    · rcases (step_of_error fails).2 with ⟨cause, rfl, _⟩
      exact .inr (.inl ⟨count, within, cause, executes, fails⟩)
  · exact .inr (.inr all)

section

variable {machine : Machine} {count : Nat} (running : machine.halted = false)
  (within : count < machine.maxSteps.toNat - machine.steps) (threshold : Threshold)

include running within

theorem run_outcome_of_haltsAt (halts : machine.HaltsAt count) :
    (machine.run threshold).outcome = (.ok (), machine.after (count + 1)) := by
  rw [run_of_stop running within halts.1 halts.stop, Transition.outcome, halts.2]
  rfl

theorem run_outcome_of_failsAt {cause : DecodeError} (fails : machine.FailsAt count cause) :
    (machine.run threshold).outcome = (.error (.decode cause), machine.after count) := by
  have unchanged : machine.after (count + 1) = machine.after count := (step_of_error fails.2).1
  rw [run_of_stop running within fails.1 fails.stop, Transition.outcome, fails.2, unchanged]
  rfl

end

theorem run_outcome_of_executesFor {machine : Machine} (running : machine.halted = false)
    (executes : machine.ExecutesFor (machine.maxSteps.toNat - machine.steps))
    (threshold : Threshold) :
    let final := machine.after (machine.maxSteps.toNat - machine.steps)
    (machine.run threshold).outcome =
      (.error (.budget machine.maxSteps final.cpu.eip), final) := by
  rw [run_of_executesFor running executes]
  rfl

/-- The ways in which a run that has not halted ends: with a step that halts, with a step that
fails, or without any step left. -/
inductive Ends (machine : Machine) : Except Error Unit × Machine → Prop where
  | halts {count : Nat} (within : count < machine.maxSteps.toNat - machine.steps)
      (halts : machine.HaltsAt count) : Ends machine (.ok (), machine.after (count + 1))
  | fails {count : Nat} {cause : DecodeError}
      (within : count < machine.maxSteps.toNat - machine.steps)
      (fails : machine.FailsAt count cause) :
      Ends machine (.error (.decode cause), machine.after count)
  | exhausted {final : Machine}
      (executes : machine.ExecutesFor (machine.maxSteps.toNat - machine.steps))
      (last : machine.after (machine.maxSteps.toNat - machine.steps) = final) :
      Ends machine (.error (.budget machine.maxSteps final.cpu.eip), final)

theorem ends_run {machine : Machine} (running : machine.halted = false)
    (threshold : Threshold) : machine.Ends (machine.run threshold).outcome := by
  rcases machine.exists_end (machine.maxSteps.toNat - machine.steps) with
    ⟨count, within, halts⟩ | ⟨count, within, cause, fails⟩ | all
  · rw [run_outcome_of_haltsAt running within threshold halts]
    exact .halts within halts
  · rw [run_outcome_of_failsAt running within threshold fails]
    exact .fails within fails
  · rw [run_outcome_of_executesFor running all threshold]
    exact .exhausted all rfl

/-- A run ends well exactly when one of the steps that are left halts and all before it carry out
instructions. -/
theorem outcome_run_eq_ok_iff {machine final : Machine} (running : machine.halted = false)
    (threshold : Threshold) :
    (machine.run threshold).outcome = (.ok (), final) ↔
      ∃ count < machine.maxSteps.toNat - machine.steps,
        machine.HaltsAt count ∧ final = machine.after (count + 1) := by
  constructor
  · intro ended
    have ends := ends_run running threshold
    rw [ended] at ends
    cases ends with
    | halts within halts => exact ⟨_, within, halts, rfl⟩
  · rintro ⟨count, within, halts, rfl⟩
    exact run_outcome_of_haltsAt running within threshold halts

/-- A run makes no more steps than are left, each of them on a machine that goes on and may
make one. -/
theorem exists_calls {machine : Machine} (running : machine.halted = false)
    (threshold : Threshold) :
    ∃ calls ≤ machine.maxSteps.toNat - machine.steps,
      (machine.run threshold).machine = machine.after calls ∧
      (machine.run threshold).events = threshold.select (machine.reported calls) ∧
      ∀ index < calls, (machine.after index).halted = false ∧
        (machine.after index).steps < machine.maxSteps.toNat := by
  have before : ∀ index, index < machine.maxSteps.toNat - machine.steps →
      machine.ExecutesFor index →
      (machine.after index).halted = false ∧
        (machine.after index).steps < machine.maxSteps.toNat := by
    intro index within executes
    have counted := executes.steps_after
    exact ⟨executes.halted_after running, by omega⟩
  rcases machine.exists_stop_or_executesFor (machine.maxSteps.toNat - machine.steps) with
    ⟨count, within, executes, stop⟩ | all
  · refine ⟨count + 1, within, ?_⟩
    rw [run_of_stop running within executes stop threshold]
    refine ⟨rfl, rfl, fun index small => before index (by omega) ?_⟩
    exact executes.of_le (Nat.le_of_lt_succ small)
  · refine ⟨_, Nat.le_refl _, ?_⟩
    rw [run_of_executesFor running all threshold]
    refine ⟨rfl, rfl, fun index small => before index small ?_⟩
    exact all.of_le (Nat.le_of_lt small)

/-- What a run does. A machine that has halted stays as it is. Any other run makes no more
steps than are left of those that the machine may make, each of them with a counter below the
limit, so that the counter never rises above the limit or the value it had. It ends well
exactly when one of these steps halts and all before it carry out instructions, and with a
decode error exactly when one of them fails in that way. When neither happens they all carry
out instructions; the run then ends with the error that the steps are used up, wherever the
next step would lead. -/
theorem run_exact (machine : Machine) (threshold : Threshold) :
    let run := machine.run threshold
    let budget := machine.maxSteps.toNat - machine.steps
    (machine.halted = true → run = { result := .ok (), machine, events := #[] }) ∧
      (machine.halted = false →
        (∃ calls ≤ budget,
          run.machine = machine.after calls ∧
          run.events = threshold.select (machine.reported calls) ∧
          (∀ index < calls, (machine.after index).halted = false ∧
            (machine.after index).steps < machine.maxSteps.toNat) ∧
          ∀ index ≤ calls, (machine.after index).steps ≤ max machine.steps machine.maxSteps.toNat) ∧
        (∀ final, run.outcome = (.ok (), final) ↔
          ∃ count < budget, machine.HaltsAt count ∧ final = machine.after (count + 1)) ∧
        (∀ cause final, run.outcome = (.error (.decode cause), final) ↔
          ∃ count < budget, machine.FailsAt count cause ∧ final = machine.after count) ∧
        ((¬∃ count < budget, machine.HaltsAt count) →
          (¬∃ count < budget, ∃ cause, machine.FailsAt count cause) →
          machine.ExecutesFor budget) ∧
        (machine.ExecutesFor budget →
          let final := machine.after budget
          let error := Error.budget machine.maxSteps final.cpu.eip
          run.outcome = (.error error, final) ∧
            final.halted = false ∧
            final.steps = max machine.steps machine.maxSteps.toNat ∧
            error.message = s!"step budget of {machine.maxSteps} instructions exhausted at eip=" ++
              Text.Hexadecimal.word final.cpu.eip)) := by
  intro run budget
  refine ⟨fun halted => run_of_halted halted threshold, fun running => ?_⟩
  have ends : machine.Ends run.outcome := ends_run running threshold
  refine ⟨?calls, ?halts, ?fails, ?remaining, ?exhausted⟩
  case calls =>
    rcases exists_calls running threshold with ⟨calls, within, final, events, before⟩
    refine ⟨calls, within, final, events, before, fun index small => ?_⟩
    have counted := machine.steps_after_le index
    omega
  case halts =>
    intro final
    exact outcome_run_eq_ok_iff running threshold
  case fails =>
    intro cause final
    constructor
    · intro ended
      rw [ended] at ends
      cases ends with
      | fails within fails => exact ⟨_, within, fails, rfl⟩
    · rintro ⟨count, within, fails, rfl⟩
      exact run_outcome_of_failsAt running within threshold fails
  case remaining =>
    intro neverHalts neverFails
    rcases machine.exists_end budget with halts | fails | all
    · exact absurd halts neverHalts
    · exact absurd fails neverFails
    · exact all
  case exhausted =>
    intro all
    have counted := all.steps_after
    exact ⟨run_outcome_of_executesFor running all threshold, all.halted_after running,
      by omega, rfl⟩

/-- A program that halts behind exactly as many instructions as the machine may carry out. -/
example : ((withMemory { maxSteps := 1 } { bytes := #[0xEB, 0, 0xF4] }).run none).result =
    .error (.budget 1 2) := by
  cbv

end Ia32.Machine
