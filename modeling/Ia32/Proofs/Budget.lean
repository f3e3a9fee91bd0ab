import Ia32.Proofs.Run

/-!
# Budgets

The instructions that a machine has counted and its limit decide nothing but where a run ends.
So a run with a larger limit goes the same way and at most further, and a run can be taken up
again at every machine that single steps within the limit lead to.
-/

namespace Ia32.Machine

/-! ## Counters play no part in a step -/

/-- Two machines that differ at most in what they have counted and in their limit. -/
structure SameContents (left right : Machine) : Prop where
  cpu : right.cpu = left.cpu
  memory : right.memory = left.memory
  halted : right.halted = left.halted

namespace SameContents

variable {left right : Machine}

theorem follow (same : left.SameContents right) (reading : Reading) :
    (right.follow reading).1 = (left.follow reading).1 ∧
      (left.follow reading).2.SameContents (right.follow reading).2 ∧
      (right.follow reading).2.steps + left.steps =
        (left.follow reading).2.steps + right.steps := by
  cases left with
  | mk cpu memory leftLimit halted leftSteps =>
      cases right with
      | mk rightCpu rightMemory rightLimit rightHalted rightSteps =>
          rcases same with ⟨rfl, rfl, rfl⟩
          cases reading with
          | halt | unknownOpcode | unknownExtension =>
              exact ⟨rfl, ⟨rfl, rfl, rfl⟩, Nat.add_comm ..⟩
          | decoded instruction length =>
              refine ⟨rfl, ⟨rfl, rfl, rfl⟩, ?_⟩
              change rightSteps + 1 + leftSteps = leftSteps + 1 + rightSteps
              omega

/-- A step on the same contents answers the same, leads to the same contents, and counts the
same. -/
theorem step (same : left.SameContents right) :
    right.step.result = left.step.result ∧
      left.step.machine.SameContents right.step.machine ∧
      right.step.machine.steps + left.steps = left.step.machine.steps + right.steps := by
  cases halted : left.halted with
  | true =>
      have rightHalted := same.halted.trans halted
      rw [result_step_of_halted halted, result_step_of_halted rightHalted,
        machine_step_of_halted halted, machine_step_of_halted rightHalted]
      exact ⟨rfl, same, Nat.add_comm ..⟩
  | false =>
      have reading : right.reading = left.reading := by
        rw [Machine.reading, Machine.reading, code, code, same.cpu, same.memory]
      have rightRunning := same.halted.trans halted
      rw [result_step halted, result_step rightRunning, machine_step halted,
        machine_step rightRunning, reading]
      exact same.follow left.reading

/-- Steps on the same contents lead to the same contents and count the same. -/
theorem after (same : left.SameContents right) (count : Nat) :
    (left.after count).SameContents (right.after count) ∧
      (right.after count).steps + left.steps = (left.after count).steps + right.steps := by
  induction count with
  | zero => exact ⟨same, Nat.add_comm ..⟩
  | succ count ih =>
      have next := ih.1.step
      have counted := ih.2
      refine ⟨next.2.1, ?_⟩
      have last := next.2.2
      simp only [Machine.after]
      omega

theorem result_after (same : left.SameContents right) (count : Nat) :
    (right.after count).step.result = (left.after count).step.result :=
  (same.after count).1.step.1

theorem executesFor (same : left.SameContents right) {count : Nat}
    (executes : left.ExecutesFor count) : right.ExecutesFor count := by
  intro index small
  rcases executes index small with ⟨mnemonic, executed⟩
  exact ⟨mnemonic, (same.result_after index).trans executed⟩

end SameContents

/-! ## Taking up a run again -/

/-- Neither the threshold nor the events so far have an influence on where a run ends. -/
theorem outcome_runFrom (threshold other : Threshold) (machine : Machine)
    (events noted : Array Event) :
    (machine.runFrom threshold events).outcome = (machine.runFrom other noted).outcome := by
  fun_induction runFrom threshold machine events generalizing noted with
  | case1 machine events halted => rw [runFrom_of_halted other noted halted]; rfl
  | case2 machine events running exhausted =>
      rw [runFrom_of_exhausted other noted (Bool.eq_false_iff.mpr running) exhausted]
      rfl
  | case3 machine events running left transition reported did answer ih =>
      rw [runFrom_of_ok other noted (Bool.eq_false_iff.mpr running) (Nat.not_le.mp left) answer]
      exact ih _
  | case4 machine events running left transition reported error answer =>
      rw [runFrom_of_error other noted (Bool.eq_false_iff.mpr running) (Nat.not_le.mp left)
        answer]
      rfl

/-- A run ends where it would end after a step that does not fail, if the step is one that the
machine may make. -/
theorem outcome_run_step {machine : Machine} {did : Step}
    (answered : machine.step.result = .ok did)
    (within : machine.halted = false → machine.steps < machine.maxSteps.toNat)
    (threshold : Threshold) :
    (machine.step.machine.run threshold).outcome = (machine.run threshold).outcome := by
  cases halted : machine.halted with
  | true =>
      rw [machine_step_of_halted halted]
  | false =>
      rw [run, run, runFrom_of_ok threshold _ halted (within halted) answered]
      exact outcome_runFrom ..

/-- A number of steps that do not fail, each on a machine that has halted or may still carry out
an instruction. -/
def StepsWithin (machine : Machine) (count : Nat) : Prop :=
  ∀ index < count,
    (∃ did, (machine.after index).step.result = .ok did) ∧
      ((machine.after index).halted = false →
        (machine.after index).steps < machine.maxSteps.toNat)

/-- As many instructions as the machine may still carry out are steps of this kind. -/
theorem ExecutesFor.stepsWithin {machine : Machine} {count : Nat}
    (executes : machine.ExecutesFor count)
    (enough : count ≤ machine.maxSteps.toNat - machine.steps) :
    machine.StepsWithin count := by
  intro index small
  rcases executes index small with ⟨mnemonic, executed⟩
  refine ⟨⟨_, executed⟩, fun _ => ?_⟩
  have counted := (executes.of_le (Nat.le_of_lt small)).steps_after
  omega

/-- A run ends where it would end after such steps. -/
theorem outcome_run_after {machine : Machine} {count : Nat}
    (steps : machine.StepsWithin count) (threshold : Threshold) :
    ((machine.after count).run threshold).outcome = (machine.run threshold).outcome := by
  induction count with
  | zero => rfl
  | succ count ih =>
      rcases steps count (Nat.lt_succ_self count) with ⟨⟨did, answered⟩, within⟩
      rw [← machine.maxSteps_after count] at within
      rw [← ih fun index small => steps index (Nat.lt_succ_of_lt small)]
      exact outcome_run_step answered within threshold

/-! ## Larger limits -/

/-- The same machine with another limit. -/
def withLimit (machine : Machine) (limit : UInt64) : Machine :=
  { machine with maxSteps := limit }

section

variable (machine : Machine) (limit : UInt64)

theorem sameContents_withLimit : machine.SameContents (machine.withLimit limit) :=
  ⟨rfl, rfl, rfl⟩

/-- Steps do not depend on the limit. -/
theorem after_withLimit (count : Nat) :
    (machine.withLimit limit).after count = (machine.after count).withLimit limit := by
  have same := (machine.sameContents_withLimit limit).after count
  have raised := (machine.withLimit limit).maxSteps_after count
  have counted : ((machine.withLimit limit).after count).steps = (machine.after count).steps :=
    Nat.add_right_cancel same.2
  generalize (machine.withLimit limit).after count = final at same raised counted
  cases final with
  | mk cpu memory maxSteps halted steps =>
      rcases same.1 with ⟨rfl, rfl, rfl⟩
      cases raised
      cases counted
      rfl

end

section

variable {machine : Machine} {limit : UInt64} {count : Nat} (running : machine.halted = false)
  (larger : machine.maxSteps ≤ limit) (threshold : Threshold)

include running larger

/-- A run that ends before its steps are used up ends there with a larger limit, too. -/
theorem run_withLimit_of_stop (within : count < machine.maxSteps.toNat - machine.steps)
    (executes : machine.ExecutesFor count) (stop : ¬(machine.after count).Executes) :
    ((machine.withLimit limit).run threshold).outcome =
      ((machine.run threshold).result,
        (machine.run threshold).machine.withLimit limit) := by
  have same := machine.sameContents_withLimit limit
  have raisedWithin : count < (machine.withLimit limit).maxSteps.toNat -
      (machine.withLimit limit).steps := by
    have raised := UInt64.le_iff_toNat_le.mp larger
    change count < limit.toNat - machine.steps
    omega
  have raisedStop : ¬((machine.withLimit limit).after count).Executes := by
    rintro ⟨mnemonic, executed⟩
    exact stop ⟨mnemonic, (same.result_after count).symm.trans executed⟩
  have raisedRunning : (machine.withLimit limit).halted = false := running
  have short := run_of_stop running within executes stop threshold
  have long := run_of_stop raisedRunning raisedWithin (same.executesFor executes) raisedStop
    threshold
  rw [short, long, Transition.outcome, same.result_after count, after_withLimit]

/-- A run that has used up its steps ends with a larger limit where it ends when it is taken up
again. -/
theorem run_withLimit_of_executesFor
    (executes : machine.ExecutesFor (machine.maxSteps.toNat - machine.steps)) :
    (((machine.run threshold).machine.withLimit limit).run threshold).outcome =
      ((machine.withLimit limit).run threshold).outcome := by
  have same := machine.sameContents_withLimit limit
  have raised := same.executesFor executes
  rw [run_of_executesFor running executes threshold, ← after_withLimit]
  apply outcome_run_after
  exact raised.stepsWithin
    (Nat.sub_le_sub_right (UInt64.le_iff_toNat_le.mp larger) machine.steps)

end

/-- A run uses up its steps exactly when they all carry out instructions. -/
theorem exhausts_iff {machine : Machine} (running : machine.halted = false)
    (threshold : Threshold) :
    (∃ maxSteps eip, (machine.run threshold).result = .error (.budget maxSteps eip)) ↔
      machine.ExecutesFor (machine.maxSteps.toNat - machine.steps) := by
  constructor
  · rintro ⟨maxSteps, eip, exhausted⟩
    have ends := ends_run running threshold
    rw [Transition.outcome, exhausted] at ends
    cases ends with
    | exhausted executes => exact executes
  · intro executes
    exact ⟨_, _, congrArg Transition.result (run_of_executesFor running executes threshold)⟩

/-- A larger limit lets a run go on and changes nothing else. A run that ends well or with a
decode error ends in the same way, at the same machine, under every larger limit. A run that has
used up its steps can be taken up again under the larger limit, and ends where a run under this
limit ends from the start. In the same way a run can be taken up behind any number of single
steps that do not fail, as long as each is made on a machine that has halted or may still carry
out an instruction. -/
theorem run_extends_and_resumes (machine : Machine) (limit : UInt64)
    (larger : machine.maxSteps ≤ limit) (threshold : Threshold) :
    let short := machine.run threshold
    let long := (machine.withLimit limit).run threshold
    ((short.result = .ok () ∨ ∃ cause, short.result = .error (.decode cause)) →
        long.outcome = (short.result, short.machine.withLimit limit)) ∧
      ((∃ maxSteps eip, short.result = .error (.budget maxSteps eip)) →
        ((short.machine.withLimit limit).run threshold).outcome = long.outcome) ∧
      ∀ count, machine.StepsWithin count →
        ((machine.after count).run threshold).outcome = short.outcome := by
  intro short long
  refine ⟨?ended, ?exhausted, fun count steps => outcome_run_after steps threshold⟩
  case ended =>
    intro ended
    cases halted : machine.halted with
    | true =>
        have raisedHalted : (machine.withLimit limit).halted = true := halted
        rw [show short = _ from run_of_halted halted threshold,
          show long = _ from run_of_halted raisedHalted threshold]
        rfl
    | false =>
        rcases machine.exists_stop_or_executesFor (machine.maxSteps.toNat - machine.steps) with
          ⟨count, within, executes, stop⟩ | all
        · exact run_withLimit_of_stop halted larger threshold within executes stop
        · -- A run that uses up its steps does not end in either of the two ways.
          rcases (exhausts_iff halted threshold).mpr all with ⟨maxSteps, eip, exhausted⟩
          rcases ended with well | ⟨cause, failed⟩
          · cases exhausted.symm.trans well
          · cases exhausted.symm.trans failed
  case exhausted =>
    intro exhausted
    cases halted : machine.halted with
    | true =>
        rw [show short = _ from run_of_halted halted threshold] at exhausted
        rcases exhausted with ⟨maxSteps, eip, impossible⟩
        cases impossible
    | false =>
        have all := (exhausts_iff halted threshold).mp exhausted
        exact run_withLimit_of_executesFor halted larger threshold all

/-- A jump to the next instruction that uses up the only step, so that the machine reaches its
halt under a larger limit alone. -/
theorem run_extends_and_resumes_behind_jump :
    let machine := withMemory { maxSteps := 1 } { bytes := #[0xEB, 0, 0xF4] }
    machine.maxSteps ≤ 2 ∧
      (((machine.run none).machine.withLimit 2).run none).outcome =
        ((machine.withLimit 2).run none).outcome ∧
      ((machine.after 1).run none).outcome = (machine.run none).outcome := by
  intro machine
  have larger : machine.maxSteps ≤ 2 := by decide
  have jumped : machine.step.result = .ok (.executed .jmp) :=
    (step_result_iff rfl _).mpr ((Answers.executed_iff _).mpr (by decide))
  have executes : machine.ExecutesFor 1 := by
    intro index small
    rcases Nat.lt_one_iff.mp small with rfl
    exact ⟨_, jumped⟩
  have resumed := run_extends_and_resumes machine 2 larger none
  exact ⟨larger, resumed.2.1 ((exhausts_iff rfl none).mpr executes),
    resumed.2.2 1 (executes.stepsWithin (by decide))⟩

end Ia32.Machine
