import Ia32.Proofs.Journal
import Ia32.Proofs.Run

/-!
# Larger memories

Every byte above a memory reads as zero, so reading cannot tell a memory from the same memory
with zeros behind it. Only a write above the smaller one can, and there the smaller one reports
that the write was dropped. A machine that never reports this goes the same way over both.
-/

namespace Ia32

/-! ## Zeros behind a memory -/

namespace Memory

/-- The memory with a number of zeros behind its last byte. -/
def padded (memory : Memory) (zeros : Nat) : Memory :=
  { bytes := memory.bytes ++ Array.replicate zeros 0 }

section

variable (memory : Memory) (zeros : Nat) (address : UInt32)

@[simp] theorem readByte_padded :
    (memory.padded zeros).readByte address = memory.readByte address := by
  simp only [readByte, padded, Array.getD_eq_getD_getElem?]
  by_cases inside : address.toNat < memory.bytes.size
  · rw [Array.getElem?_append_left inside]
  · -- Above the memory it makes no difference whether a zero is stored or nothing.
    have above := Nat.not_lt.mp inside
    rw [Array.getElem?_append_right above, Array.getElem?_replicate,
      Array.getElem?_eq_none above]
    split <;> rfl

@[simp] theorem read_padded (width : Width) :
    (memory.padded zeros).read address width = memory.read address width := by
  have bytes (count : Nat) :
      (memory.padded zeros).readBytes address count = memory.readBytes address count := by
    induction count generalizing address with
    | zero => rfl
    | succ count ih => simp only [readBytes, readByte_padded, ih]
  simp only [read, bytes]

/-- The code at an address does not tell whether there are zeros behind the memory. -/
@[simp] theorem codeAt_padded : (memory.padded zeros).codeAt address = memory.codeAt address := by
  simp only [codeAt, readByte_padded]

end

theorem writeByte_padded {memory : Memory} {address : UInt32} (mapped : memory.Maps address)
    (zeros : Nat) (value : UInt8) :
    (memory.padded zeros).writeByte address value =
      (memory.writeByte address value).padded zeros := by
  simp only [writeByte, padded, Array.setIfInBounds_append_left mapped]

end Memory

/-! ## Writes that are not dropped -/

/-- Some events among which there is no dropped write. -/
def Event.DropsNothing (events : Array Event) : Prop :=
  ∀ address value, .droppedWrite address value ∉ events

theorem Event.dropsNothing_append {first second : Array Event} :
    DropsNothing (first ++ second) ↔ DropsNothing first ∧ DropsNothing second := by
  simp only [DropsNothing, Array.mem_append, not_or, forall_and]

namespace Access

/-- Some accesses whose writes all go to addresses below a bound. -/
def WritesBelow (size : Nat) (accesses : List Access) : Prop :=
  ∀ address value, .write address value ∈ accesses → address.toNat < size

theorem writesBelow_append {size : Nat} {first second : List Access} :
    WritesBelow size (first ++ second) ↔ WritesBelow size first ∧ WritesBelow size second := by
  simp only [WritesBelow, List.mem_append, or_imp, forall_and]

/-- The writes that are not dropped are those that stay below the end of the memory. -/
theorem dropsNothing_events_iff {size : Nat} {accesses : List Access} :
    Event.DropsNothing (events size accesses) ↔ WritesBelow size accesses := by
  have dropped (address : UInt32) (value : UInt8) :
      .droppedWrite address value ∈ events size accesses ↔
        .write address value ∈ accesses ∧ ¬address.toNat < size := by
    simp only [events, List.mem_toArray, List.mem_filterMap]
    constructor
    · rintro ⟨access, member, noted⟩
      cases access with
      | read other =>
          simp only [event?] at noted
          split at noted <;> cases noted
      | write other stored =>
          simp only [event?] at noted
          split at noted
          · cases noted
          · cases noted
            exact ⟨member, ‹_›⟩
    · rintro ⟨member, above⟩
      exact ⟨_, member, if_neg above⟩
  simp only [Event.DropsNothing, WritesBelow, dropped, not_and, Decidable.not_not]

end Access

namespace Memory

theorem writeBytes_padded {memory : Memory} {address : UInt32} {values : List UInt8}
    (below : Access.WritesBelow memory.size (Access.writes address values)) (zeros : Nat) :
    (memory.padded zeros).writeBytes address values =
      (memory.writeBytes address values).padded zeros := by
  induction values generalizing memory address with
  | nil => rfl
  | cons value values ih =>
      have mapped : memory.Maps address := below address value List.mem_cons_self
      have others : Access.WritesBelow (memory.writeByte address value).size
          (Access.writes (address + 1) values) := by
        intro other written later
        rw [size_writeByte]
        exact below other written (List.mem_cons_of_mem _ later)
      rw [writeBytes, writeByte_padded mapped, ih others]
      rfl

end Memory

/-! ## Instructions -/

/-- The effect with zeros behind its memory. -/
def Effect.padded (effect : Effect) (zeros : Nat) : Effect :=
  { effect with memory := effect.memory.padded zeros }

theorem Effect.padded_after (effect : Effect) (accesses : List Access) (zeros : Nat) :
    (effect.after accesses).padded zeros = (effect.padded zeros).after accesses := rfl

section

variable {cpu : Cpu} {memory : Memory} (zeros : Nat)

@[simp] theorem Operand.value_padded (operand : Operand) (registers : Registers) :
    operand.value registers (memory.padded zeros) = operand.value registers memory := by
  cases operand with
  | mk location width =>
      cases location with
      | register code => rfl
      | memory address => exact memory.read_padded ..

@[simp] theorem Source.value_padded (source : Source) (widen : Width → UInt32 → UInt32)
    (registers : Registers) :
    source.value widen registers (memory.padded zeros) = source.value widen registers memory := by
  cases source with
  | operand place => exact place.value_padded ..
  | immediate width value => rfl

theorem Operand.store_padded {operand : Operand} {value : UInt32}
    (below : Access.WritesBelow memory.size (operand.store value cpu memory).accesses) :
    operand.store value cpu (memory.padded zeros) =
      (operand.store value cpu memory).padded zeros := by
  cases operand with
  | mk location width =>
      cases location with
      | register code => rfl
      | memory address =>
          have stored : (memory.padded zeros).write address width value =
              (memory.write address width value).padded zeros :=
            Memory.writeBytes_padded below zeros
          simp only [Operand.store, Effect.padded, stored]

theorem Instruction.combineEffect_padded {op : BinaryOp} {destination : Operand}
    {left right : UInt32}
    (below : Access.WritesBelow memory.size
      (combineEffect op destination left right cpu memory).accesses) :
    combineEffect op destination left right cpu (memory.padded zeros) =
      (combineEffect op destination left right cpu memory).padded zeros := by
  cases stored : op.writesBack with
  | true =>
      simp only [combineEffect, stored, if_true] at below ⊢
      exact Operand.store_padded zeros below
  | false =>
      simp only [combineEffect, stored, Bool.false_eq_true, if_false]
      rfl

/-- Zeros behind the memory change nothing in what an instruction does when it writes nothing
above the memory. -/
theorem Instruction.effect_padded {instruction : Instruction}
    (below : Access.WritesBelow memory.size (instruction.effect cpu memory).accesses) :
    instruction.effect cpu (memory.padded zeros) =
      (instruction.effect cpu memory).padded zeros := by
  cases instruction with
  | storeAccumulator => exact Operand.store_padded zeros below
  | jump => rfl
  | move | loadAccumulator | unary =>
      have stored := (Access.writesBelow_append.mp below).2
      simp only [effect, Source.value_padded, Operand.value_padded, Memory.read_padded,
        Operand.store_padded zeros stored, Effect.padded_after]
  | binary | reversed =>
      have stored := (Access.writesBelow_append.mp below).2
      simp only [effect, Source.value_padded, Operand.value_padded,
        combineEffect_padded zeros stored, Effect.padded_after]

end

/-! ## Machines -/

namespace Machine

/-- The machine with zeros behind its memory. -/
def padded (machine : Machine) (zeros : Nat) : Machine :=
  { machine with memory := machine.memory.padded zeros }

variable {machine : Machine}

theorem reading_padded (machine : Machine) (zeros : Nat) :
    (machine.padded zeros).reading = machine.reading := by
  simp only [reading, code, padded, Memory.codeAt_padded]

/-- An instruction writes nothing above the memory when the step that carries it out drops no
write. -/
theorem CarriesOut.writesBelow {form : Form OperandSize} {instruction : Instruction}
    (carried : machine.CarriesOut form instruction)
    (kept : Event.DropsNothing machine.step.events) :
    Access.WritesBelow machine.memory.size
      (instruction.effect machine.behind machine.memory).accesses := by
  rcases carried.events with ⟨refused, forms, _, _, events⟩
  rw [events] at kept
  have accessed : Event.DropsNothing (Access.events machine.memory.size
      (Access.reads machine.behindOpcode.eip (machine.code.layout.length machine.code.operands) ++
        (instruction.effect machine.behind machine.memory).accesses)) := by
    intro address value dropped
    exact kept address value (Array.mem_push_of_mem _ (Array.mem_append_right _ dropped))
  exact (Access.writesBelow_append.mp (Access.dropsNothing_events_iff.mp accessed)).2

/-- A step that drops no write answers the same and does the same over a larger memory. -/
theorem outcome_step_padded (zeros : Nat) (kept : Event.DropsNothing machine.step.events) :
    (machine.padded zeros).step.outcome =
      (machine.step.result, machine.step.machine.padded zeros) := by
  cases halted : machine.halted with
  | true =>
      have paddedHalted : (machine.padded zeros).halted = true := halted
      rw [Transition.outcome, result_step_of_halted halted, machine_step_of_halted halted,
        result_step_of_halted paddedHalted, machine_step_of_halted paddedHalted]
  | false =>
      have paddedRunning : (machine.padded zeros).halted = false := halted
      rw [outcome_step paddedRunning, reading_padded, result_step halted, machine_step halted]
      cases found : machine.reading with
      | halt | unknownOpcode | unknownExtension => rfl
      | decoded instruction length =>
          have executed : machine.step.result = .ok (.executed instruction.mnemonic) := by
            rw [result_step halted, found]
            rfl
          rcases exists_carriesOut executed with ⟨form, other, carried, _⟩
          cases found.symm.trans carried.reading
          have same : instruction.effect machine.behind (machine.memory.padded zeros) =
              (instruction.effect machine.behind machine.memory).padded zeros :=
            Instruction.effect_padded zeros (carried.writesBelow kept)
          simp only [behind] at same
          simp only [follow, padded, same]
          rfl

/-- Steps that drop no write lead to the same machine over a larger memory. -/
theorem after_padded (zeros : Nat) {count : Nat}
    (kept : Event.DropsNothing (machine.reported count)) :
    (machine.padded zeros).after count = (machine.after count).padded zeros := by
  induction count with
  | zero => rfl
  | succ count ih =>
      rcases Event.dropsNothing_append.mp kept with ⟨earlier, last⟩
      rw [after, ih earlier]
      exact congrArg Prod.snd (outcome_step_padded zeros last)

theorem dropsNothing_step {count index : Nat} (small : index < count)
    (kept : Event.DropsNothing (machine.reported count)) :
    Event.DropsNothing (machine.reported index) ∧
      Event.DropsNothing (machine.after index).step.events := by
  induction small with
  | refl => exact Event.dropsNothing_append.mp kept
  | step _ ih => exact ih (Event.dropsNothing_append.mp kept).1

/-- Each of some steps that drop no write answers the same and does the same over a larger
memory. -/
theorem outcome_after_padded (zeros : Nat) {count index : Nat} (small : index < count)
    (kept : Event.DropsNothing (machine.reported count)) :
    ((machine.padded zeros).after index).step.outcome =
      ((machine.after index).step.result, (machine.after (index + 1)).padded zeros) := by
  rcases dropsNothing_step small kept with ⟨earlier, last⟩
  rw [after_padded zeros earlier]
  exact outcome_step_padded zeros last

theorem executes_after_padded_iff (zeros : Nat) {count index : Nat} (small : index < count)
    (kept : Event.DropsNothing (machine.reported count)) :
    ((machine.padded zeros).after index).Executes ↔ (machine.after index).Executes := by
  have answer : ((machine.padded zeros).after index).step.result =
      (machine.after index).step.result :=
    congrArg Prod.fst (outcome_after_padded zeros small kept)
  simp only [Executes, answer]

/-- A run that drops no write ends in the same way and at the same machine over a larger
memory. -/
theorem outcome_run_padded (zeros : Nat) (threshold : Threshold)
    (kept : Event.DropsNothing (machine.run (some .trace)).events) :
    ((machine.padded zeros).run threshold).outcome =
      ((machine.run threshold).result, (machine.run threshold).machine.padded zeros) := by
  cases halted : machine.halted with
  | true =>
      have paddedHalted : (machine.padded zeros).halted = true := halted
      rw [run_of_halted halted, run_of_halted paddedHalted]
      rfl
  | false =>
      have running : (machine.padded zeros).halted = false := halted
      have left : (machine.padded zeros).maxSteps.toNat - (machine.padded zeros).steps =
          machine.maxSteps.toNat - machine.steps := rfl
      rcases machine.exists_stop_or_executesFor (machine.maxSteps.toNat - machine.steps) with
        ⟨count, within, executes, stop⟩ | all
      · rw [run_of_stop halted within executes stop, select_trace] at kept
        have paddedExecutes : (machine.padded zeros).ExecutesFor count := by
          intro index small
          exact (executes_after_padded_iff zeros (Nat.lt_succ_of_lt small) kept).mpr
            (executes index small)
        have paddedStop : ¬((machine.padded zeros).after count).Executes := by
          rwa [executes_after_padded_iff zeros (Nat.lt_succ_self count) kept]
        have last := outcome_after_padded zeros (Nat.lt_succ_self count) kept
        rcases Prod.mk.inj last with ⟨answer, final⟩
        rw [run_of_stop halted within executes stop,
          run_of_stop running within paddedExecutes paddedStop, Transition.outcome, answer]
        exact congrArg _ final
      · rw [run_of_executesFor halted all, select_trace] at kept
        have paddedAll : (machine.padded zeros).ExecutesFor
            (machine.maxSteps.toNat - machine.steps) := by
          intro index small
          exact (executes_after_padded_iff zeros small kept).mpr (all index small)
        rw [run_of_executesFor halted all, run_of_executesFor running paddedAll,
          Transition.outcome, left, after_padded zeros kept]
        rfl

/-- The size of the memory does not show as long as no write is dropped. Over the same memory
with zeros behind it, each of any number of steps answers the same and leads to the same machine
with these zeros behind its memory, and a run ends in the same way and at the same machine. The
code and what it reads may lie above the smaller memory. -/
theorem steps_and_run_padded (machine : Machine) (zeros : Nat) :
    let larger := machine.padded zeros
    (∀ count, Event.DropsNothing (machine.reported count) → ∀ index < count,
        (larger.after index).step.outcome =
          ((machine.after index).step.result, (machine.after (index + 1)).padded zeros)) ∧
      (Event.DropsNothing (machine.run (some .trace)).events → ∀ threshold,
        (larger.run threshold).outcome =
          ((machine.run threshold).result, (machine.run threshold).machine.padded zeros)) := by
  intro larger
  constructor
  · intro count kept index small
    exact outcome_after_padded zeros small kept
  · intro kept threshold
    exact outcome_run_padded zeros threshold kept

/-- A load of a byte above the memory, whose encoding ends there, too, and an addition to the
first byte of the memory that is executed there. -/
theorem steps_and_run_padded_above :
    let machine := withMemory { maxSteps := 2 } { bytes := #[0xA0, 0x10] }
    Event.DropsNothing (machine.reported 2) ∧
      ((machine.padded 16).after 1).step.outcome =
        ((machine.after 1).step.result, (machine.after 2).padded 16) ∧
      ((machine.padded 16).run none).outcome =
        ((machine.run none).result, (machine.run none).machine.padded 16) := by
  intro machine
  let load : Instruction := .loadAccumulator .byte 0x10
  let addition : Instruction :=
    .binary (.arithmetic .add) (.memory 0 .byte) (.operand (.register 0 .byte))
  have reported : machine.reported 2 =
      #[.unmappedRead 2, .unmappedRead 3, .unmappedRead 4, .unmappedRead 0x10,
        .executed load 0, .unmappedRead 5, .unmappedRead 6, .executed addition 0xA0] := by
    decide +kernel
  have events : (machine.run (some .trace)).events = machine.reported 2 := by
    decide +kernel
  have kept : Event.DropsNothing (machine.reported 2) := by
    simp [reported, Event.DropsNothing]
  have padded := steps_and_run_padded machine 16
  exact ⟨kept, padded.1 2 kept 1 (by decide), padded.2 (events ▸ kept) none⟩

end Machine

end Ia32
