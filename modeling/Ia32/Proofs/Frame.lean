import Ia32.Proofs.Execution
import Ia32.Proofs.Storage

/-!
# What an instruction leaves alone

An instruction stores its word in at most one place, a part of a register or a block of
memory, and everything else in the registers and the memory stays. The mnemonic tells whether
there is such a place and what becomes of the flags.
-/

namespace Ia32

/-! ## Places that are written -/

namespace Operand

/-- The registers and the memory with a value stored in an operand. -/
def put (operand : Operand) (value : UInt32) (registers : Registers) (memory : Memory) :
    Registers × Memory :=
  match operand.location with
  | .register code => (registers.write code operand.width value, memory)
  | .memory address => (registers, memory.write address operand.width value)

theorem put_eq_store (operand : Operand) (value : UInt32) (cpu : Cpu) (memory : Memory) :
    ((operand.store value cpu memory).cpu.registers, (operand.store value cpu memory).memory) =
      operand.put value cpu.registers memory := by
  cases operand with
  | mk location width => cases location <;> rfl

@[simp] theorem flags_store (operand : Operand) (value : UInt32) (cpu : Cpu)
    (memory : Memory) : (operand.store value cpu memory).cpu.flags = cpu.flags := by
  unfold store
  split <;> rfl

@[simp] theorem size_put (operand : Operand) (value : UInt32) (registers : Registers)
    (memory : Memory) : (operand.put value registers memory).2.size = memory.size := by
  unfold put
  split
  · rfl
  · exact memory.size_write ..

/-- Storing a value changes the part of a register or the block of memory where it is
stored. -/
theorem put_frame (operand : Operand) (value : UInt32) (registers : Registers)
    (memory : Memory) :
    let after := operand.put value registers memory
    (after.2 = memory ∧ ∃ code, after.1.SameOutside code operand.width registers) ∨
      (after.1 = registers ∧ ∃ start, after.2.SameOutside start operand.width.bytes memory) := by
  cases operand with
  | mk location width =>
      cases location with
      | register code => exact .inl ⟨rfl, code, registers.write_sameOutside code width value⟩
      | memory address => exact .inr ⟨rfl, address, memory.write_sameOutside address width value⟩

end Operand

namespace Instruction

/-- The place where an instruction stores its word. -/
def target? : Instruction → Option Operand
  | .move destination _ => some destination
  | .loadAccumulator width _ => some (.accumulator width)
  | .storeAccumulator width address => some (.memory address width)
  | .binary op destination _ => if op.writesBack then some destination else none
  | .reversed op destination _ =>
      if (BinaryOp.arithmetic op).writesBack then some destination else none
  | .unary _ operand => some operand
  | .jump .. => none

theorem target?_toRegister (op : BinaryOp) (register place : Operand) :
    (toRegister op register place).target? = if op.writesBack then some register else none := by
  cases op <;> rfl

/-- The registers and the memory after a word has been stored where an instruction stores
it. -/
def putWord (instruction : Instruction) (word : UInt32) (registers : Registers)
    (memory : Memory) : Registers × Memory :=
  match instruction.target? with
  | some place => place.put word registers memory
  | none => (registers, memory)

theorem putWord_combineEffect (op : BinaryOp) (destination : Operand) (left right : UInt32)
    (cpu : Cpu) (memory : Memory) :
    let effect := combineEffect op destination left right cpu memory
    (effect.cpu.registers, effect.memory) =
      if op.writesBack then destination.put effect.word cpu.registers memory
      else (cpu.registers, memory) := by
  cases stored : op.writesBack with
  | true =>
      simp only [combineEffect, stored, if_true, Operand.word_store]
      exact Operand.put_eq_store ..
  | false => simp only [combineEffect, stored, Bool.false_eq_true, if_false]

/-- In the registers and the memory an instruction stores its word and does nothing else. -/
theorem putWord_effect (instruction : Instruction) (cpu : Cpu) (memory : Memory) :
    let effect := instruction.effect cpu memory
    (effect.cpu.registers, effect.memory) =
      instruction.putWord effect.word cpu.registers memory := by
  cases instruction with
  | move | loadAccumulator | storeAccumulator =>
      simp only [effect, Effect.cpu_after, Effect.memory_after, Effect.word_after,
        Operand.put_eq_store, Operand.word_store, putWord, target?]
  | unary op operand =>
      simp only [effect, Effect.cpu_after, Effect.memory_after, Effect.word_after,
        Operand.put_eq_store, Operand.word_store, putWord, target?]
  | binary op destination =>
      simp only [effect, Effect.cpu_after, Effect.memory_after, Effect.word_after,
        putWord_combineEffect, putWord, target?]
      cases op.writesBack <;> rfl
  | reversed op destination =>
      simp only [effect, Effect.cpu_after, Effect.memory_after, Effect.word_after,
        putWord_combineEffect, putWord, target?]
      cases (BinaryOp.arithmetic op).writesBack <;> rfl
  | jump => rfl

theorem registers_effect (instruction : Instruction) (cpu : Cpu) (memory : Memory) :
    (instruction.effect cpu memory).cpu.registers =
      (instruction.putWord (instruction.effect cpu memory).word cpu.registers memory).1 :=
  congrArg Prod.fst (instruction.putWord_effect cpu memory)

theorem memory_effect (instruction : Instruction) (cpu : Cpu) (memory : Memory) :
    (instruction.effect cpu memory).memory =
      (instruction.putWord (instruction.effect cpu memory).word cpu.registers memory).2 :=
  congrArg Prod.snd (instruction.putWord_effect cpu memory)

@[simp] theorem size_effect (instruction : Instruction) (cpu : Cpu) (memory : Memory) :
    (instruction.effect cpu memory).memory.size = memory.size := by
  rw [memory_effect, putWord]
  split
  · exact Operand.size_put ..
  · rfl

/-- Only comparisons, tests and jumps store nothing. -/
theorem target?_eq_none_iff (instruction : Instruction) :
    instruction.target? = none ↔ instruction.mnemonic ∈ [.cmp, .test, .jmp] := by
  cases instruction with
  | move | loadAccumulator | storeAccumulator | jump => simp [target?, mnemonic]
  | unary op => cases op <;> simp [target?, mnemonic, UnaryOp.mnemonic]
  | binary op =>
      cases op with
      | arithmetic op =>
          cases op <;> simp [target?, mnemonic, BinaryOp.mnemonic, BinaryOp.writesBack,
            ArithmeticOp.mnemonic, ArithmeticOp.writesBack]
      | bitwise op =>
          cases op <;> simp [target?, mnemonic, BinaryOp.mnemonic, BinaryOp.writesBack,
            BitwiseOp.mnemonic, BitwiseOp.writesBack]
  | reversed op =>
      cases op <;> simp [target?, mnemonic, BinaryOp.writesBack, ArithmeticOp.mnemonic,
        ArithmeticOp.writesBack]

end Instruction

@[simp] theorem AddressedOperands.width_place_ofCode (registers : Registers) (code : Code)
    (width : Width) : (ofCode registers code width).place.width = width := by
  unfold ofCode
  dsimp only
  split <;> rfl

/-- What an instruction stores has the width of the operands of its form. -/
theorem Form.width_target_of_decode {form : Form Width} {opcode : UInt8}
    {registers : Registers} {code : Code} {instruction : Instruction} {length : Nat}
    (decoded : form.decode opcode registers code = .instruction instruction length)
    {place : Operand} (target : instruction.target? = some place) :
    place.width = form.operand := by
  cases form with
  | moveRegisterImmediate | moveRegisterPlace | loadAccumulator | storeAccumulator =>
      cases decoded
      cases target
      rfl
  | movePlaceRegister width =>
      cases decoded
      cases target
      exact AddressedOperands.width_place_ofCode ..
  | binaryAccumulatorImmediate =>
      cases decoded
      simp only [Instruction.target?, Option.ite_none_right_eq_some] at target
      cases target.2
      rfl
  | binaryRegisterPlace =>
      cases decoded
      simp only [Instruction.target?_toRegister, Option.ite_none_right_eq_some] at target
      cases target.2
      rfl
  | binaryPlaceRegister =>
      cases decoded
      simp only [Instruction.target?, Option.ite_none_right_eq_some] at target
      cases target.2
      exact AddressedOperands.width_place_ofCode ..
  | binaryPlaceImmediate =>
      rcases of_decodeGroup decoded with ⟨rfl, rfl⟩
      simp only [Instruction.target?, Option.ite_none_right_eq_some] at target
      cases target.2
      exact AddressedOperands.width_place_ofCode ..
  | movePlaceImmediate | unary =>
      rcases of_decodeGroup decoded with ⟨rfl, rfl⟩
      cases target
      exact AddressedOperands.width_place_ofCode ..
  | jump =>
      cases decoded
      cases target

/-! ## Flags -/

/-- What a mnemonic makes of the flags: moves, complements and jumps keep them all, the
additive operations keep the carry flag, the bitwise ones clear the carry and overflow flags,
and negation sets nothing but the carry flag. -/
def Mnemonic.FlagRule (mnemonic : Mnemonic) (before after : Flags) : Prop :=
  match mnemonic with
  | .mov | .not | .jmp => after = before
  | .add | .sub | .cmp => after.carry = before.carry
  | .and | .or | .xor | .test => after.carry = false ∧ after.overflow = false
  | .neg =>
      after.zero = before.zero ∧ after.sign = before.sign ∧ after.overflow = before.overflow

theorem BinaryOp.flagRule_evaluate (op : BinaryOp) (width : Width) (left right : UInt32)
    (flags : Flags) :
    op.mnemonic.FlagRule flags (op.evaluate width left right flags).flags := by
  cases op with
  | arithmetic op => cases op <;> rfl
  | bitwise op => cases op <;> exact ⟨rfl, rfl⟩

theorem UnaryOp.flagRule_evaluate (op : UnaryOp) (width : Width) (operand : UInt32)
    (flags : Flags) :
    op.mnemonic.FlagRule flags (op.evaluate width operand flags).flags := by
  cases op with
  | not => rfl
  | neg => exact ⟨rfl, rfl, rfl⟩

namespace Instruction

theorem word_combineEffect (op : BinaryOp) (destination : Operand) (left right : UInt32)
    (cpu : Cpu) (memory : Memory) :
    (combineEffect op destination left right cpu memory).word =
      (op.evaluate destination.width left right cpu.flags).value := by
  unfold combineEffect
  dsimp only
  split
  · exact Operand.word_store ..
  · rfl

theorem flags_combineEffect (op : BinaryOp) (destination : Operand) (left right : UInt32)
    (cpu : Cpu) (memory : Memory) :
    (combineEffect op destination left right cpu memory).cpu.flags =
      (op.evaluate destination.width left right cpu.flags).flags := by
  unfold combineEffect
  dsimp only
  split
  · exact Operand.flags_store ..
  · rfl

/-- The flags after an instruction obey the rule of its mnemonic. -/
theorem flagRule_effect (instruction : Instruction) (cpu : Cpu) (memory : Memory) :
    instruction.mnemonic.FlagRule cpu.flags (instruction.effect cpu memory).cpu.flags := by
  cases instruction with
  | move | loadAccumulator | storeAccumulator => exact Operand.flags_store ..
  | binary op =>
      simp only [effect, Effect.cpu_after, flags_combineEffect]
      exact op.flagRule_evaluate ..
  | reversed op =>
      simp only [effect, Effect.cpu_after, flags_combineEffect]
      exact (BinaryOp.arithmetic op).flagRule_evaluate ..
  | unary op =>
      simp only [effect, Effect.cpu_after, Operand.flags_store]
      exact op.flagRule_evaluate ..
  | jump => rfl

end Instruction

/-! ## Steps -/

namespace Machine

/-- The registers and the memory after a step hold the word of the instruction where the
instruction stores it, and are otherwise as before. -/
theorem CarriesOut.putWord {machine : Machine} {form : Form OperandSize}
    {instruction : Instruction} (carried : machine.CarriesOut form instruction) :
    (machine.step.machine.cpu.registers, machine.step.machine.memory) =
      instruction.putWord (instruction.effect machine.behind machine.memory).word
        machine.cpu.registers machine.memory := by
  rw [carried.step_machine]
  exact instruction.putWord_effect machine.behind machine.memory

/-- What an executed instruction leaves alone. The flags obey the rule of the mnemonic.
Comparisons, tests and jumps keep the registers and the memory. Every other instruction keeps
the memory and all bits of the registers outside one part that an operand sees, or keeps the
registers and all bytes of the memory outside one block, where the part or the block is as wide
as the operands of the opcode. The size of the memory stays, one more step is counted, and the
machine goes on. -/
theorem step_executed_frame (machine : Machine) (mnemonic : Mnemonic)
    (executed : machine.step.result = .ok (.executed mnemonic)) :
    let width := machine.code.operandWidth
    let after := machine.step.machine
    mnemonic.FlagRule machine.cpu.flags after.cpu.flags ∧
      (mnemonic ∈ [.cmp, .test, .jmp] →
        after.cpu.registers = machine.cpu.registers ∧ after.memory = machine.memory) ∧
      (mnemonic ∉ [.cmp, .test, .jmp] →
        (after.memory = machine.memory ∧
          ∃ code, after.cpu.registers.SameOutside code width machine.cpu.registers) ∨
        (after.cpu.registers = machine.cpu.registers ∧
          ∃ start, after.memory.SameOutside start width.bytes machine.memory)) ∧
      after.memory.size = machine.memory.size ∧
      after.steps = machine.steps + 1 ∧
      after.halted = false := by
  intro width after
  rcases exists_carriesOut executed with ⟨form, instruction, carried, rfl⟩
  have step : after = _ := carried.step_machine
  have stored : (after.cpu.registers, after.memory) = _ := carried.putWord
  have flags : instruction.mnemonic.FlagRule machine.cpu.flags after.cpu.flags := by
    rw [step]
    exact instruction.flagRule_effect machine.behind machine.memory
  have counted : after.steps = machine.steps + 1 ∧ after.halted = false := by
    rw [step]
    exact ⟨rfl, carried.running⟩
  -- The mnemonic tells whether the word is stored at all.
  rw [← instruction.target?_eq_none_iff]
  unfold Instruction.putWord at stored
  cases target : instruction.target? with
  | none =>
      rw [target] at stored
      rcases Prod.mk.inj stored with ⟨registers, memory⟩
      refine ⟨flags, fun _ => ⟨registers, memory⟩, fun some => absurd rfl some, ?_, counted⟩
      rw [memory]
  | some place =>
      rw [target] at stored
      have wide : place.width = width := by
        rw [Form.width_target_of_decode carried.decoded target, carried.operand_resolve]
      have size : after.memory.size = machine.memory.size := by
        rw [show after.memory = _ from congrArg Prod.snd stored]
        exact place.size_put ..
      have frame := place.put_frame (instruction.effect machine.behind machine.memory).word
        machine.cpu.registers machine.memory
      dsimp only at stored
      rw [← stored, wide] at frame
      exact ⟨flags, nofun, fun _ => frame, size, counted⟩

/-- A negation of `ah`, which the test and the complement of the same opcode decline. -/
theorem step_executed_frame_negation :
    let machine := withMemory {} { bytes := #[0xF6, 0xDC] }
    machine.step.result = .ok (.executed .neg) ∧
      Mnemonic.neg.FlagRule machine.cpu.flags machine.step.machine.cpu.flags ∧
      machine.step.machine.steps = 1 := by
  intro machine
  have executed : machine.step.result = .ok (.executed .neg) :=
    (step_result_iff rfl _).mpr ((Answers.executed_iff _).mpr (by decide))
  have frame := step_executed_frame machine .neg executed
  exact ⟨executed, frame.1, frame.2.2.2.2.1⟩

end Machine

end Ia32
