import Ia32.Proofs.Answer
import Ia32.Proofs.Layout

/-!
# Steps that execute

What a step has done when it answers that an instruction was executed: a form of the opcode
has read the instruction from the bytes that the length of the encoding counts, and the
machine afterwards is the effect of that instruction. Execution goes on behind those bytes or,
after a jump, at its distance from there.
-/

namespace Ia32

namespace BinaryOp

theorem mnemonic_ne_jmp (op : BinaryOp) : op.mnemonic ≠ .jmp := by
  cases op with
  | arithmetic op => cases op <;> decide
  | bitwise op => cases op <;> decide

end BinaryOp

theorem UnaryOp.mnemonic_ne_jmp (op : UnaryOp) : op.mnemonic ≠ .jmp := by
  cases op <;> decide

/-! ## Distances -/

@[simp] theorem Effect.cpu_after (effect : Effect) (accesses : List Access) :
    (effect.after accesses).cpu = effect.cpu := rfl

@[simp] theorem Effect.memory_after (effect : Effect) (accesses : List Access) :
    (effect.after accesses).memory = effect.memory := rfl

@[simp] theorem Operand.eip_store (operand : Operand) (value : UInt32) (cpu : Cpu)
    (memory : Memory) : (operand.store value cpu memory).cpu.eip = cpu.eip := by
  unfold store
  split <;> rfl

theorem toNat_ofInt (value : Int) :
    ((UInt32.ofInt value).toNat : Int) = value % 0x100000000 := by
  simp only [UInt32.ofInt, UInt32.toNat_ofNat']
  omega

/-- Words are equal when they are equal as integers. -/
theorem eq_of_toNat_cast {left right : UInt32} (same : (left.toNat : Int) = right.toNat) :
    left = right :=
  UInt32.toNat.inj (Int.ofNat.inj same)

theorem ofInt_natCast (value : Nat) : UInt32.ofInt value = UInt32.ofNat value := by
  apply eq_of_toNat_cast
  rw [toNat_ofInt, UInt32.toNat_ofNat']
  omega

theorem ofInt_toNat (value : UInt32) : UInt32.ofInt value.toNat = value := by
  rw [ofInt_natCast, UInt32.ofNat_toNat]

namespace Instruction

/-- The signed distance at which an instruction goes on from the address behind it. -/
def distance : Instruction → Int
  | .jump width displacement => width.toSigned displacement.toNat
  | _ => 0

theorem distance_toRegister (op : BinaryOp) (register place : Operand) :
    (toRegister op register place).distance = 0 := by
  cases op <;> rfl

theorem eip_combineEffect (op : BinaryOp) (destination : Operand) (left right : UInt32)
    (cpu : Cpu) (memory : Memory) :
    (combineEffect op destination left right cpu memory).cpu.eip = cpu.eip := by
  unfold combineEffect
  dsimp only
  split
  · exact Operand.eip_store ..
  · rfl

theorem eip_effect (instruction : Instruction) (cpu : Cpu) (memory : Memory) :
    (instruction.effect cpu memory).cpu.eip =
      UInt32.ofInt (cpu.eip.toNat + instruction.distance) := by
  cases instruction with
  | jump width displacement => rfl
  | move | loadAccumulator | storeAccumulator | unary =>
      simp only [effect, Effect.cpu_after, Operand.eip_store, distance, Int.add_zero, ofInt_toNat]
  | binary | reversed =>
      simp only [effect, Effect.cpu_after, eip_combineEffect, distance, Int.add_zero, ofInt_toNat]

end Instruction

/-- Only a jump has a distance, and reads it from the bytes behind the opcode. -/
theorem Form.distance_of_decode {form : Form Width} {opcode : UInt8} {registers : Registers}
    {code : Code} {instruction : Instruction} {length : Nat}
    (decoded : form.decode opcode registers code = .instruction instruction length) :
    instruction.distance =
      if instruction.mnemonic = .jmp then
        form.operand.toSigned (code.number 0 form.operand).toNat
      else 0 := by
  cases form with
  | jump width =>
      cases decoded
      rfl
  | moveRegisterImmediate | movePlaceRegister | moveRegisterPlace | loadAccumulator
  | storeAccumulator =>
      cases decoded
      rfl
  | binaryAccumulatorImmediate op | binaryPlaceRegister op =>
      cases decoded
      exact (if_neg op.mnemonic_ne_jmp).symm
  | binaryRegisterPlace op =>
      cases decoded
      rw [Instruction.distance_toRegister, Instruction.mnemonic_toRegister,
        if_neg op.mnemonic_ne_jmp]
  | movePlaceImmediate width =>
      rcases of_decodeGroup decoded with ⟨rfl, rfl⟩
      rfl
  | binaryPlaceImmediate op | unary op =>
      rcases of_decodeGroup decoded with ⟨rfl, rfl⟩
      exact (if_neg op.mnemonic_ne_jmp).symm

namespace Machine

/-! ## What was carried out -/

/-- A step carries out an instruction that a form of the opcode reads from the code. -/
structure CarriesOut (machine : Machine) (form : Form OperandSize)
    (instruction : Instruction) : Prop where
  running : machine.halted = false
  member : form ∈ OpcodeMap.forms machine.code.opening.opcode
  accepted : form.Accepts machine.code.operands.extension
  decoded : (form.resolve machine.code.opening.full).decode machine.code.opening.opcode
    machine.cpu.registers machine.code.operands =
      .instruction instruction (machine.code.layout.length machine.code.operands)
  reading : machine.reading = .decoded instruction machine.code.encodedLength

/-- The processor with its pointer behind the instruction. -/
def behind (machine : Machine) : Cpu :=
  { machine.cpu with eip := machine.cpu.eip + UInt32.ofNat machine.code.encodedLength }

theorem halted_of_executed {machine : Machine} {mnemonic : Mnemonic}
    (executed : machine.step.result = .ok (.executed mnemonic)) : machine.halted = false := by
  apply running_of_result_ne
  intro halts
  cases executed.symm.trans halts

/-- A step that answers that an instruction was executed has carried one out. -/
theorem exists_carriesOut {machine : Machine} {mnemonic : Mnemonic}
    (executed : machine.step.result = .ok (.executed mnemonic)) :
    ∃ form instruction,
      machine.CarriesOut form instruction ∧ instruction.mnemonic = mnemonic := by
  have running := halted_of_executed executed
  have followed : (machine.follow machine.reading).1 = .ok (.executed mnemonic) :=
    (result_step running).symm.trans executed
  have reads := Reading.reads_ofCode machine.cpu.registers machine.code
  generalize found : Reading.ofCode machine.cpu.registers machine.code = reading at reads
  have reading_eq : machine.reading = reading := found
  rw [reading_eq] at followed
  cases reads with
  | halt | unknownOpcode | unknownExtension => cases followed
  | @decoded form instruction length _ selected decoded _ =>
      cases followed
      rcases OpcodeMap.selected?_eq_some_iff.mp selected with ⟨member, accepted⟩
      have counted : length = machine.code.layout.length machine.code.operands := by
        rw [Form.length_of_decode decoded, OpcodeMap.layout_of_mem_forms member accepted]
        rfl
      subst counted
      exact ⟨form, instruction, ⟨running, member, accepted, decoded, reading_eq⟩, rfl⟩

namespace CarriesOut

variable {machine : Machine} {form : Form OperandSize} {instruction : Instruction}

/-- The outcome of a step that carries out an instruction is the effect of the instruction. -/
theorem outcome (carried : machine.CarriesOut form instruction) :
    let effect := instruction.effect machine.behind machine.memory
    machine.step.outcome =
      (.ok (.executed instruction.mnemonic),
        { machine with
          cpu := effect.cpu, memory := effect.memory, steps := machine.steps + 1 }) := by
  rw [outcome_step carried.running, carried.reading]
  rfl

theorem step_machine (carried : machine.CarriesOut form instruction) :
    let effect := instruction.effect machine.behind machine.memory
    machine.step.machine =
      { machine with
        cpu := effect.cpu, memory := effect.memory, steps := machine.steps + 1 } :=
  congrArg Prod.snd carried.outcome

/-- The form works on operands of the width that the code tells. -/
theorem operand_resolve (carried : machine.CarriesOut form instruction) :
    (form.resolve machine.code.opening.full).operand = machine.code.operandWidth := by
  rw [Form.resolve, Form.operand_map, OpcodeMap.operand_of_mem_forms carried.member]
  rfl

theorem distance (carried : machine.CarriesOut form instruction) :
    instruction.distance = if instruction.mnemonic = .jmp then machine.code.distance else 0 := by
  rw [Form.distance_of_decode carried.decoded, carried.operand_resolve]
  rfl

end CarriesOut

/-- Execution goes on behind the bytes of the instruction or, after a jump, at its distance
from there, also when the instruction overwrites these bytes. Their number is from two to
eleven, and they alone tell it. -/
theorem eip_step_executed (machine : Machine) (mnemonic : Mnemonic)
    (executed : machine.step.result = .ok (.executed mnemonic)) :
    let start := machine.cpu.eip.toNat
    let length := machine.code.encodedLength
    let next := machine.step.machine.cpu.eip.toNat
    (mnemonic ≠ .jmp → next = (start + length) % 0x100000000) ∧
      (mnemonic = .jmp →
        (next : Int) = (start + length + machine.code.distance) % 0x100000000) ∧
      (2 ≤ length ∧ length ≤ 11) ∧
      ∀ other : Machine,
        (∀ position < length, other.code.byte position = machine.code.byte position) →
          other.code.encodedLength = length := by
  intro start length next
  rcases exists_carriesOut executed with ⟨form, instruction, carried, rfl⟩
  have behind : machine.behind.eip.toNat = (start + length) % 0x100000000 := by
    simp only [Machine.behind, UInt32.toNat_add, UInt32.toNat_ofNat']
    omega
  have moved : (next : Int) =
      (machine.behind.eip.toNat + instruction.distance) % 0x100000000 := by
    rw [← toNat_ofInt, ← instruction.eip_effect machine.behind machine.memory]
    simp only [next, carried.step_machine]
  rw [carried.distance, behind] at moved
  refine ⟨?straight, ?jump, machine.code.encodedLength_bounds, ?told⟩
  case straight =>
    intro other
    rw [if_neg other] at moved
    omega
  case jump =>
    intro jump
    rw [if_pos jump] at moved
    omega
  case told =>
    intro other agree
    exact Code.encodedLength_congr agree

/-- A move of a doubleword over the first bytes of its own encoding. -/
theorem eip_step_executed_overwriting :
    let machine := withMemory {} { bytes := #[0xC7, 0x05, 0, 0, 0, 0, 0xF4, 0xF4, 0xF4, 0xF4] }
    machine.step.result = .ok (.executed .mov) ∧ machine.step.machine.cpu.eip.toNat = 10 := by
  intro machine
  have executed : machine.step.result = .ok (.executed .mov) :=
    (step_result_iff rfl _).mpr ((Answers.executed_iff _).mpr (by decide))
  have length : machine.code.encodedLength = 10 := by decide
  have moved := (eip_step_executed machine .mov executed).1 (by decide)
  rw [length] at moved
  exact ⟨executed, moved⟩

end Machine

end Ia32
