import Ia32.Proofs.Alu
import Ia32.Proofs.Encodings

/-!
# Directions of register instructions

An addressing byte that names two registers can be read in both directions: one form stores to
the place and takes the register as the other operand, and another one does it the other way round.
With the registers exchanged both store to the same register. The bitwise operations have this
register as their left operand in both, so that the two directions come to the same. The additive
ones have the place there, which is the other register when the result goes to the register: an
addition still comes to the same, and the two directions of a subtraction give opposite
differences.
-/

namespace Ia32

/-! ## Forms on two registers -/

/-- Combining two values for a register changes nothing but the register and the flags. -/
theorem Instruction.combineEffect_register (op : BinaryOp) (code : RegisterCode) (width : Width)
    (left right : UInt32) (cpu : Cpu) (memory : Memory) :
    combineEffect op (.register code width) left right cpu memory =
      let registers := cpu.registers
      let result := op.evaluate width left right cpu.flags
      { word := result.value
        cpu :=
          { registers :=
              if op.writesBack then registers.write code width result.value else registers
            eip := cpu.eip
            flags := result.flags }
        memory
        accesses := [] } := by
  unfold combineEffect
  cases op.writesBack <;> rfl

namespace Core

/-- What an operation on two values comes to that takes up one byte behind the opcode and has a
register for its destination. -/
def combined (core : Core) (op : BinaryOp) (width : Width) (destination : RegisterCode)
    (left right : UInt32) : Ending :=
  let registers := core.cpu.registers
  let result := op.evaluate width left right core.cpu.flags
  { answer := .ok (.executed op.mnemonic)
    cpu :=
      { registers :=
          if op.writesBack then registers.write destination width result.value else registers
        eip := core.cpu.eip + 1
        flags := result.flags }
    memory := core.memory }

/-- What a move of a value to a register comes to that takes up one byte behind the opcode. -/
def moved (core : Core) (width : Width) (destination : RegisterCode) (value : UInt32) : Ending :=
  { answer := .ok (.executed .mov)
    cpu :=
      { core.cpu with
        registers := core.cpu.registers.write destination width value
        eip := core.cpu.eip + 1 }
    memory := core.memory }

end Core

namespace Form

/-- Combining two registers stores to the first of them, which is the left operand. -/
theorem ending_of_registers {form : Form Width} {opcode : UInt8} {core : Core} {op : BinaryOp}
    {destination source : RegisterCode} {width : Width} (fits : form.ImmediateFits)
    (decoded : form.decode opcode core.cpu.registers core.code =
      .instruction
        (.binary op (.register destination width) (.operand (.register source width))) 1) :
    form.ending opcode core =
      core.combined op width destination (core.cpu.registers.read destination width)
        (core.cpu.registers.read source width) := by
  rw [ending_of_decode fits decoded]
  simp only [Instruction.effect, Effect.cpu_after, Effect.memory_after,
    Instruction.combineEffect_register]
  rfl

section

variable {core : Core} {middle bottom : RegisterCode}
  (named : core.code.byte 0 = registerByte middle bottom) (width : Width) (opcode : UInt8)

include named

/-- An operation that stores to the place takes the place as its left operand. -/
theorem ending_binaryPlaceRegister (op : BinaryOp) :
    (binaryPlaceRegister op width).ending opcode core =
      core.combined op width bottom (core.cpu.registers.read bottom width)
        (core.cpu.registers.read middle width) := by
  have fits : (binaryPlaceRegister op width).ImmediateFits := trivial
  apply ending_of_registers fits
  simp only [decode, Code.ofCode_of_registerByte named]

/-- A bitwise operation that stores to the register takes the register as its left operand. -/
theorem ending_bitwiseRegisterPlace (op : BitwiseOp) :
    (binaryRegisterPlace (.bitwise op) width).ending opcode core =
      core.combined (.bitwise op) width middle (core.cpu.registers.read middle width)
        (core.cpu.registers.read bottom width) := by
  have fits : (binaryRegisterPlace (.bitwise op) width).ImmediateFits := trivial
  apply ending_of_registers fits
  simp only [decode, Code.ofCode_of_registerByte named, Instruction.toRegister]

/-- An additive operation that stores to the register takes the place as its left operand,
too. -/
theorem ending_arithmeticRegisterPlace (op : ArithmeticOp) :
    (binaryRegisterPlace (.arithmetic op) width).ending opcode core =
      core.combined (.arithmetic op) width middle (core.cpu.registers.read bottom width)
        (core.cpu.registers.read middle width) := by
  have decoded : (binaryRegisterPlace (.arithmetic op) width).decode opcode core.cpu.registers
      core.code =
        .instruction (.reversed op (.register middle width) (.register bottom width)) 1 := by
    simp only [decode, Code.ofCode_of_registerByte named, Instruction.toRegister]
  have fits : (binaryRegisterPlace (.arithmetic op) width).ImmediateFits := trivial
  rw [ending_of_decode fits decoded]
  simp only [Instruction.effect, Effect.cpu_after, Effect.memory_after,
    Instruction.combineEffect_register]
  rfl

/-- A move to the place stores the register there. -/
theorem ending_movePlaceRegister :
    (movePlaceRegister width).ending opcode core =
      core.moved width bottom (core.cpu.registers.read middle width) := by
  have decoded : (movePlaceRegister width).decode opcode core.cpu.registers core.code =
      .instruction (.move (.register bottom width) (.operand (.register middle width))) 1 := by
    simp only [decode, Code.ofCode_of_registerByte named]
  have fits : (movePlaceRegister width).ImmediateFits := trivial
  rw [ending_of_decode fits decoded]
  rfl

/-- A move to the register stores the place there. -/
theorem ending_moveRegisterPlace :
    (moveRegisterPlace width).ending opcode core =
      core.moved width middle (core.cpu.registers.read bottom width) := by
  have decoded : (moveRegisterPlace width).decode opcode core.cpu.registers core.code =
      .instruction (.move (.register middle width) (.operand (.register bottom width))) 1 := by
    simp only [decode, Code.ofCode_of_registerByte named]
  have fits : (moveRegisterPlace width).ImmediateFits := trivial
  rw [ending_of_decode fits decoded]
  rfl

end

/-! ## The two directions -/

/-- Two forms carry out an instruction of the same mnemonic and leave the same processor. Each
keeps its memory. -/
def Agree (first second : Form Width) (opcode other : UInt8) (left right : Core) : Prop :=
  ∃ cpu,
    first.ending opcode left =
        { answer := .ok (.executed first.mnemonic), cpu, memory := left.memory } ∧
      second.ending other right =
        { answer := .ok (.executed first.mnemonic), cpu, memory := right.memory }

end Form

/-- Two endings of the subtraction of two values from each other, which goes to the same part of
a register. The zero flags are the same and so are the carry flags. The overflow flags are both set
when the values are equal, and otherwise one of them is. Outside the part the registers are the
same. -/
structure Opposite (equal : Prop) (destination : RegisterCode) (width : Width)
    (left right : Ending) : Prop where
  answer : left.answer = right.answer
  zero : left.cpu.flags.zero = right.cpu.flags.zero
  carry : left.cpu.flags.carry = right.cpu.flags.carry
  overflow : (left.cpu.flags.overflow = true ∧ right.cpu.flags.overflow = true) ↔ equal
  overflowOnce : ¬equal → left.cpu.flags.overflow = !right.cpu.flags.overflow
  outside : left.cpu.registers.SameOutside destination width right.cpu.registers

namespace Core

variable {left right : Core} (same : right.cpu = left.cpu) (width : Width)
  (destination : RegisterCode) (first second : UInt32)

/-- Whether or not the result is stored, the registers stay outside the destination. -/
theorem combined_sameOutside (core : Core) (op : BinaryOp) :
    (core.combined op width destination first second).cpu.registers.SameOutside destination width
      core.cpu.registers := by
  unfold combined
  cases op.writesBack with
  | true => exact core.cpu.registers.write_sameOutside destination width _
  | false => exact fun _ _ _ => rfl

/-- What a subtraction stores is its result. -/
theorem toNat_read_combined (core : Core) :
    let result := ArithmeticOp.sub.evaluate width first second core.cpu.flags
    ((core.combined (.arithmetic .sub) width destination first second).cpu.registers.read
      destination width).toNat = width.mask result.value.toNat :=
  core.cpu.registers.toNat_read_write destination width _

include same

/-- The two directions of a subtraction or a comparison. -/
theorem opposite_combined {op : ArithmeticOp} (subtracts : op.subtracts = true)
    (firstSmall : first.toNat < width.modulus) (secondSmall : second.toNat < width.modulus) :
    Opposite (first = second) destination width
      (left.combined (.arithmetic op) width destination first second)
      (right.combined (.arithmetic op) width destination second first) := by
  have zero (first second : UInt32) (flags : Flags) :=
    ArithmeticOp.zero_of_subtracts width first second flags subtracts
  have overflow (first second : UInt32) (flags : Flags) :=
    ArithmeticOp.overflow_of_subtracts width first second flags subtracts
  simp only [Width.mask] at zero overflow
  refine ⟨rfl, ?zero, congrArg (·.flags.carry) same.symm, ?overflow, ?overflowOnce, ?outside⟩
  case zero =>
    simp only [combined, BinaryOp.evaluate, zero]
    exact decide_eq_decide.mpr eq_comm
  case overflow =>
    simp only [combined, BinaryOp.evaluate, overflow, decide_eq_true_eq,
      Nat.mod_eq_of_lt firstSmall, Nat.mod_eq_of_lt secondSmall]
    constructor
    · rintro ⟨least, most⟩
      exact UInt32.toNat.inj (Nat.le_antisymm most least)
    · rintro rfl
      exact ⟨Nat.le_refl _, Nat.le_refl _⟩
  case overflowOnce =>
    intro different
    have apart : first.toNat ≠ second.toNat := mt UInt32.toNat.inj different
    simp only [combined, BinaryOp.evaluate, overflow, Nat.mod_eq_of_lt firstSmall,
      Nat.mod_eq_of_lt secondSmall]
    rw [← decide_not]
    apply decide_eq_decide.mpr
    omega
  case outside =>
    intro code position unseen
    rw [combined_sameOutside width destination first second left _ code position unseen,
      combined_sameOutside width destination second first right _ code position unseen, same]

end Core

namespace Form

section

variable {left right : Core} {place register : RegisterCode} (same : right.cpu = left.cpu)
  (leftNamed : left.code.byte 0 = registerByte register place)
  (rightNamed : right.code.byte 0 = registerByte place register)
  (width : Width) (opcode other : UInt8)

include same leftNamed rightNamed

/-- The two directions of an addition, which has its operands in opposite orders. -/
theorem agree_add :
    (binaryPlaceRegister (.arithmetic .add) width).Agree
      (binaryRegisterPlace (.arithmetic .add) width) opcode other left right := by
  refine ⟨_, ending_binaryPlaceRegister leftNamed width opcode _, ?_⟩
  rw [ending_arithmeticRegisterPlace rightNamed, Core.combined, same, BinaryOp.evaluate,
    ArithmeticOp.evaluate_add_comm]
  rfl

/-- The two directions of a bitwise operation, which has its operands in the same order. -/
theorem agree_bitwise (op : BitwiseOp) :
    (binaryPlaceRegister (.bitwise op) width).Agree (binaryRegisterPlace (.bitwise op) width)
      opcode other left right := by
  refine ⟨_, ending_binaryPlaceRegister leftNamed width opcode _, ?_⟩
  rw [ending_bitwiseRegisterPlace rightNamed, Core.combined, same]
  rfl

/-- The two directions of a move. -/
theorem agree_move :
    (movePlaceRegister width).Agree (moveRegisterPlace width) opcode other left right := by
  refine ⟨_, ending_movePlaceRegister leftNamed width opcode, ?_⟩
  rw [ending_moveRegisterPlace rightNamed, Core.moved, same]
  rfl

end

/-- The two directions of the instructions on two registers, each with its own code. A move, an
addition and the bitwise operations come to the same in both directions and keep the memory. The
differences that the two directions of a subtraction store cancel each other, and a subtraction and
a comparison leave opposite overflow flags, unless the values are equal, and the same zero and
carry flags. -/
theorem directions_compare (width : Width) (opcode other : UInt8) (place register : RegisterCode)
    (left right : Core) (same : right.cpu = left.cpu)
    (leftNamed : left.code.byte 0 = registerByte register place)
    (rightNamed : right.code.byte 0 = registerByte place register) :
    let registers := left.cpu.registers
    let equal := registers.read place width = registers.read register width
    (movePlaceRegister width).Agree (moveRegisterPlace width) opcode other left right ∧
      (binaryPlaceRegister (.arithmetic .add) width).Agree
        (binaryRegisterPlace (.arithmetic .add) width) opcode other left right ∧
      (∀ op : BitwiseOp,
        (binaryPlaceRegister (.bitwise op) width).Agree (binaryRegisterPlace (.bitwise op) width)
          opcode other left right) ∧
      ∀ op : ArithmeticOp, op.subtracts = true →
        let first := (binaryPlaceRegister (.arithmetic op) width).ending opcode left
        let second := (binaryRegisterPlace (.arithmetic op) width).ending other right
        first.answer = .ok (.executed op.mnemonic) ∧
          Opposite equal place width first second ∧
          (op = .sub →
            ((first.cpu.registers.read place width).toNat +
              (second.cpu.registers.read place width).toNat) % width.modulus = 0) := by
  intro registers equal
  refine ⟨agree_move same leftNamed rightNamed width opcode other,
    agree_add same leftNamed rightNamed width opcode other,
    agree_bitwise same leftNamed rightNamed width opcode other, ?subtraction⟩
  case subtraction =>
    intro op subtracts first second
    have firstEnding : first = _ := ending_binaryPlaceRegister leftNamed width opcode _
    have secondEnding : second = _ := ending_arithmeticRegisterPlace rightNamed width other _
    rw [firstEnding, secondEnding, same]
    refine ⟨rfl, ?opposite, ?cancel⟩
    case opposite =>
      exact Core.opposite_combined same width place _ _ subtracts (registers.read_lt place width)
        (registers.read_lt register width)
    case cancel =>
      rintro rfl
      rw [Core.toNat_read_combined, Core.toNat_read_combined]
      have sum := ArithmeticOp.value_add_value_of_subtracts width (registers.read place width)
        (registers.read register width) left.cpu.flags subtracts right.cpu.flags
      simp only [Width.mask] at sum ⊢
      rw [← Nat.add_mod]
      exact sum

/-- A sum and a difference of the two low bytes of one register, which hold five and three. -/
theorem directions_compare_halves :
    let registers := Registers.zero.setWord .accumulator 0x0305
    let left := Core.start { Cpu.reset with registers } { bytes := #[0xE0] }
    let right := Core.start { Cpu.reset with registers } { bytes := #[0xC4, 0xF4] }
    let first := (binaryPlaceRegister (.arithmetic .sub) .byte).ending 0x28 left
    let second := (binaryRegisterPlace (.arithmetic .sub) .byte).ending 0x2A right
    left.code.byte 0 = registerByte 4 0 ∧ right.code.byte 0 = registerByte 0 4 ∧
      (binaryPlaceRegister (.arithmetic .add) .byte).Agree
        (binaryRegisterPlace (.arithmetic .add) .byte) 0x00 0x02 left right ∧
      first.cpu.flags.overflow = !second.cpu.flags.overflow ∧
      ((first.cpu.registers.read 0 .byte).toNat + (second.cpu.registers.read 0 .byte).toNat) %
        0x100 = 0 := by
  intro registers left right first second
  have leftNamed : left.code.byte 0 = registerByte 4 0 := by decide
  have rightNamed : right.code.byte 0 = registerByte 0 4 := by decide
  have different : registers.read 0 .byte ≠ registers.read 4 .byte := by decide
  have addition := (directions_compare .byte 0x00 0x02 0 4 left right rfl leftNamed rightNamed).2.1
  have subtraction := (directions_compare .byte 0x28 0x2A 0 4 left right rfl leftNamed
    rightNamed).2.2.2 .sub rfl
  exact ⟨leftNamed, rightNamed, addition, subtraction.2.1.overflowOnce different,
    subtraction.2.2 rfl⟩

end Form

end Ia32
