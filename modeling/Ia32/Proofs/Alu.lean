import Ia32.Execution

/-!
# Laws of the arithmetic unit

Sums and differences are those of the numbers below the modulus of the width, and the flags tell
about them what a reader of the numbers would say: whether the result is zero, its top bit, and
whether a sum left the width or a subtrahend was not larger than the minuend. A result at one
width is the result at a wider one without its high part, and what lies above the width in an
operand plays no part.
-/

namespace Ia32

/-! ## Calculations -/

/-- Calculate from the flags as they are, and set the flags of the result. -/
def Exec.calculate (evaluate : Flags → AluResult) : Exec UInt32 := do
  let result := evaluate (← flags)
  setFlags result.flags
  return result.value

namespace Instruction

/-- Combining two values is a calculation, after which the result is stored unless the operation
only compares. -/
theorem combine_eq_calculate (op : BinaryOp) (destination : Operand) (left right : UInt32) :
    combine op destination left right = do
      let value ← Exec.calculate (op.evaluate destination.width left right)
      if op.writesBack then
        destination.write value
      return value := rfl

/-- An operation on one operand is a calculation from its value, and the result is stored in its
place. -/
theorem perform_unary_eq_calculate (op : UnaryOp) (operand : Operand) :
    (unary op operand).perform = do
      let value ← operand.read
      let result ← Exec.calculate (op.evaluate operand.width value)
      operand.write result
      return result := rfl

end Instruction

namespace Width

/-- A number of a width fits in a word. -/
theorem toNat_ofNat_mask (width : Width) (value : Nat) :
    (UInt32.ofNat (width.mask value)).toNat = width.mask value :=
  UInt32.toNat_ofNat_of_lt' (Nat.lt_of_lt_of_le (width.mask_lt value) width.modulus_le)

theorem modulus_dvd {width wide : Width} (narrower : width.bytes ≤ wide.bytes) :
    width.modulus ∣ wide.modulus := by
  revert narrower
  cases width <;> cases wide <;> decide

end Width

/-! ## Sums and differences -/

namespace ArithmeticOp

section

variable (width : Width) (left right : UInt32) (flags : Flags)

/-- The result is the sum or the difference, reduced to the width. -/
theorem value_emod (op : ArithmeticOp) :
    ((op.evaluate width left right flags).value.toNat : Int) =
      (if op = .add then (left.toNat : Int) + right.toNat else (left.toNat : Int) - right.toNat) %
        width.modulus := by
  simp only [evaluate, width.toNat_ofNat_mask]
  cases op <;> cases width <;>
    simp only [subtracts, Width.mask, Width.modulus, Bool.false_eq_true, if_false, if_true,
      reduceCtorEq] <;> omega

/-- The sign flag is the top bit of the result. -/
theorem sign_evaluate (op : ArithmeticOp) :
    let result := op.evaluate width left right flags
    result.flags.sign = result.value.toNat.testBit (width.bits - 1) := by
  intro result
  have reduced (value : Nat) : width.mask (width.mask value) = width.mask value :=
    Width.mask_of_lt (width.mask_lt value)
  change _ = width.signBit result.value.toNat
  simp only [result, evaluate, width.toNat_ofNat_mask, Width.signBit_eq_decide, reduced]

theorem zero_evaluate (op : ArithmeticOp) :
    let result := op.evaluate width left right flags
    result.flags.zero = true ↔ result.value.toNat = 0 := by
  simp only [evaluate, width.toNat_ofNat_mask, decide_eq_true_eq]

/-- A sum overflows when it leaves the width, and a difference when the second value is not
larger. -/
theorem overflow_evaluate (op : ArithmeticOp) :
    (op.evaluate width left right flags).flags.overflow = true ↔
      if op = .add then width.modulus ≤ width.mask left.toNat + width.mask right.toNat
      else width.mask right.toNat ≤ width.mask left.toNat := by
  have second := width.mask_lt right.toNat
  have positive := width.modulus_pos
  simp only [evaluate, Width.maxValue]
  cases op <;>
    simp only [subtracts, Bool.false_eq_true, if_false, if_true, reduceCtorEq,
      decide_eq_true_eq] <;> omega

theorem evaluate_add_comm :
    add.evaluate width left right flags = add.evaluate width right left flags := by
  have sum := Nat.add_comm (width.mask left.toNat) (width.mask right.toNat)
  simp only [evaluate, subtracts, Bool.false_eq_true, if_false, sum]

variable {op : ArithmeticOp} (subtracts : op.subtracts = true)

include subtracts

/-- A difference is zero when the values are equal. -/
theorem zero_of_subtracts :
    (op.evaluate width left right flags).flags.zero =
      decide (width.mask left.toNat = width.mask right.toNat) := by
  have first := width.mask_lt left.toNat
  have second := width.mask_lt right.toNat
  simp only [evaluate, subtracts, if_true]
  generalize width.mask left.toNat = minuend at first
  generalize width.mask right.toNat = subtrahend at second
  apply decide_eq_decide.mpr
  cases width <;> simp only [Width.mask, Width.modulus] at first second ⊢ <;> omega

/-- A difference overflows when the second value is not larger. -/
theorem overflow_of_subtracts :
    (op.evaluate width left right flags).flags.overflow =
      decide (width.mask right.toNat ≤ width.mask left.toNat) := by
  have second := width.mask_lt right.toNat
  have positive := width.modulus_pos
  simp only [evaluate, subtracts, if_true, Width.maxValue]
  apply decide_eq_decide.mpr
  omega

/-- The differences in the two directions cancel each other. -/
theorem value_add_value_of_subtracts (other : Flags) :
    width.mask ((op.evaluate width left right flags).value.toNat +
      (op.evaluate width right left other).value.toNat) = 0 := by
  have first := width.mask_lt left.toNat
  have second := width.mask_lt right.toNat
  simp only [evaluate, subtracts, if_true, UInt32.toNat_ofNat']
  generalize width.mask left.toNat = minuend at first
  generalize width.mask right.toNat = subtrahend at second
  cases width <;> simp only [Width.mask, Width.modulus] at first second ⊢ <;> omega

end

/-- What the calculation of an additive operation answers for two numbers of a width, and what it
leaves of the state before it. -/
structure Calculates (op : ArithmeticOp) (width : Width) (first second : Nat) (before : Core)
    (outcome : UInt32 × Core) : Prop where
  value : (outcome.1.toNat : Int) =
    (if op = .add then (first : Int) + second else (first : Int) - second) % width.modulus
  sign : outcome.2.cpu.flags.sign = outcome.1.toNat.testBit (width.bits - 1)
  zero : outcome.2.cpu.flags.zero = true ↔ outcome.1.toNat = 0
  overflow : outcome.2.cpu.flags.overflow = true ↔
    if op = .add then width.modulus ≤ first + second else second ≤ first
  carry : outcome.2.cpu.flags.carry = before.cpu.flags.carry
  registers : outcome.2.cpu.registers = before.cpu.registers
  eip : outcome.2.cpu.eip = before.cpu.eip
  memory : outcome.2.memory = before.memory

theorem calculates (op : ArithmeticOp) (width : Width) (left right : UInt32) (core : Core) :
    op.Calculates width (left.toNat % width.modulus) (right.toNat % width.modulus) core
      ((Exec.calculate (op.evaluate width left right)).run core) := by
  refine ⟨?value, ?sign, ?zero, ?overflow, rfl, rfl, rfl, rfl⟩
  case value =>
    have value := value_emod width left right core.cpu.flags op
    cases op with
    | add =>
        simp only [if_true] at value ⊢
        rw [Int.natCast_emod, Int.natCast_emod, ← Int.add_emod]
        exact value
    | sub | cmp =>
        simp only [reduceCtorEq, if_false] at value ⊢
        rw [Int.natCast_emod, Int.natCast_emod, ← Int.sub_emod]
        exact value
  case sign => exact sign_evaluate width left right core.cpu.flags op
  case zero => exact zero_evaluate width left right core.cpu.flags op
  case overflow => exact overflow_evaluate width left right core.cpu.flags op

/-- Subtracting what was added gives the first number back. -/
theorem value_sub_add (width : Width) (left right : UInt32) (flags other : Flags) :
    (sub.evaluate width (add.evaluate width left right flags).value right other).value.toNat =
      left.toNat % width.modulus := by
  have sum := value_emod width left right flags .add
  have difference :=
    value_emod width (add.evaluate width left right flags).value right other .sub
  simp only [if_true] at sum
  simp only [reduceCtorEq, if_false, sum, Int.emod_sub_emod, Int.add_sub_cancel] at difference
  exact Int.ofNat.inj difference

/-- For any two words, of which the parts above the width play no part, an addition gives the sum
and a subtraction or a comparison the difference, in the arithmetic of the width. The sign flag is
the top bit of the result and the zero flag tells whether it is zero; the overflow flag tells of a
sum whether it left the width, and of a difference whether the second number was not larger. The
rest of the state stays. So the flags of a comparison tell the order of the two numbers, and
subtracting what was added gives the first number back. -/
theorem calculations_exact (width : Width) (left right : UInt32) (core : Core) :
    let first := left.toNat % width.modulus
    let second := right.toNat % width.modulus
    let outcome (op : ArithmeticOp) := (Exec.calculate (op.evaluate width left right)).run core
    let compared := (outcome .cmp).2.cpu.flags
    (∀ op : ArithmeticOp, op.Calculates width first second core (outcome op)) ∧
      (first = second ↔ compared.zero = true) ∧
      (first < second ↔ compared.overflow = false) ∧
      ∀ other : Core,
        ((Exec.calculate (sub.evaluate width (outcome .add).1 right)).run other).1.toNat =
          first := by
  intro first second outcome compared
  have zero : compared.zero = _ := zero_of_subtracts width left right core.cpu.flags rfl
  have overflow : compared.overflow = _ :=
    overflow_of_subtracts width left right core.cpu.flags rfl
  refine ⟨fun op => op.calculates width left right core, ?equal, ?less, ?undone⟩
  case equal => rw [zero, decide_eq_true_iff]; rfl
  case less => rw [overflow, decide_eq_false_iff_not, Nat.not_le]; rfl
  case undone =>
    intro other
    exact value_sub_add width left right core.cpu.flags other.cpu.flags

end ArithmeticOp

/-! ## Bits -/

namespace BitwiseOp

variable (op : BitwiseOp) (width : Width) (left right : UInt32)

theorem toNat_value : (op.evaluate width left right).value.toNat =
    width.mask (op.apply left right).toNat := by
  simp only [evaluate, width.toNat_ofNat_mask]

theorem evaluate_comm : op.evaluate width left right = op.evaluate width right left := by
  have applied : op.apply left right = op.apply right left := by
    cases op with
    | and | test => exact UInt32.and_comm left right
    | or => exact UInt32.or_comm left right
    | xor => exact UInt32.xor_comm left right
  simp only [evaluate, applied]

/-- The low bits of the operands tell the low bits of the result. -/
theorem mask_apply_congr {left right left' right' : UInt32}
    (first : width.mask left.toNat = width.mask left'.toNat)
    (second : width.mask right.toNat = width.mask right'.toNat) :
    width.mask (op.apply left right).toNat = width.mask (op.apply left' right').toNat := by
  have power : width.modulus = 2 ^ width.bits := by
    cases width <;> rfl
  simp only [Width.mask, power] at first second ⊢
  cases op <;>
    simp only [apply, UInt32.toNat_and, UInt32.toNat_or, UInt32.toNat_xor, Nat.and_mod_two_pow,
      Nat.or_mod_two_pow, Nat.xor_mod_two_pow, first, second]

end BitwiseOp

/-! ## The order of the operands -/

namespace BinaryOp

/-- Whether an operation takes the second value away from the first. -/
def subtracts : BinaryOp → Bool
  | arithmetic op => op.subtracts
  | bitwise _ => false

variable (op : BinaryOp) (width : Width) (left right : UInt32) (flags : Flags)

/-- Sums and bitwise results are the same in either order, and so is the difference of two equal
values. -/
theorem evaluate_swap (equal : op.subtracts = true →
    width.mask left.toNat = width.mask right.toNat) :
    op.evaluate width left right flags = op.evaluate width right left flags := by
  cases op with
  | bitwise op => exact op.evaluate_comm width left right
  | arithmetic op =>
      cases op with
      | add => exact ArithmeticOp.evaluate_add_comm width left right flags
      | sub | cmp => simp only [evaluate, ArithmeticOp.evaluate, equal rfl]

/-- If the flags of a difference are the same in either order, then the values are equal. -/
theorem mask_eq_of_flags_swap (subtracts : op.subtracts = true)
    (same : (op.evaluate width left right flags).flags =
      (op.evaluate width right left flags).flags) :
    width.mask left.toNat = width.mask right.toNat := by
  cases op with
  | bitwise op => cases subtracts
  | arithmetic op =>
      have overflow : (op.evaluate width left right flags).flags.overflow =
          (op.evaluate width right left flags).flags.overflow := congrArg Flags.overflow same
      rw [ArithmeticOp.overflow_of_subtracts width left right flags subtracts,
        ArithmeticOp.overflow_of_subtracts width right left flags subtracts] at overflow
      have order := decide_eq_decide.mp overflow
      omega

end BinaryOp

/-! ## Complements and negations -/

namespace UnaryOp

variable (width : Width) (operand : UInt32) (flags : Flags)

/-- A complement is one less than the negation. -/
theorem value_emod (op : UnaryOp) :
    ((op.evaluate width operand flags).value.toNat : Int) =
      (if op = .not then -(operand.toNat : Int) - 1 else -(operand.toNat : Int)) %
        width.modulus := by
  cases op <;> cases width <;>
    simp only [evaluate, Width.maxValue, Width.mask, Width.modulus, reduceCtorEq, if_false,
      if_true, UInt32.toNat_ofNat'] <;> omega

end UnaryOp

/-! ## Widths -/

/-- A calculation from two words at any width. At a narrower width its result is the one at a wider
width without its high part. The low parts of the words tell the result and the flags, and the
result does not exceed the largest number of the width. -/
structure Truncates (evaluate : Width → UInt32 → UInt32 → Flags → AluResult) : Prop where
  narrow : ∀ width wide : Width, width.bytes ≤ wide.bytes → ∀ left right flags,
    (evaluate width left right flags).value.toNat =
      (evaluate wide left right flags).value.toNat % width.modulus
  low : ∀ (width : Width) (left right left' right' : UInt32),
    left.toNat % width.modulus = left'.toNat % width.modulus →
    right.toNat % width.modulus = right'.toNat % width.modulus →
    ∀ flags, evaluate width left right flags = evaluate width left' right' flags
  bounded : ∀ (width : Width) (left right : UInt32) (flags : Flags),
    (evaluate width left right flags).value.toNat ≤ width.maxValue

theorem Width.le_maxValue_of_emod {width : Width} {value : Nat} {number : Int}
    (reduced : (value : Int) = number % width.modulus) : value ≤ width.maxValue := by
  have positive := width.modulus_pos
  have small := Int.emod_lt_of_pos number (Int.ofNat_lt.mpr positive)
  rw [← reduced] at small
  unfold maxValue
  omega

/-- A number that is reduced to a wide width can be reduced further. -/
theorem Width.eq_mod_of_emod {width wide : Width} (narrower : width.bytes ≤ wide.bytes)
    {value wideValue : Nat} {number : Int} (reduced : (value : Int) = number % width.modulus)
    (wideReduced : (wideValue : Int) = number % wide.modulus) :
    value = wideValue % width.modulus := by
  apply Int.ofNat.inj
  have divides : (width.modulus : Int) ∣ wide.modulus :=
    Int.natCast_dvd_natCast.mpr (modulus_dvd narrower)
  exact (reduced.trans (by rw [wideReduced, Int.emod_emod_of_dvd number divides])).trans
    (Int.natCast_emod ..).symm

theorem ArithmeticOp.truncates (op : ArithmeticOp) : Truncates op.evaluate where
  narrow width wide narrower left right flags :=
    Width.eq_mod_of_emod narrower (value_emod width left right flags op)
      (value_emod wide left right flags op)
  low width left right left' right' first second flags := by
    change width.mask left.toNat = width.mask left'.toNat at first
    change width.mask right.toNat = width.mask right'.toNat at second
    rw [evaluate, evaluate, first, second]
  bounded width left right flags := Width.le_maxValue_of_emod (value_emod width left right flags op)

theorem BitwiseOp.truncates (op : BitwiseOp) :
    Truncates fun width left right _ => op.evaluate width left right where
  narrow width wide narrower left right flags := by
    rw [toNat_value, toNat_value, Width.mask, Width.mask,
      Nat.mod_mod_of_dvd _ (Width.modulus_dvd narrower)]
  low width left right left' right' first second flags := by
    have same := op.mask_apply_congr width first second
    simp only [evaluate, Width.signBit_eq_decide, same]
  bounded width left right flags := by
    rw [toNat_value]
    exact Nat.le_sub_one_of_lt (width.mask_lt _)

theorem UnaryOp.truncates (op : UnaryOp) :
    Truncates fun width operand _ flags => op.evaluate width operand flags where
  narrow width wide narrower operand _ flags :=
    Width.eq_mod_of_emod narrower (value_emod width operand flags op)
      (value_emod wide operand flags op)
  low width operand _ operand' _ same _ flags := by
    change width.mask operand.toNat = width.mask operand'.toNat at same
    unfold evaluate
    rw [same]
  bounded width operand _ flags := Width.le_maxValue_of_emod (value_emod width operand flags op)

namespace UnaryOp

variable (width : Width) (operand : UInt32) (flags other : Flags)

/-- A negation is the difference from zero. -/
theorem value_neg_eq_sub :
    (neg.evaluate width operand flags).value =
      (ArithmeticOp.sub.evaluate width 0 operand other).value := by
  have negation := value_emod width operand flags neg
  have difference := ArithmeticOp.value_emod width 0 operand other .sub
  have zero : ((0 : UInt32).toNat : Int) = 0 := rfl
  simp only [reduceCtorEq, if_false, zero, Int.zero_sub] at negation difference
  exact UInt32.toNat.inj (Int.ofNat.inj (negation.trans difference.symm))

/-- A negation is the complement, increased by one. -/
theorem value_neg_eq_add_not :
    (neg.evaluate width operand flags).value =
      (ArithmeticOp.add.evaluate width (not.evaluate width operand flags).value 1 other).value := by
  have negation := value_emod width operand flags neg
  have complement := value_emod width operand flags not
  have sum := ArithmeticOp.value_emod width (not.evaluate width operand flags).value 1 other .add
  have one : ((1 : UInt32).toNat : Int) = 1 := rfl
  simp only [reduceCtorEq, if_false, if_true, complement, one, Int.emod_add_emod,
    Int.sub_add_cancel] at negation sum
  exact UInt32.toNat.inj (Int.ofNat.inj (negation.trans sum.symm))

end UnaryOp

/-- At every width the additive and the bitwise operations and those on one operand calculate with
the low parts of the words and give a number of the width, which is the result at any wider width
cut off. A negation is the difference from zero, and the complement increased by one. -/
theorem calculations_truncate :
    (∀ op : ArithmeticOp, Truncates op.evaluate) ∧
      (∀ op : BitwiseOp, Truncates fun width left right _ => op.evaluate width left right) ∧
      (∀ op : UnaryOp, Truncates fun width operand _ flags => op.evaluate width operand flags) ∧
      ∀ (width : Width) (operand : UInt32) (flags other : Flags),
        let negation := (UnaryOp.neg.evaluate width operand flags).value
        let complement := (UnaryOp.not.evaluate width operand flags).value
        negation = (ArithmeticOp.sub.evaluate width 0 operand other).value ∧
          negation = (ArithmeticOp.add.evaluate width complement 1 other).value :=
  ⟨ArithmeticOp.truncates, BitwiseOp.truncates, UnaryOp.truncates,
    fun width operand flags other =>
      ⟨UnaryOp.value_neg_eq_sub width operand flags other,
        UnaryOp.value_neg_eq_add_not width operand flags other⟩⟩

/-- Two words with bits above a byte, at the widths of a byte and of a word. -/
theorem calculations_truncate_high_bits :
    let sum (width : Width) := (ArithmeticOp.add.evaluate width 0x1FF 0x301 .clear).value.toNat
    Width.byte.bytes ≤ Width.word.bytes ∧
      sum .word = 0x500 ∧ sum .byte = sum .word % 0x100 ∧ sum .byte ≤ 0xFF ∧
      0x1FF % 0x100 = 0xFF ∧ 0x301 % 0x100 = 1 ∧
      BitwiseOp.xor.evaluate .byte 0x1FF 0x301 = BitwiseOp.xor.evaluate .byte 0xFF 1 := by
  intro sum
  rcases calculations_truncate with ⟨additive, bitwise, -, -⟩
  have narrow := (additive .add).narrow .byte .word (by decide) 0x1FF 0x301 .clear
  have bounded := (additive .add).bounded .byte 0x1FF 0x301 .clear
  have low := (bitwise .xor).low .byte 0x1FF 0x301 0xFF 1 (by decide) (by decide) .clear
  exact ⟨by decide, by decide, narrow, bounded, by decide, by decide, low⟩

end Ia32
