import Ia32.Flags
import Ia32.Operation

/-!
# Arithmetic and logic

What an operation computes from the values of its operands, and how it sets the flags.
Results are reduced to the width of the operands. The sign flag is the top bit of the
result inside the width and the zero flag tells whether the result is zero.

* The additive operations set the overflow flag when the unreduced sum leaves the width, a
  difference being the sum with the complement of the second operand, and keep the carry flag.
* The bitwise operations clear the overflow and carry flags.
* The complement keeps all flags, and negation sets only the carry flag, for a zero operand.
-/

namespace Ia32

/-- The result of an operation and the flags after it. -/
structure AluResult where
  value : UInt32
  flags : Flags
  deriving DecidableEq, Repr

/-- Addition or subtraction of the low parts of two words. -/
def ArithmeticOp.evaluate (op : ArithmeticOp) (width : Width) (left right : UInt32)
    (flags : Flags) : AluResult :=
  let augend := width.mask left.toNat
  let operand := width.mask right.toNat
  let addend := if op.subtracts then width.modulus - operand else operand
  let full := augend + addend
  let value := width.mask full
  { value := UInt32.ofNat value
    flags :=
      { flags with
        sign := width.signBit full
        overflow := decide (width.maxValue < full)
        zero := decide (value = 0) } }

/-- A bitwise operation on the low parts of two words. -/
def BitwiseOp.evaluate (op : BitwiseOp) (width : Width) (left right : UInt32) : AluResult :=
  let full := (op.apply left right).toNat
  let value := width.mask full
  { value := UInt32.ofNat value
    flags :=
      { carry := false
        overflow := false
        sign := width.signBit full
        zero := decide (value = 0) } }

/-- Complement or negation of the low part of a word. -/
def UnaryOp.evaluate (op : UnaryOp) (width : Width) (operand : UInt32) (flags : Flags) :
    AluResult :=
  let value := width.mask operand.toNat
  let complement := width.maxValue - value
  match op with
  | .not => { value := UInt32.ofNat complement, flags }
  | .neg =>
      { value := UInt32.ofNat (width.mask (complement + 1))
        flags := { flags with carry := decide (value = 0) } }

/-- A binary operation on the low parts of two words. -/
def BinaryOp.evaluate (op : BinaryOp) (width : Width) (left right : UInt32) (flags : Flags) :
    AluResult :=
  match op with
  | .arithmetic op => op.evaluate width left right flags
  | .bitwise op => op.evaluate width left right

/-! ## The flags word

An operation sets its flags one after the other, which sets or clears their bits of the flags word
and leaves the other bits. -/

section

open Flags (setBit)

variable (width : Width) (left right : UInt32) (flags : Flags)

theorem ArithmeticOp.toWord_evaluate (op : ArithmeticOp) :
    let result := op.evaluate width left right flags
    result.flags.toWord =
      setBit (setBit (setBit flags.toWord .sign result.flags.sign)
        .overflow result.flags.overflow) .zero result.flags.zero := by
  intro result
  simp only [← Flags.toWord_set]
  rfl

/-- A bitwise operation sets all flags, so that nothing is left of the flags before it. -/
theorem BitwiseOp.toWord_evaluate (op : BitwiseOp) :
    let result := op.evaluate width left right
    result.flags.toWord =
      setBit (setBit (setBit (setBit flags.toWord .overflow false) .carry false)
        .sign result.flags.sign) .zero result.flags.zero := by
  intro result
  simp only [← Flags.toWord_set]
  rfl

/-- A complement sets no flag. -/
theorem UnaryOp.toWord_evaluate (op : UnaryOp) (operand : UInt32) :
    let result := op.evaluate width operand flags
    result.flags.toWord =
      if op = .neg then setBit flags.toWord .carry result.flags.carry else flags.toWord := by
  intro result
  simp only [← Flags.toWord_set]
  cases op <;> rfl

end

end Ia32
