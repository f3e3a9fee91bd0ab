import Ia32.Alu
import Ia32.Error

/-!
# Arithmetic in machine words

The numbers of the machine have no bounds of their own. Here the same arithmetic is done in words
of a fixed size, where a result outside the range of the words and a shift by all of their bits or
more stop everything. The operations of the widths and of the arithmetic unit never stop, and give
what they give without bounds.
-/

namespace Ia32

/-- Why a computation in machine words stops. -/
inductive Panic where
  /-- A result lies outside the range of its words. -/
  | overflow
  /-- A word is shifted by all of its bits or more. -/
  | shift
  /-- There is no element at an index. -/
  | index
  /-- An instruction form broke its rules. -/
  | fault (cause : Fault)
  deriving DecidableEq, Repr

/-- A computation in machine words. -/
abbrev Checked := Except Panic

/-- The number of bits of an unsigned machine word. -/
inductive WordSize where
  | eight
  | thirtyTwo
  | sixtyFour
  deriving DecidableEq, Repr

namespace WordSize

def bits : WordSize → Nat
  | .eight => 8
  | .thirtyTwo => 32
  | .sixtyFour => 64

/-- The numbers that fit in a word lie below this bound. -/
def bound : WordSize → Nat
  | .eight => 0x100
  | .thirtyTwo => 0x100000000
  | .sixtyFour => 0x10000000000000000

section

variable (size : WordSize) (left right : Nat)

def add : Checked Nat :=
  if left + right < size.bound then .ok (left + right) else .error .overflow

def subtract : Checked Nat :=
  if right ≤ left then .ok (left - right) else .error .overflow

def multiply : Checked Nat :=
  if left * right < size.bound then .ok (left * right) else .error .overflow

/-- Shift to the left; what leaves the word is dropped. -/
def shiftLeft : Checked Nat :=
  if right < size.bits then .ok ((left <<< right) % size.bound) else .error .shift

def shiftRight : Checked Nat :=
  if right < size.bits then .ok (left >>> right) else .error .shift

/-- The word with all of its bits inverted. -/
def complement : Nat :=
  left ^^^ (size.bound - 1)

/-- The two's-complement reading of a word. -/
def signed : Int :=
  if left < size.bound / 2 then left else (left : Int) - size.bound

/-- The difference of two numbers in two's complement. -/
def subtractSigned (left right : Int) : Checked Int :=
  if -(size.bound / 2 : Nat) ≤ left - right ∧ left - right < (size.bound / 2 : Nat) then
    .ok (left - right)
  else
    .error .overflow

end

variable {size : WordSize} {left right : Nat}

theorem add_eq (fits : left + right < size.bound) : size.add left right = pure (left + right) :=
  if_pos fits

theorem subtract_eq (ordered : right ≤ left) : subtract left right = pure (left - right) :=
  if_pos ordered

theorem multiply_eq (fits : left * right < size.bound) :
    size.multiply left right = pure (left * right) :=
  if_pos fits

theorem shiftLeft_eq (short : right < size.bits) (fits : left <<< right < size.bound) :
    size.shiftLeft left right = pure (left <<< right) := by
  rw [shiftLeft, if_pos short, Nat.mod_eq_of_lt fits]
  rfl

theorem shiftRight_eq (short : right < size.bits) :
    size.shiftRight left right = pure (left >>> right) :=
  if_pos short

end WordSize

namespace Width

variable (width : Width) (value : Nat)

def checkedBits : Checked Nat :=
  WordSize.thirtyTwo.multiply width.bytes 8

def checkedModulus : Checked Nat := do
  WordSize.sixtyFour.shiftLeft 1 (← width.checkedBits)

def checkedMaxValue : Checked Nat := do
  WordSize.subtract (← width.checkedModulus) 1

def checkedMask : Checked Nat := do
  return value &&& (← width.checkedMaxValue)

def checkedSignBit : Checked Bool := do
  let position ← WordSize.subtract (← width.checkedBits) 1
  return (← WordSize.sixtyFour.shiftRight value position) &&& 1 != 0

/-- Sign extension by a disjunction with ones above the source. -/
def checkedSignExtend (target source : Width) (value : Nat) : Checked Nat := do
  let narrow ← source.checkedMask value
  if ← source.checkedSignBit narrow then
    target.checkedMask (narrow ||| WordSize.sixtyFour.complement (← source.checkedMaxValue))
  else
    target.checkedMask narrow

def checkedToSigned : Checked Int := do
  let narrow ← width.checkedMask value
  if ← width.checkedSignBit narrow then
    WordSize.sixtyFour.subtractSigned (WordSize.sixtyFour.signed narrow)
      (WordSize.sixtyFour.signed (← width.checkedModulus))
  else
    return WordSize.sixtyFour.signed narrow

@[simp] theorem checkedBits_eq : width.checkedBits = pure width.bits := by
  cases width <;> rfl

@[simp] theorem checkedModulus_eq : width.checkedModulus = pure width.modulus := by
  cases width <;> rfl

@[simp] theorem checkedMaxValue_eq : width.checkedMaxValue = pure width.maxValue := by
  cases width <;> rfl

/-- Cutting a number off by a conjunction with ones reduces it. -/
theorem land_maxValue : value &&& width.maxValue = width.mask value := by
  cases width with
  | byte => exact Nat.and_two_pow_sub_one_eq_mod value 8
  | word => exact Nat.and_two_pow_sub_one_eq_mod value 16
  | dword => exact Nat.and_two_pow_sub_one_eq_mod value 32

@[simp] theorem checkedMask_eq : width.checkedMask value = pure (width.mask value) := by
  simp only [checkedMask, checkedMaxValue_eq, pure_bind, land_maxValue]

@[simp] theorem checkedSignBit_eq : width.checkedSignBit value = pure (width.signBit value) := by
  have positive := width.bits_pos
  have short : width.bits - 1 < WordSize.sixtyFour.bits := by
    have := width.bits_le
    simp only [WordSize.bits]
    omega
  simp only [checkedSignBit, checkedBits_eq, pure_bind, WordSize.subtract_eq positive,
    WordSize.shiftRight_eq short, signBit, Nat.testBit, Nat.and_comm]

/-- The ones above a width, in a word. -/
theorem complement_maxValue :
    WordSize.sixtyFour.complement width.maxValue =
      WordSize.sixtyFour.bound - width.modulus := by
  cases width <;> decide

/-- Putting ones above a number of a width adds them. -/
theorem lor_complement_maxValue {narrow : Nat} (small : narrow < width.modulus) :
    narrow ||| WordSize.sixtyFour.complement width.maxValue =
      narrow + (WordSize.sixtyFour.bound - width.modulus) := by
  rw [complement_maxValue, Nat.or_comm, Nat.add_comm]
  cases width with
  | byte => exact (Nat.two_pow_add_eq_or_of_lt (i := 8) small 0xFFFFFFFFFFFFFF).symm
  | word => exact (Nat.two_pow_add_eq_or_of_lt (i := 16) small 0xFFFFFFFFFFFF).symm
  | dword => exact (Nat.two_pow_add_eq_or_of_lt (i := 32) small 0xFFFFFFFF).symm

@[simp] theorem checkedSignExtend_eq (target source : Width) (value : Nat) :
    target.checkedSignExtend source value = pure (target.signExtend source value) := by
  simp only [checkedSignExtend, checkedMask_eq, checkedSignBit_eq, checkedMaxValue_eq, pure_bind,
    lor_complement_maxValue source (source.mask_lt value), signExtend]
  split
  · congr 1
    cases target <;> cases source <;> simp only [mask, modulus, WordSize.bound] <;> omega
  · rfl

@[simp] theorem checkedToSigned_eq : width.checkedToSigned value = pure (width.toSigned value) := by
  have small := width.mask_lt value
  have few := width.modulus_le
  have narrow : WordSize.sixtyFour.signed (width.mask value) = width.mask value := by
    apply if_pos
    simp only [WordSize.bound]
    omega
  have wide : WordSize.sixtyFour.signed width.modulus = width.modulus := by
    apply if_pos
    simp only [WordSize.bound]
    omega
  have difference : WordSize.sixtyFour.subtractSigned (width.mask value) width.modulus =
      pure ((width.mask value : Int) - width.modulus) := by
    apply if_pos
    simp only [WordSize.bound]
    omega
  simp only [checkedToSigned, checkedMask_eq, checkedSignBit_eq, checkedModulus_eq, pure_bind,
    narrow, wide, difference, toSigned]
  split <;> rfl

end Width

/-! ## The arithmetic unit -/

def ArithmeticOp.checkedEvaluate (op : ArithmeticOp) (width : Width) (left right : UInt32)
    (flags : Flags) : Checked AluResult := do
  let augend ← width.checkedMask left.toNat
  let operand ← width.checkedMask right.toNat
  let addend ←
    if op.subtracts then
      WordSize.subtract (← width.checkedModulus) operand
    else
      pure operand
  let full ← WordSize.sixtyFour.add augend addend
  let sign ← width.checkedSignBit full
  let overflow := decide ((← width.checkedMaxValue) < full)
  let value ← width.checkedMask full
  return {
    value := UInt32.ofNat value
    flags := { flags with sign, overflow, zero := decide (value = 0) } }

def BitwiseOp.checkedEvaluate (op : BitwiseOp) (width : Width) (left right : UInt32) :
    Checked AluResult := do
  let full := (op.apply left right).toNat
  let sign ← width.checkedSignBit full
  let value ← width.checkedMask full
  return {
    value := UInt32.ofNat value
    flags := { carry := false, overflow := false, sign, zero := decide (value = 0) } }

def UnaryOp.checkedEvaluate (op : UnaryOp) (width : Width) (operand : UInt32) (flags : Flags) :
    Checked AluResult := do
  let value ← width.checkedMask operand.toNat
  let complement ← WordSize.subtract (← width.checkedMaxValue) value
  match op with
  | .not => return { value := UInt32.ofNat (← width.checkedMask complement), flags }
  | .neg =>
      let negated ← WordSize.sixtyFour.add complement 1
      return {
        value := UInt32.ofNat (← width.checkedMask negated)
        flags := { flags with carry := decide (value = 0) } }

namespace BinaryOp

def checkedEvaluate (op : BinaryOp) (width : Width) (left right : UInt32) (flags : Flags) :
    Checked AluResult :=
  match op with
  | .arithmetic op => op.checkedEvaluate width left right flags
  | .bitwise op => op.checkedEvaluate width left right

def checkedWidenImmediate (op : BinaryOp) (width immediateWidth : Width) (value : UInt32) :
    Checked UInt32 :=
  match op with
  | .arithmetic _ => do
      return UInt32.ofNat (← width.checkedSignExtend immediateWidth value.toNat)
  | .bitwise _ => return value

end BinaryOp

section

variable (width : Width) (left right : UInt32) (flags : Flags)

/-- A number of a width can be subtracted from the modulus, and the sum with another fits in a
word. -/
@[simp] theorem ArithmeticOp.checkedEvaluate_eq (op : ArithmeticOp) :
    op.checkedEvaluate width left right flags = pure (op.evaluate width left right flags) := by
  have few := width.modulus_le
  have leftSmall := width.mask_lt left.toNat
  have rightSmall := width.mask_lt right.toNat
  simp only [checkedEvaluate, Width.checkedMask_eq, Width.checkedModulus_eq,
    Width.checkedSignBit_eq, Width.checkedMaxValue_eq, pure_bind, evaluate]
  cases op.subtracts with
  | true =>
      have fits : width.mask left.toNat + (width.modulus - width.mask right.toNat) <
          WordSize.sixtyFour.bound := by
        simp only [WordSize.bound]
        omega
      simp only [if_true, WordSize.subtract_eq (Nat.le_of_lt rightSmall), pure_bind,
        WordSize.add_eq fits]
  | false =>
      have fits : width.mask left.toNat + width.mask right.toNat < WordSize.sixtyFour.bound := by
        simp only [WordSize.bound]
        omega
      simp only [Bool.false_eq_true, if_false, WordSize.add_eq fits, pure_bind]

@[simp] theorem BitwiseOp.checkedEvaluate_eq (op : BitwiseOp) :
    op.checkedEvaluate width left right = pure (op.evaluate width left right) := by
  simp only [checkedEvaluate, Width.checkedMask_eq, Width.checkedSignBit_eq, pure_bind, evaluate]

@[simp] theorem UnaryOp.checkedEvaluate_eq (op : UnaryOp) (operand : UInt32) :
    op.checkedEvaluate width operand flags = pure (op.evaluate width operand flags) := by
  have few := width.modulus_le
  have positive := width.modulus_pos
  have small := width.mask_lt operand.toNat
  have ordered : width.mask operand.toNat ≤ width.maxValue := by
    unfold Width.maxValue
    omega
  have complement : width.mask (width.maxValue - width.mask operand.toNat) =
      width.maxValue - width.mask operand.toNat := by
    apply Width.mask_of_lt
    unfold Width.maxValue
    omega
  have fits : width.maxValue - width.mask operand.toNat + 1 < WordSize.sixtyFour.bound := by
    simp only [Width.maxValue, WordSize.bound]
    omega
  simp only [checkedEvaluate, Width.checkedMask_eq, Width.checkedMaxValue_eq, pure_bind,
    WordSize.subtract_eq ordered, WordSize.add_eq fits, complement, evaluate]
  cases op <;> rfl

@[simp] theorem BinaryOp.checkedEvaluate_eq (op : BinaryOp) :
    op.checkedEvaluate width left right flags = pure (op.evaluate width left right flags) := by
  cases op with
  | arithmetic op => exact op.checkedEvaluate_eq width left right flags
  | bitwise op => exact op.checkedEvaluate_eq width left right

@[simp] theorem BinaryOp.checkedWidenImmediate_eq (op : BinaryOp) (immediateWidth : Width)
    (value : UInt32) :
    op.checkedWidenImmediate width immediateWidth value =
      pure (op.widenImmediate width immediateWidth value) := by
  cases op with
  | arithmetic op =>
      simp only [checkedWidenImmediate, Width.checkedSignExtend_eq, pure_bind, widenImmediate]
  | bitwise op => rfl

end

end Ia32
