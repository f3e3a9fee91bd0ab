import Ia32.Proofs.Checked.Arithmetic
import Ia32.Proofs.Storage

/-!
# Registers and numbers in machine words

Parts of registers and little-endian numbers, put together and taken apart by shifts and bitwise
operations on machine words. A register has an element at every index that is used, and no shift
is by as much as the word has bits.
-/

namespace Ia32

/-- A field of a word stays inside the word when it is shifted to its place. -/
theorem WordSize.shiftLeft_lt {value first count : Nat} (small : value < 1 <<< count)
    (inside : first + count ≤ 32) : value <<< first < WordSize.thirtyTwo.bound := by
  simp only [Nat.shiftLeft_eq, Nat.one_mul] at small ⊢
  calc value * 2 ^ first
      < 2 ^ count * 2 ^ first := Nat.mul_lt_mul_of_pos_right small (Nat.two_pow_pos first)
    _ = 2 ^ (count + first) := (Nat.pow_add ..).symm
    _ ≤ 2 ^ 32 := Nat.pow_le_pow_right Nat.two_pos (by omega)

/-! ## Parts of registers -/

/-- The index of the register that an operand belongs to, and the number of bits below the
operand in it. -/
def RegisterCode.checkedSlot (code : RegisterCode) : Width → Checked (Nat × Nat)
  | .byte =>
      if 4 ≤ code.val then do
        return (← WordSize.subtract code.val 4, 8)
      else
        return (code.val, 0)
  | .word => return (code.val, 0)
  | .dword => return (code.val, 0)

theorem RegisterCode.checkedSlot_eq (code : RegisterCode) (width : Width) :
    code.checkedSlot width = pure ((code.slot width).1.val, code.firstBit width) := by
  cases width with
  | byte =>
      have lowered : ∀ code : RegisterCode, 4 ≤ code.val → (code - 4).val = code.val - 4 := by
        decide
      unfold checkedSlot slot firstBit
      by_cases high : 4 ≤ code.val
      · simp only [high, if_true, WordSize.subtract_eq high, pure_bind, Nat.not_lt.mpr high,
          if_false, lowered code high]
      · simp only [high, if_false, Nat.not_le.mp high, if_true]
  | word | dword => rfl

namespace Registers

/-- The register at an index. -/
def checkedWord (registers : Registers) (index : Nat) : Checked UInt32 :=
  if inside : index < 8 then .ok (registers.word ⟨index, inside⟩) else .error .index

def checkedSetWord (registers : Registers) (index : Nat) (value : UInt32) : Checked Registers :=
  if inside : index < 8 then .ok (registers.setWord ⟨index, inside⟩ value) else .error .index

def checkedRead (registers : Registers) (code : RegisterCode) (width : Width) :
    Checked UInt32 := do
  let (index, shift) ← code.checkedSlot width
  let shifted ← WordSize.thirtyTwo.shiftRight (← registers.checkedWord index).toNat shift
  return UInt32.ofNat (shifted &&& (← width.checkedMaxValue))

def checkedWrite (registers : Registers) (code : RegisterCode) (width : Width)
    (value : UInt32) : Checked Registers := do
  let (index, shift) ← code.checkedSlot width
  let mask ← WordSize.thirtyTwo.shiftLeft (← width.checkedMaxValue) shift
  let field ← WordSize.thirtyTwo.shiftLeft (← width.checkedMask value.toNat) shift
  let word ← registers.checkedWord index
  registers.checkedSetWord index
    (UInt32.ofNat (word.toNat &&& WordSize.thirtyTwo.complement mask ||| field))

@[simp] theorem checkedWord_eq (registers : Registers) (code : RegisterCode) :
    registers.checkedWord code.val = pure (registers.word code) :=
  dif_pos code.isLt

@[simp] theorem checkedSetWord_eq (registers : Registers) (code : RegisterCode)
    (value : UInt32) :
    registers.checkedSetWord code.val value = pure (registers.setWord code value) :=
  dif_pos code.isLt

@[simp] theorem checkedRead_eq (registers : Registers) (code : RegisterCode) (width : Width) :
    registers.checkedRead code width = pure (registers.read code width) := by
  have inside := code.firstBit_add_bits_le width
  have positive := width.bits_pos
  have short : code.firstBit width < WordSize.thirtyTwo.bits := by
    simp only [WordSize.bits]
    omega
  simp only [checkedRead, RegisterCode.checkedSlot_eq, Width.checkedMaxValue_eq, checkedWord_eq,
    pure_bind, WordSize.shiftRight_eq short, Width.land_maxValue, Nat.shiftRight_eq_div_pow, read,
    RegisterCode.weight_slot, Nat.shiftLeft_eq, Nat.one_mul]

/-- Clearing the bits of a digit of a word and then setting those of another one puts this in its
place. -/
theorem clear_or_set {word first count field : Nat} (wordSmall : word < WordSize.thirtyTwo.bound)
    (inside : first + count ≤ 32) (small : field < 1 <<< count) :
    word &&& WordSize.thirtyTwo.complement ((1 <<< count - 1) <<< first) ||| field <<< first =
      replaceField word (1 <<< first) (1 <<< count) field := by
  have above (position : Nat) (high : 32 ≤ position) : word.testBit position = false :=
    Nat.testBit_lt_two_pow
      (Nat.lt_of_lt_of_le wordSmall (Nat.pow_le_pow_right Nat.two_pos high))
  have ones (position : Nat) : (WordSize.thirtyTwo.bound - 1).testBit position =
      decide (position < 32) := Nat.testBit_two_pow_sub_one 32 position
  apply Nat.eq_of_testBit_eq
  intro position
  rw [testBit_replaceField _ _ _ _ _ small]
  simp only [Nat.shiftLeft_eq, Nat.one_mul] at small
  simp only [Nat.testBit_or, Nat.testBit_and, WordSize.complement, Nat.testBit_xor, ones,
    Nat.testBit_shiftLeft, Nat.shiftLeft_eq 1, Nat.one_mul, Nat.testBit_two_pow_sub_one]
  by_cases seen : first ≤ position ∧ position < first + count
  · have digit : position - first < count := by omega
    have low : position < 32 := by omega
    simp [seen, digit, low]
  · rw [if_neg seen]
    have unset : (decide (position ≥ first) && field.testBit (position - first)) = false := by
      by_cases below : first ≤ position
      · have long : count ≤ position - first := by omega
        rw [Nat.testBit_lt_two_pow
          (Nat.lt_of_lt_of_le small (Nat.pow_le_pow_right Nat.two_pos long)), Bool.and_false]
      · simp [below]
    have kept : (decide (position ≥ first) && decide (position - first < count)) = false := by
      rw [← Bool.decide_and]
      apply decide_eq_false
      omega
    rw [unset, kept, Bool.or_false, Bool.false_xor]
    by_cases low : position < 32
    · simp [low]
    · simp [low, above position (by omega)]

/-- Neither mask nor field is shifted out of the register. -/
@[simp] theorem checkedWrite_eq (registers : Registers) (code : RegisterCode) (width : Width)
    (value : UInt32) :
    registers.checkedWrite code width value = pure (registers.write code width value) := by
  have inside := code.firstBit_add_bits_le width
  have positive := width.bits_pos
  have short : code.firstBit width < WordSize.thirtyTwo.bits := by
    simp only [WordSize.bits]
    omega
  have maxSmall : width.maxValue < 1 <<< width.bits := by
    rw [← width.modulus_eq]
    exact Nat.sub_lt width.modulus_pos Nat.one_pos
  have fieldSmall : width.mask value.toNat < 1 <<< width.bits := by
    rw [← width.modulus_eq]
    exact width.mask_lt _
  simp only [checkedWrite, RegisterCode.checkedSlot_eq, Width.checkedMaxValue_eq,
    Width.checkedMask_eq, checkedWord_eq, checkedSetWord_eq, pure_bind,
    WordSize.shiftLeft_eq short (WordSize.shiftLeft_lt maxSmall inside),
    WordSize.shiftLeft_eq short (WordSize.shiftLeft_lt fieldSmall inside), write,
    RegisterCode.weight_slot, width.modulus_eq]
  rw [Width.maxValue, width.modulus_eq, clear_or_set (UInt32.toNat_lt _) inside fieldSmall]

end Registers

/-! ## Little-endian numbers -/

namespace LittleEndian

/-- Put together the number that bytes spell, the first of which is the one with the given
index. -/
def checkedJoin : (bytes : List UInt8) → (index value : Nat) → Checked Nat
  | [], _, value => return value
  | byte :: bytes, index, value => do
      let place ← WordSize.thirtyTwo.multiply 8 index
      let digit ← WordSize.thirtyTwo.shiftLeft byte.toNat place
      checkedJoin bytes (index + 1) (value ||| digit)

/-- Cut a number into bytes, the first of which is the one with the given index. -/
def checkedCut (value : Nat) : (count index : Nat) → Checked (List UInt8)
  | 0, _ => return []
  | count + 1, index => do
      let place ← WordSize.thirtyTwo.multiply 8 index
      let byte := UInt8.ofNat (← WordSize.thirtyTwo.shiftRight value place)
      return byte :: (← checkedCut value count (index + 1))

/-- The place of a byte in a word. -/
theorem multiply_place {index : Nat} (few : index < 4) :
    WordSize.thirtyTwo.multiply 8 index = pure (8 * index) := by
  apply WordSize.multiply_eq
  simp only [WordSize.bound]
  omega

/-- A number is put above another one by adding it. -/
theorem lor_shiftLeft {value place : Nat} (upper : Nat) (small : value < 1 <<< place) :
    value ||| upper <<< place = value + upper <<< place := by
  simp only [Nat.shiftLeft_eq, Nat.one_mul] at small ⊢
  rw [Nat.or_comm, Nat.mul_comm, ← Nat.two_pow_add_eq_or_of_lt small, Nat.add_comm]

theorem shiftLeft_next_place (number index : Nat) :
    number <<< (8 * (index + 1)) = (0x100 * number) <<< (8 * index) := by
  rw [Nat.mul_succ, Nat.add_comm, Nat.shiftLeft_add, Nat.shiftLeft_eq number 8, Nat.mul_comm]

/-- A number with a byte above it ends at the place of the next byte. -/
theorem add_shiftLeft_lt {value index : Nat} (byte : UInt8) (small : value < 1 <<< (8 * index)) :
    value + byte.toNat <<< (8 * index) < 1 <<< (8 * (index + 1)) := by
  rw [shiftLeft_next_place]
  simp only [Nat.shiftLeft_eq, Nat.one_mul, Nat.mul_one] at small ⊢
  calc value + byte.toNat * 2 ^ (8 * index)
      < 2 ^ (8 * index) + byte.toNat * 2 ^ (8 * index) := Nat.add_lt_add_right small _
    _ = (byte.toNat + 1) * 2 ^ (8 * index) := by rw [Nat.add_mul, Nat.one_mul, Nat.add_comm]
    _ ≤ 0x100 * 2 ^ (8 * index) := Nat.mul_le_mul_right _ byte.toNat_lt

theorem checkedJoin_eq {bytes : List UInt8} {index value : Nat} (few : index + bytes.length ≤ 4)
    (small : value < 1 <<< (8 * index)) :
    checkedJoin bytes index value = pure (value + ofBytes bytes <<< (8 * index)) := by
  induction bytes generalizing index value with
  | nil => simp [checkedJoin, ofBytes]
  | cons byte bytes ih =>
      rw [List.length_cons] at few
      have short : 8 * index < WordSize.thirtyTwo.bits := by
        simp only [WordSize.bits]
        omega
      have byteSmall : byte.toNat < 1 <<< 8 := byte.toNat_lt
      have fits := WordSize.shiftLeft_lt byteSmall (show 8 * index + 8 ≤ 32 by omega)
      have spelled : ofBytes (byte :: bytes) <<< (8 * index) =
          byte.toNat <<< (8 * index) + ofBytes bytes <<< (8 * (index + 1)) := by
        rw [shiftLeft_next_place]
        simp only [ofBytes, Nat.shiftLeft_eq, Nat.add_mul]
      rw [checkedJoin, multiply_place (by omega), pure_bind, WordSize.shiftLeft_eq short fits,
        pure_bind, lor_shiftLeft byte.toNat small, ih (by omega) (add_shiftLeft_lt byte small),
        spelled, Nat.add_assoc]

/-- The bytes of an operand fit in a word. -/
theorem checkedJoin_start {bytes : List UInt8} {width : Width}
    (counted : bytes.length = width.bytes) : checkedJoin bytes 0 0 = pure (ofBytes bytes) := by
  have few : bytes.length ≤ 4 := by
    rw [counted]
    cases width <;> decide
  rw [checkedJoin_eq (by omega) Nat.one_pos]
  simp

theorem checkedCut_eq {value count index : Nat} (few : index + count ≤ 4) :
    checkedCut value count index = pure (toBytes count (value >>> (8 * index))) := by
  induction count generalizing index with
  | zero => rfl
  | succ count ih =>
      have short : 8 * index < WordSize.thirtyTwo.bits := by
        simp only [WordSize.bits]
        omega
      have next : value >>> (8 * (index + 1)) = (value >>> (8 * index)) / 0x100 := by
        rw [Nat.mul_succ, Nat.shiftRight_add, Nat.shiftRight_eq_div_pow (value >>> _)]
      rw [checkedCut, multiply_place (by omega), pure_bind, WordSize.shiftRight_eq short,
        pure_bind, ih (by omega), pure_bind, next]
      rfl

theorem checkedCut_start (value : Nat) (width : Width) :
    checkedCut value width.bytes 0 = pure (toBytes width.bytes value) := by
  have few : 0 + width.bytes ≤ 4 := by
    cases width <;> decide
  rw [checkedCut_eq few]
  rfl

end LittleEndian

end Ia32
