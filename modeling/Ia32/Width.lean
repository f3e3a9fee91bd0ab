/-!
# Operand widths

An instruction works on operands of one, two or four bytes. This module holds the
three widths and their arithmetic on natural numbers: reduction to a width, the
sign bit, sign extension, and the two's-complement reading of a value.

A number is stored as a list of bytes, least significant byte first. `toBytes` cuts a
number into a given count of bytes and `ofBytes` reads a list of bytes back; reading
what was cut gives the number without its high part.
-/

namespace Ia32

/-- The size of an operand: one, two or four bytes. -/
inductive Width where
  | byte
  | word
  | dword
  deriving DecidableEq, Repr

namespace Width

/-- Number of bytes an operand of this width occupies in memory. -/
def bytes : Width → Nat
  | .byte => 1
  | .word => 2
  | .dword => 4

/-- The width that occupies the given number of bytes, if there is one. -/
def ofBytes? : Nat → Option Width
  | 1 => some .byte
  | 2 => some .word
  | 4 => some .dword
  | _ => none

def bits (width : Width) : Nat :=
  8 * width.bytes

/-- Number of values of this width, the modulus of its arithmetic. -/
def modulus : Width → Nat
  | .byte => 0x100
  | .word => 0x10000
  | .dword => 0x100000000

/-- The largest value of this width. -/
def maxValue (width : Width) : Nat :=
  width.modulus - 1

/-- Drop the bits of `value` that lie above this width. -/
def mask (width : Width) (value : Nat) : Nat :=
  value % width.modulus

/-- The topmost bit of `value` inside this width. Bits above the width play no part. -/
def signBit (width : Width) (value : Nat) : Bool :=
  value.testBit (width.bits - 1)

/-- Widen or narrow a `source`-wide value to `target`. The new high bits are copies of
the sign bit; a target no wider than the source only drops bits. -/
def signExtend (target source : Width) (value : Nat) : Nat :=
  let narrow := source.mask value
  if source.signBit narrow then
    target.mask (narrow + (target.modulus - source.modulus))
  else
    target.mask narrow

/-- The two's-complement reading of the low bits of `value`. -/
def toSigned (width : Width) (value : Nat) : Int :=
  let narrow := width.mask value
  if width.signBit narrow then (narrow : Int) - width.modulus else narrow

@[simp] theorem ofBytes?_bytes (width : Width) : ofBytes? width.bytes = some width := by
  cases width <;> rfl

theorem bytes_pos (width : Width) : 0 < width.bytes := by
  cases width <;> decide

theorem bytes_le (width : Width) : width.bytes ≤ dword.bytes := by
  cases width <;> decide

theorem bits_pos (width : Width) : 0 < width.bits := by
  cases width <;> decide

theorem bits_le (width : Width) : width.bits ≤ 32 := by
  cases width <;> decide

theorem modulus_pos (width : Width) : 0 < width.modulus := by
  cases width <;> decide

theorem modulus_le (width : Width) : width.modulus ≤ 0x100000000 := by
  cases width <;> decide

theorem mask_lt (width : Width) (value : Nat) : width.mask value < width.modulus :=
  Nat.mod_lt _ width.modulus_pos

theorem mask_of_lt {width : Width} {value : Nat} (small : value < width.modulus) :
    width.mask value = value :=
  Nat.mod_eq_of_lt small

/-- The sign bit is set exactly in the upper half of the values of a width. -/
theorem signBit_eq_decide (width : Width) (value : Nat) :
    width.signBit value = decide (width.modulus / 2 ≤ width.mask value) := by
  rw [signBit, Nat.testBit_eq_decide_div_mod_eq]
  cases width <;> simp only [bits, bytes, modulus, mask] <;> congr 1 <;> apply propext <;> omega

/-- Sign extension is the two's-complement reading, reduced to the target. -/
theorem signExtend_emod (target source : Width) (value : Nat) :
    (target.signExtend source value : Int) = source.toSigned value % target.modulus := by
  have small := source.mask_lt value
  simp only [signExtend, toSigned]
  generalize source.mask value = narrow at small
  cases source.signBit narrow <;> cases target <;> cases source <;>
    simp only [mask, modulus, Bool.false_eq_true, if_false, if_true] at small ⊢ <;> omega

/-- The two's-complement reading, reduced to the width, is the value again. -/
theorem toSigned_emod (width : Width) (value : Nat) :
    width.toSigned value % width.modulus = width.mask value := by
  have small := width.mask_lt value
  have reduced : (width.mask value : Int) % width.modulus = width.mask value :=
    Int.emod_eq_of_lt (Int.natCast_nonneg _) (Int.ofNat_lt.mpr small)
  simp only [toSigned]
  split
  · rw [Int.sub_emod_right, reduced]
  · exact reduced

end Width

/-! ## Little-endian numbers -/

namespace LittleEndian

/-- The number that a list of bytes spells, least significant byte first. -/
def ofBytes : List UInt8 → Nat
  | [] => 0
  | byte :: bytes => byte.toNat + 0x100 * ofBytes bytes

/-- The lowest `count` bytes of a number, least significant byte first. -/
def toBytes : (count : Nat) → (value : Nat) → List UInt8
  | 0, _ => []
  | count + 1, value => UInt8.ofNat value :: toBytes count (value / 0x100)

/-- How many numbers a count of bytes can spell. -/
def capacity : (count : Nat) → Nat
  | 0 => 1
  | count + 1 => 0x100 * capacity count

@[simp] theorem length_toBytes (count value : Nat) : (toBytes count value).length = count := by
  induction count generalizing value with
  | zero => rfl
  | succ count ih => simp [toBytes, ih]

theorem ofBytes_lt (bytes : List UInt8) : ofBytes bytes < capacity bytes.length := by
  induction bytes with
  | nil => exact Nat.one_pos
  | cons byte bytes ih =>
      have small := byte.toNat_lt
      simp only [ofBytes, List.length_cons, capacity]
      omega

/-- Reading the lowest bytes of a number gives the number without its high part. -/
theorem ofBytes_toBytes (count value : Nat) :
    ofBytes (toBytes count value) = value % capacity count := by
  induction count generalizing value with
  | zero => simp [ofBytes, toBytes, capacity, Nat.mod_one]
  | succ count ih =>
      simp only [ofBytes, toBytes, capacity, ih, UInt8.toNat_ofNat', Nat.mod_mul]

/-- A list of bytes is recovered from the number it spells. -/
theorem toBytes_ofBytes (bytes : List UInt8) : toBytes bytes.length (ofBytes bytes) = bytes := by
  induction bytes with
  | nil => rfl
  | cons byte bytes ih =>
      have small := byte.toNat_lt
      simp only [ofBytes, toBytes, List.length_cons]
      rw [show (byte.toNat + 0x100 * ofBytes bytes) / 0x100 = ofBytes bytes by omega, ih]
      congr 1
      apply UInt8.toNat.inj
      rw [UInt8.toNat_ofNat']
      omega

end LittleEndian

end Ia32
