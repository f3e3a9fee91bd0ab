import Ia32.Memory
import Ia32.Registers

/-!
# What storing changes

The registers as single bits and the memory as single bytes. Writing an operand to a register
changes exactly the bits of the part that the operand sees. Storing bytes at consecutive
addresses changes only the bytes at those addresses, and what it leaves there depends on
nothing but the byte that was there before.
-/

namespace Ia32

/-! ## Bits of registers -/

namespace RegisterCode

/-- The lowest bit of the part of a register that an operand sees. -/
def firstBit (code : RegisterCode) : Width → Nat
  | .byte => if code.val < 4 then 0 else 8
  | .word => 0
  | .dword => 0

/-- Whether an operand sees a bit of a register. -/
def Sees (code : RegisterCode) (width : Width) (register : RegisterCode) (bit : Nat) : Prop :=
  register = (code.slot width).1 ∧
    code.firstBit width ≤ bit ∧ bit < code.firstBit width + width.bits

instance (code : RegisterCode) (width : Width) (register : RegisterCode) (bit : Nat) :
    Decidable (code.Sees width register bit) :=
  inferInstanceAs (Decidable (_ ∧ _ ∧ _))

theorem weight_slot (code : RegisterCode) (width : Width) :
    (code.slot width).2 = 1 <<< code.firstBit width := by
  cases width with
  | byte =>
      unfold slot firstBit
      dsimp only
      split <;> rfl
  | word | dword => rfl

theorem firstBit_add_bits_le (code : RegisterCode) (width : Width) :
    code.firstBit width + width.bits ≤ 32 := by
  cases width with
  | byte =>
      unfold firstBit
      dsimp only
      split <;> decide
  | word | dword => exact Nat.le_of_ble_eq_true rfl

end RegisterCode

theorem Width.modulus_eq (width : Width) : width.modulus = 1 <<< width.bits := by
  cases width <;> rfl

namespace Registers

/-- A single bit of a register. -/
def bit (registers : Registers) (register : RegisterCode) (position : Nat) : Bool :=
  (registers.word register).toNat.testBit position

/-- Replacing a digit replaces its bits and no others. -/
theorem testBit_replaceField (word first count field position : Nat)
    (small : field < 1 <<< count) :
    (replaceField word (1 <<< first) (1 <<< count) field).testBit position =
      if first ≤ position ∧ position < first + count then field.testBit (position - first)
      else word.testBit position := by
  simp only [Nat.shiftLeft_eq, Nat.one_mul] at small ⊢
  -- Above the digit, the digit itself, and below it: one range of bits for each.
  have digits : replaceField word (2 ^ first) (2 ^ count) field =
      2 ^ first * (2 ^ count * (word / 2 ^ (first + count)) + field) + word % 2 ^ first := by
    simp only [replaceField, Nat.pow_add, Nat.mul_add]
    congr 1
    congr 1
    · rw [Nat.mul_comm (word / _), Nat.mul_assoc]
    · exact Nat.mul_comm ..
  have low : word % 2 ^ first < 2 ^ first := Nat.mod_lt _ (Nat.two_pow_pos first)
  rw [digits, Nat.testBit_two_pow_mul_add _ low, Nat.testBit_mod_two_pow]
  by_cases below : position < first
  · have outside : ¬(first ≤ position ∧ position < first + count) := by omega
    simp [below, outside]
  rw [if_neg below, Nat.testBit_two_pow_mul_add _ small, Nat.testBit_div_two_pow]
  by_cases inside : position - first < count
  · have covered : first ≤ position ∧ position < first + count := by omega
    rw [if_pos inside, if_pos covered]
  · have outside : ¬(first ≤ position ∧ position < first + count) := by omega
    rw [if_neg inside, if_neg outside]
    congr 1
    omega

/-- Writing an operand changes exactly the bits that the operand sees, to those of the
value. -/
theorem bit_write (registers : Registers) (code : RegisterCode) (width : Width)
    (value : UInt32) (register : RegisterCode) (position : Nat) :
    (registers.write code width value).bit register position =
      if code.Sees width register position then
        value.toNat.testBit (position - code.firstBit width)
      else registers.bit register position := by
  have upper := code.firstBit_add_bits_le width
  have small : width.mask value.toNat < 1 <<< width.bits := by
    rw [← width.modulus_eq]
    exact width.mask_lt _
  simp only [bit, write, word_setWord]
  by_cases same : register = (code.slot width).1
  · subst same
    simp only [if_true, UInt32.toNat_ofNat', Nat.testBit_mod_two_pow, code.weight_slot width,
      width.modulus_eq, testBit_replaceField _ _ _ _ _ small, RegisterCode.Sees, true_and]
    by_cases seen : code.firstBit width ≤ position ∧
        position < code.firstBit width + width.bits
    · have inside : position < 32 := by omega
      have digit : position - code.firstBit width < width.bits := by omega
      simp [seen, inside, Width.mask, width.modulus_eq, Nat.shiftLeft_eq,
        Nat.testBit_mod_two_pow, digit]
    · simp only [if_neg seen]
      by_cases inside : position < 32
      · simp [inside]
      · have large : (registers.word (code.slot width).1).toNat < 2 ^ position :=
          Nat.lt_of_lt_of_le (UInt32.toNat_lt _) (Nat.pow_le_pow_right (by decide) (by omega))
        simp [inside, Nat.testBit_lt_two_pow large]
  · have unseen : ¬code.Sees width register position := fun seen => same seen.1
    rw [if_neg same, if_neg unseen]

/-- Two register files that differ at most in the part that an operand sees. -/
def SameOutside (code : RegisterCode) (width : Width) (left right : Registers) : Prop :=
  ∀ register position, ¬code.Sees width register position →
    left.bit register position = right.bit register position

theorem write_sameOutside (registers : Registers) (code : RegisterCode) (width : Width)
    (value : UInt32) : (registers.write code width value).SameOutside code width registers := by
  intro register position unseen
  rw [bit_write, if_neg unseen]

end Registers

/-! ## Bytes of memory -/

namespace Memory

/-- Two memories are equal when they have the same bytes. -/
theorem ext_bytes {left right : Memory}
    (same : ∀ index : Nat, left.bytes[index]? = right.bytes[index]?) : left = right :=
  congrArg Memory.mk (Array.ext_getElem? same)

/-- Whether a byte of the memory is one of the `count` bytes from an address onwards. -/
def InBlock (start : UInt32) (count : Nat) (index : Nat) : Prop :=
  ∃ offset < count, (start + UInt32.ofNat offset).toNat = index

theorem InBlock.here (start : UInt32) (count : Nat) :
    InBlock start (count + 1) start.toNat :=
  ⟨0, Nat.succ_pos count, congrArg UInt32.toNat (add_ofNat_zero start)⟩

theorem InBlock.there {start : UInt32} {count index : Nat}
    (inside : InBlock (start + 1) count index) : InBlock start (count + 1) index := by
  rcases inside with ⟨offset, bounded, found⟩
  refine ⟨offset + 1, Nat.succ_lt_succ bounded, ?_⟩
  rw [← found, add_one_add_ofNat]

theorem readBytes_congr {left right : Memory} {start : UInt32} {count : Nat}
    (agree : ∀ index, InBlock start count index → right.bytes[index]? = left.bytes[index]?) :
    right.readBytes start count = left.readBytes start count := by
  induction count generalizing start with
  | zero => rfl
  | succ count ih =>
      simp only [readBytes, readByte, Array.getD_eq_getD_getElem?, agree _ (.here start count),
        ih fun index inside => agree index inside.there]

/-- A number is told by the bytes of its block. -/
theorem read_congr {left right : Memory} {start : UInt32} {width : Width}
    (agree : ∀ index, InBlock start width.bytes index →
      right.bytes[index]? = left.bytes[index]?) :
    right.read start width = left.read start width := by
  rw [read, read, readBytes_congr agree]

/-- Two memories that differ at most in the bytes of a block. -/
def SameOutside (start : UInt32) (count : Nat) (left right : Memory) : Prop :=
  ∀ index, ¬InBlock start count index → left.bytes[index]? = right.bytes[index]?

theorem writeBytes_sameOutside (memory : Memory) (start : UInt32) (values : List UInt8) :
    (memory.writeBytes start values).SameOutside start values.length memory := by
  intro index outside
  induction values generalizing memory start with
  | nil => rfl
  | cons value values ih =>
      have apart : start.toNat ≠ index := by
        rintro rfl
        exact outside (.here start values.length)
      rw [writeBytes, ih _ _ fun inside => outside inside.there]
      exact Array.getElem?_setIfInBounds_ne apart

theorem getElem?_writeByte (memory : Memory) (address : UInt32) (value : UInt8) (index : Nat) :
    (memory.writeByte address value).bytes[index]? =
      if address.toNat = index then memory.bytes[index]?.map fun _ => value
      else memory.bytes[index]? := by
  simp only [writeByte, Array.getElem?_setIfInBounds]
  by_cases same : address.toNat = index
  · subst same
    by_cases inside : address.toNat < memory.bytes.size <;> simp [inside]
  · simp [same]

/-- Bytes that are stored at consecutive addresses, which may wrap around, are found there as far
as the memory reaches. -/
theorem getElem?_writeBytes_inside (memory : Memory) (start : UInt32) {values : List UInt8}
    (few : values.length ≤ 0x100000000) {offset : Nat} (inside : offset < values.length) :
    (memory.writeBytes start values).bytes[(start + UInt32.ofNat offset).toNat]? =
      memory.bytes[(start + UInt32.ofNat offset).toNat]?.map fun _ => values[offset] := by
  induction values generalizing memory start offset with
  | nil => cases inside
  | cons value values ih =>
      rw [List.length_cons] at few inside
      cases offset with
      | zero =>
          have apart : ¬InBlock (start + 1) values.length start.toNat := by
            rintro ⟨later, small, found⟩
            rw [UInt32.toNat_add, UInt32.toNat_add, UInt32.toNat_ofNat'] at found
            have one : (1 : UInt32).toNat = 1 := rfl
            have bound := start.toNat_lt
            omega
          rw [add_ofNat_zero, writeBytes, writeBytes_sameOutside _ _ _ _ apart,
            getElem?_writeByte, if_pos rfl]
          rfl
      | succ offset =>
          rw [← add_one_add_ofNat, writeBytes, ih _ _ (by omega) (Nat.lt_of_succ_lt_succ inside),
            getElem?_writeByte]
          split
          · rw [Option.map_map]
            rfl
          · rfl

theorem write_sameOutside (memory : Memory) (start : UInt32) (width : Width) (value : UInt32) :
    (memory.write start width value).SameOutside start width.bytes memory := by
  have stored := memory.writeBytes_sameOutside start
    (LittleEndian.toBytes width.bytes value.toNat)
  rwa [LittleEndian.length_toBytes] at stored

/-- Storing the same bytes leaves a byte equal in two memories where it was equal before. -/
theorem getElem?_writeBytes_congr {left right : Memory} {index : Nat}
    (same : left.bytes[index]? = right.bytes[index]?) (start : UInt32) (values : List UInt8) :
    (left.writeBytes start values).bytes[index]? =
      (right.writeBytes start values).bytes[index]? := by
  induction values generalizing left right start with
  | nil => exact same
  | cons value values ih =>
      apply ih
      have bounds : index < left.bytes.size ↔ index < right.bytes.size := by
        rw [← Nat.not_le, ← Array.getElem?_eq_none_iff, same, Array.getElem?_eq_none_iff,
          Nat.not_le]
      simp only [writeByte, Array.getElem?_setIfInBounds]
      by_cases here : start.toNat = index
      · subst here
        simp only [if_true, bounds]
      · simp only [here, if_false, same]

end Memory

end Ia32
