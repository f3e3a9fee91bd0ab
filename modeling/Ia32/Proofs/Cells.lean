import Ia32.Proofs.Frame

/-!
# Cells

The registers and the memory as single bytes. An operand is a row of cells, in a register or at
consecutive addresses, and its value is the little-endian number that they hold. Storing a value
in an operand puts the bytes of the value in the cells of the operand, as far as there are such
cells, and changes nothing else.
-/

namespace Ia32

/-! ## Bytes of numbers -/

/-- Reducing a number to a width keeps its bits inside the width. -/
theorem Width.testBit_mask (width : Width) (value : Nat) {bit : Nat} (inside : bit < width.bits) :
    (width.mask value).testBit bit = value.testBit bit := by
  simp only [mask, width.modulus_eq, Nat.shiftLeft_eq, Nat.one_mul, Nat.testBit_mod_two_pow,
    inside, decide_true, Bool.true_and]

theorem Width.modulus_eq_capacity (width : Width) :
    width.modulus = LittleEndian.capacity width.bytes := by
  cases width <;> rfl

namespace LittleEndian

/-- A byte of a number, counted from the lowest. -/
def digit (value index : Nat) : UInt8 :=
  UInt8.ofNat (value >>> (8 * index))

theorem digit_zero (value : Nat) : digit value 0 = UInt8.ofNat value := rfl

theorem digit_succ (value index : Nat) : digit value (index + 1) = digit (value / 0x100) index := by
  rw [digit, digit, Nat.mul_succ, Nat.add_comm, Nat.shiftRight_add,
    Nat.shiftRight_eq_div_pow value]

theorem testBit_digit (value index bit : Nat) :
    (digit value index).toNat.testBit bit =
      (decide (bit < 8) && value.testBit (8 * index + bit)) := by
  rw [digit, UInt8.toNat_ofNat', Nat.testBit_mod_two_pow, Nat.testBit_shiftRight]

/-- Two bytes with the same bits are equal. -/
theorem eq_of_testBit {left right : UInt8}
    (same : ∀ bit < 8, left.toNat.testBit bit = right.toNat.testBit bit) : left = right := by
  apply UInt8.toNat.inj
  apply Nat.eq_of_testBit_eq
  intro bit
  by_cases inside : bit < 8
  · exact same bit inside
  · have large (byte : UInt8) : byte.toNat < 2 ^ bit :=
      Nat.lt_of_lt_of_le byte.toNat_lt (Nat.pow_le_pow_right Nat.two_pos (Nat.not_lt.mp inside))
    rw [Nat.testBit_lt_two_pow (large left), Nat.testBit_lt_two_pow (large right)]

theorem getElem_toBytes {count value index : Nat} (inside : index < (toBytes count value).length) :
    (toBytes count value)[index] = digit value index := by
  induction count generalizing value index with
  | zero => cases inside
  | succ count ih =>
      cases index with
      | zero => rfl
      | succ index =>
          rw [digit_succ]
          exact ih _

/-- Two words with the same bytes are equal. -/
theorem eq_of_digit {left right : UInt32}
    (same : ∀ index < 4, digit left.toNat index = digit right.toNat index) : left = right := by
  have bytes : toBytes 4 left.toNat = toBytes 4 right.toNat := by
    apply List.ext_getElem (by rw [length_toBytes, length_toBytes])
    intro index inside _
    rw [length_toBytes] at inside
    rw [getElem_toBytes, getElem_toBytes, same index inside]
  have numbers := congrArg ofBytes bytes
  rw [ofBytes_toBytes, ofBytes_toBytes] at numbers
  have whole (word : UInt32) : word.toNat % capacity 4 = word.toNat :=
    Nat.mod_eq_of_lt word.toNat_lt
  rw [whole, whole] at numbers
  exact UInt32.toNat.inj numbers

/-- The bytes of the number that a list spells are those of the list. -/
theorem digit_ofBytes (bytes : List UInt8) (index : Nat) :
    digit (ofBytes bytes) index = bytes.getD index 0 := by
  induction bytes generalizing index with
  | nil => simp [ofBytes, digit]
  | cons byte bytes ih =>
      have small := byte.toNat_lt
      cases index with
      | zero =>
          apply UInt8.toNat.inj
          rw [digit_zero, UInt8.toNat_ofNat', ofBytes]
          simp only [List.getD_cons_zero]
          omega
      | succ index =>
          have high : (byte.toNat + 0x100 * ofBytes bytes) / 0x100 = ofBytes bytes := by omega
          rw [digit_succ, ofBytes, high, ih]
          rfl

/-- Reducing a number to a width keeps its bytes inside the width. -/
theorem digit_mask (width : Width) (value : Nat) {index : Nat} (inside : index < width.bytes) :
    digit (width.mask value) index = digit value index := by
  apply eq_of_testBit
  intro bit small
  have counted : 8 * index + bit < width.bits := by
    unfold Width.bits
    omega
  rw [testBit_digit, testBit_digit, width.testBit_mask value counted]

/-- A word has the bytes of the number that it is made of. -/
theorem digit_ofNat (value : Nat) {width : Width} {index : Nat} (inside : index < width.bytes) :
    digit (UInt32.ofNat value).toNat index = digit value index := by
  have few : index < Width.dword.bytes := Nat.lt_of_lt_of_le inside width.bytes_le
  rw [UInt32.toNat_ofNat']
  exact digit_mask .dword value few

/-- A number of a width has no bytes above the width. -/
theorem digit_of_lt {width : Width} {value index : Nat} (small : value < width.modulus)
    (above : width.bytes ≤ index) : digit value index = 0 := by
  have bits : width.bits ≤ 8 * index := Nat.mul_le_mul_left 8 above
  rw [width.modulus_eq, Nat.shiftLeft_eq, Nat.one_mul] at small
  have below := Nat.lt_of_lt_of_le small (Nat.pow_le_pow_right Nat.two_pos bits)
  rw [digit, Nat.shiftRight_eq_div_pow, Nat.div_eq_of_lt below]
  rfl

end LittleEndian

namespace Width

variable (width : Width) {bytes : List UInt8} (counted : bytes.length = width.bytes)

include counted

/-- As many bytes as an operand has spell a number of its width. -/
theorem ofBytes_lt : LittleEndian.ofBytes bytes < width.modulus := by
  rw [modulus_eq_capacity, ← counted]
  exact LittleEndian.ofBytes_lt bytes

theorem toNat_ofNat_ofBytes :
    (UInt32.ofNat (LittleEndian.ofBytes bytes)).toNat = LittleEndian.ofBytes bytes :=
  UInt32.toNat_ofNat_of_lt' (Nat.lt_of_lt_of_le (width.ofBytes_lt counted) width.modulus_le)

end Width

open LittleEndian (digit)

namespace Code

variable (code : Code) (position : Nat)

theorem toNat_number (width : Width) :
    (code.number position width).toNat =
      LittleEndian.ofBytes (code.bytes position width.bytes) :=
  width.toNat_ofNat_ofBytes (code.length_bytes position width.bytes)

theorem number_lt (width : Width) : (code.number position width).toNat < width.modulus := by
  rw [toNat_number]
  exact width.ofBytes_lt (code.length_bytes position width.bytes)

theorem getD_bytes {count offset : Nat} (inside : offset < count) :
    (code.bytes position count).getD offset 0 = code.byte (position + offset) := by
  induction count generalizing position offset with
  | zero => cases inside
  | succ count ih =>
      cases offset with
      | zero => rfl
      | succ offset =>
          have later := ih (position + 1) (Nat.lt_of_succ_lt_succ inside)
          rw [Nat.add_assoc, Nat.add_comm 1] at later
          exact later

/-- The bytes of a number in the code are the bytes of the code. -/
theorem digit_number {width : Width} {offset : Nat} (inside : offset < width.bytes) :
    digit (code.number position width).toNat offset = code.byte (position + offset) := by
  rw [toNat_number, LittleEndian.digit_ofBytes, getD_bytes code position inside]

/-- A number in the code has no bytes above its width. -/
theorem digit_number_of_le {width : Width} {offset : Nat} (above : width.bytes ≤ offset) :
    digit (code.number position width).toNat offset = 0 := by
  have past : (code.bytes position width.bytes).length ≤ offset := by
    rwa [length_bytes]
  rw [toNat_number, LittleEndian.digit_ofBytes, List.getD_eq_getElem?_getD,
    List.getElem?_eq_none past]
  rfl

end Code

/-- What lies in memory at an operand is a number of its width. -/
theorem Memory.read_lt (memory : Memory) (address : UInt32) (width : Width) :
    (memory.read address width).toNat < width.modulus := by
  rw [read_eq_number]
  exact Code.number_lt _ 0 width

theorem Memory.digit_read (memory : Memory) (address : UInt32) {width : Width} {offset : Nat}
    (inside : offset < width.bytes) :
    digit (memory.read address width).toNat offset =
      memory.readByte (address + UInt32.ofNat offset) := by
  rw [read_eq_number, Code.digit_number _ 0 inside, Nat.zero_add]
  rfl

/-! ## Registers -/

namespace RegisterCode

/-- The lowest byte of the part of a register that an operand sees. -/
def firstByte (code : RegisterCode) : Width → Nat
  | .byte => if code.val < 4 then 0 else 1
  | .word => 0
  | .dword => 0

theorem firstBit_eq (code : RegisterCode) (width : Width) :
    code.firstBit width = 8 * code.firstByte width := by
  cases width with
  | byte =>
      unfold firstBit firstByte
      dsimp only
      split <;> rfl
  | word | dword => rfl

theorem firstByte_add_bytes_le (code : RegisterCode) (width : Width) :
    code.firstByte width + width.bytes ≤ 4 := by
  have bits := code.firstBit_add_bits_le width
  rw [firstBit_eq, Width.bits] at bits
  omega

end RegisterCode

namespace Registers

/-- A byte of a register, counted from the lowest. -/
def byte (registers : Registers) (code : RegisterCode) (position : Nat) : UInt8 :=
  digit (registers.word code).toNat position

/-- Writing an operand changes exactly the bytes that the operand sees, to those of the value. -/
theorem byte_write (registers : Registers) (code : RegisterCode) (width : Width)
    (value : UInt32) (register : RegisterCode) (position : Nat) :
    (registers.write code width value).byte register position =
      if register = (code.slot width).1 ∧
          code.firstByte width ≤ position ∧ position < code.firstByte width + width.bytes then
        digit value.toNat (position - code.firstByte width)
      else registers.byte register position := by
  apply LittleEndian.eq_of_testBit
  intro bit small
  have seen : code.Sees width register (8 * position + bit) ↔
      register = (code.slot width).1 ∧
        code.firstByte width ≤ position ∧ position < code.firstByte width + width.bytes := by
    unfold RegisterCode.Sees
    rw [code.firstBit_eq width, Width.bits]
    apply and_congr_right
    intro _
    omega
  have written := registers.bit_write code width value register (8 * position + bit)
  simp only [Registers.bit, seen] at written
  simp only [byte, LittleEndian.testBit_digit, small, decide_true, Bool.true_and, written]
  split
  next inside =>
    have offset : 8 * position + bit - code.firstBit width =
        8 * (position - code.firstByte width) + bit := by
      rw [code.firstBit_eq width]
      omega
    rw [offset, LittleEndian.testBit_digit]
    simp [small]
  next => simp [LittleEndian.testBit_digit, small]

theorem digit_read (registers : Registers) (code : RegisterCode) {width : Width} {offset : Nat}
    (inside : offset < width.bytes) :
    digit (registers.read code width).toNat offset =
      registers.byte (code.slot width).1 (code.firstByte width + offset) := by
  have shifted (word : Nat) : word / (code.slot width).2 = word >>> (8 * code.firstByte width) := by
    rw [code.weight_slot width, code.firstBit_eq width, Nat.shiftLeft_eq, Nat.one_mul,
      Nat.shiftRight_eq_div_pow]
  simp only [read, shifted]
  rw [LittleEndian.digit_ofNat _ inside, LittleEndian.digit_mask width _ inside, byte, digit, digit,
    ← Nat.shiftRight_add, ← Nat.mul_add]

/-- The part of a register that an operand sees is a number of its width. -/
theorem read_lt (registers : Registers) (code : RegisterCode) (width : Width) :
    (registers.read code width).toNat < width.modulus := by
  simp only [read, UInt32.toNat_ofNat']
  exact Nat.lt_of_le_of_lt (Nat.mod_le _ _) (width.mask_lt _)

/-- What is written to a part of a register is read there, reduced to the width of the part. -/
theorem toNat_read_write (registers : Registers) (code : RegisterCode) (width : Width)
    (value : UInt32) :
    ((registers.write code width value).read code width).toNat = width.mask value.toNat := by
  have small := width.mask_lt value.toNat
  simp only [read, write, word_setWord, if_true, UInt32.toNat_ofNat']
  generalize width.mask value.toNat = field at small
  generalize (registers.word (code.slot width).1).toNat = word
  cases width with
  | byte =>
      unfold RegisterCode.slot
      dsimp only
      split <;> simp only [replaceField, Width.mask, Width.modulus] at small ⊢ <;> omega
  | word | dword =>
      simp only [RegisterCode.slot, replaceField, Width.mask, Width.modulus] at small ⊢
      omega

end Registers

/-! ## Cells -/

/-- The registers and the memory. -/
abbrev Storage := Registers × Memory

/-- A byte of a register, counted from the lowest, or a byte of the memory. -/
inductive Cell where
  | register (code : RegisterCode) (position : Nat)
  | memory (index : Nat)
  deriving DecidableEq, Repr

/-- What a cell holds. A register has four cells, and the memory has as many as it has bytes. -/
def Storage.byte? (storage : Storage) : Cell → Option UInt8
  | .register code position => if position < 4 then some (storage.1.byte code position) else none
  | .memory index => storage.2.bytes[index]?

/-- Registers and memories with the same cells are equal. -/
theorem Storage.eq_of_byte? {left right : Storage}
    (same : ∀ cell, Storage.byte? left cell = Storage.byte? right cell) : left = right := by
  have registers : left.1 = right.1 := by
    apply Registers.ext_word
    intro code
    apply LittleEndian.eq_of_digit
    intro position few
    have byte := same (.register code position)
    simp only [Storage.byte?, few, if_true, Option.some.injEq] at byte
    exact byte
  have memory : left.2 = right.2 := Memory.ext_bytes fun index => same (.memory index)
  exact Prod.ext registers memory

namespace Operand

/-- The cell of a byte of an operand, counted from the lowest. Addresses wrap around. -/
def cell (operand : Operand) (offset : Nat) : Cell :=
  match operand.location with
  | .register code =>
      .register (code.slot operand.width).1 (code.firstByte operand.width + offset)
  | .memory address => .memory (address + UInt32.ofNat offset).toNat

/-- A byte of an operand; zero where there is no cell. -/
def byte (operand : Operand) (storage : Storage) (offset : Nat) : UInt8 :=
  (Storage.byte? storage (operand.cell offset)).getD 0

/-- Storing in a cell what it holds changes nothing. -/
theorem map_byte (operand : Operand) (storage : Storage) (offset : Nat) :
    (Storage.byte? storage (operand.cell offset)).map (fun _ => operand.byte storage offset) =
      Storage.byte? storage (operand.cell offset) := by
  unfold byte
  cases Storage.byte? storage (operand.cell offset) <;> rfl

theorem value_lt (operand : Operand) (registers : Registers) (memory : Memory) :
    (operand.value registers memory).toNat < operand.width.modulus := by
  cases operand with
  | mk location width =>
      cases location with
      | register code => exact registers.read_lt code width
      | memory address => exact memory.read_lt address width

/-- The value of an operand is spelled by its bytes. -/
theorem digit_value (operand : Operand) (registers : Registers) (memory : Memory) {offset : Nat}
    (inside : offset < operand.width.bytes) :
    digit (operand.value registers memory).toNat offset =
      operand.byte (registers, memory) offset := by
  cases operand with
  | mk location width =>
      cases location with
      | register code =>
          have bound := code.firstByte_add_bytes_le width
          have few : code.firstByte width + offset < 4 := by
            have counted : offset < width.bytes := inside
            omega
          rw [value, registers.digit_read code inside]
          simp only [byte, cell, Storage.byte?, few, if_true, Option.getD_some]
      | memory address =>
          rw [value, memory.digit_read address inside, Memory.readByte,
            Array.getD_eq_getD_getElem?]
          rfl

end Operand

/-- Some bytes are stored in the cells of an operand, if there is one, as far as there are such
cells. Every other cell holds what it held. -/
structure Stores (place? : Option Operand) (byte : Nat → UInt8) (before after : Storage) :
    Prop where
  inside : ∀ place, place? = some place → ∀ offset < place.width.bytes,
    Storage.byte? after (place.cell offset) =
      (Storage.byte? before (place.cell offset)).map fun _ => byte offset
  outside : ∀ cell, (∀ place, place? = some place → ∀ offset < place.width.bytes,
      place.cell offset ≠ cell) →
    Storage.byte? after cell = Storage.byte? before cell

theorem Registers.stores_write (registers : Registers) (memory : Memory) (code : RegisterCode)
    (width : Width) (value : UInt32) :
    Stores (some (.register code width)) (digit value.toNat) (registers, memory)
      (registers.write code width value, memory) := by
  have bound := code.firstByte_add_bytes_le width
  refine ⟨?inside, ?outside⟩
  case inside =>
    rintro _ ⟨⟩ offset inside
    have counted : offset < width.bytes := inside
    have few : code.firstByte width + offset < 4 := by omega
    have seen : code.firstByte width ≤ code.firstByte width + offset ∧
        code.firstByte width + offset < code.firstByte width + width.bytes := by
      omega
    simp only [Operand.cell, Operand.register, Storage.byte?, few, if_true, Registers.byte_write,
      seen, and_self, Nat.add_sub_cancel_left, Option.map_some]
  case outside =>
    intro cell apart
    cases cell with
    | memory index => rfl
    | register register position =>
        have unseen : ¬(register = (code.slot width).1 ∧ code.firstByte width ≤ position ∧
            position < code.firstByte width + width.bytes) := by
          rintro ⟨rfl, first, last⟩
          have found : code.firstByte width + (position - code.firstByte width) = position := by
            omega
          apply apart _ rfl (position - code.firstByte width) (show _ < width.bytes by omega)
          simp only [Operand.cell, Operand.register, found]
        simp only [Storage.byte?, Registers.byte_write, unseen, if_false]

theorem Memory.stores_write (registers : Registers) (memory : Memory) (address : UInt32)
    (width : Width) (value : UInt32) :
    Stores (some (.memory address width)) (digit value.toNat) (registers, memory)
      (registers, memory.write address width value) := by
  refine ⟨?inside, ?outside⟩
  case inside =>
    rintro _ ⟨⟩ offset inside
    have counted : offset < (LittleEndian.toBytes width.bytes value.toNat).length := by
      rwa [LittleEndian.length_toBytes]
    have few : (LittleEndian.toBytes width.bytes value.toNat).length ≤ 0x100000000 := by
      rw [LittleEndian.length_toBytes]
      cases width <;> decide
    have stored := memory.getElem?_writeBytes_inside address few counted
    rwa [LittleEndian.getElem_toBytes] at stored
  case outside =>
    intro cell apart
    cases cell with
    | register register position => rfl
    | memory index =>
        apply memory.write_sameOutside address width value
        rintro ⟨offset, inside, rfl⟩
        exact apart _ rfl offset inside rfl

/-- Storing a value in an operand stores the bytes of the value in its cells. -/
theorem Operand.stores_put (operand : Operand) (value : UInt32) (registers : Registers)
    (memory : Memory) :
    Stores (some operand) (digit value.toNat) (registers, memory)
      (operand.put value registers memory) := by
  cases operand with
  | mk location width =>
      cases location with
      | register code => exact registers.stores_write memory code width value
      | memory address => exact memory.stores_write registers address width value

namespace Stores

variable {place? : Option Operand} {byte other : Nat → UInt8} {before after : Storage}

/-- Only the bytes of the operand matter. -/
theorem congr (stores : Stores place? byte before after)
    (same : ∀ place, place? = some place → ∀ offset < place.width.bytes,
      byte offset = other offset) : Stores place? other before after := by
  refine ⟨?inside, stores.outside⟩
  intro place target offset inside
  rw [stores.inside place target offset inside, same place target offset inside]

/-- A cell that holds the same before the same bytes are stored holds the same afterwards. -/
theorem byte?_congr {left right left' right' : Storage} (first : Stores place? byte left left')
    (second : Stores place? byte right right') {cell : Cell}
    (same : Storage.byte? left cell = Storage.byte? right cell) :
    Storage.byte? left' cell = Storage.byte? right' cell := by
  by_cases target : ∃ place, place? = some place ∧ ∃ offset < place.width.bytes,
      place.cell offset = cell
  · rcases target with ⟨place, target, offset, inside, rfl⟩
    rw [first.inside place target offset inside, second.inside place target offset inside, same]
  · have apart : ∀ place, place? = some place → ∀ offset < place.width.bytes,
        place.cell offset ≠ cell :=
      fun place target' offset inside found =>
        target ⟨place, target', offset, inside, found⟩
    rw [first.outside cell apart, second.outside cell apart, same]

/-- What is stored, and where, decides what the registers and the memory hold afterwards. -/
theorem unique {left right : Storage} (first : Stores place? byte before left)
    (second : Stores place? byte before right) : left = right :=
  Storage.eq_of_byte? fun _ => first.byte?_congr second rfl

/-- A cell that an operand does not have holds what it held when the operand is stored to. -/
theorem byte?_of_ne {place : Operand} (stores : Stores (some place) byte before after)
    {cell : Cell} (away : ∀ offset < place.width.bytes, place.cell offset ≠ cell) :
    Storage.byte? after cell = Storage.byte? before cell := by
  apply stores.outside
  rintro _ ⟨⟩
  exact away

/-- Without an operand nothing changes. -/
theorem none (byte : Nat → UInt8) (storage : Storage) : Stores none byte storage storage :=
  ⟨nofun, fun _ _ => rfl⟩

end Stores

/-- An instruction stores its word. -/
theorem Instruction.stores_effect (instruction : Instruction) (cpu : Cpu) (memory : Memory) :
    let effect := instruction.effect cpu memory
    Stores instruction.target? (digit effect.word.toNat) (cpu.registers, memory)
      (effect.cpu.registers, effect.memory) := by
  intro effect
  have stored : (effect.cpu.registers, effect.memory) = _ := instruction.putWord_effect cpu memory
  rw [stored, putWord]
  cases target : instruction.target? with
  | none => exact .none _ _
  | some place => exact place.stores_put ..

end Ia32
