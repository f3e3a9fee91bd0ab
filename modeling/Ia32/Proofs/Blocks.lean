import Ia32.Proofs.Cells

/-!
# Blocks of memory

A block is a row of bytes at consecutive addresses, which wrap around. What is stored in a block is
found in its bytes as far as the memory reaches, and no other byte changes. What is read from a
block is what its bytes spell, with zeros for those above the memory. So a number is read back as
far as there was room for it, and two numbers in blocks that do not meet can be stored in either
order.
-/

namespace Ia32

open LittleEndian (digit)

/-! ## Rows of bytes -/

namespace LittleEndian

theorem ofBytes_append_singleton (bytes : List UInt8) (byte : UInt8) :
    ofBytes (bytes ++ [byte]) = ofBytes bytes + byte.toNat <<< (8 * bytes.length) := by
  induction bytes with
  | nil => exact Nat.add_comm ..
  | cons first bytes ih =>
      have moved : byte.toNat <<< (8 * (bytes.length + 1)) =
          0x100 * byte.toNat <<< (8 * bytes.length) := by
        rw [Nat.mul_succ, Nat.shiftLeft_add, Nat.shiftLeft_eq _ 8, Nat.mul_comm]
      rw [List.cons_append, ofBytes, ih, List.length_cons, moved, ofBytes]
      omega

/-- The sum of some bytes, each multiplied by the power of `0x100` that belongs to its offset. -/
def sum (byte : Nat → UInt8) : (count : Nat) → Nat
  | 0 => 0
  | count + 1 => sum byte count + (byte count).toNat <<< (8 * count)

/-- The number that bytes spell is the sum of the bytes in their places. -/
theorem ofBytes_map_range (byte : Nat → UInt8) (count : Nat) :
    ofBytes ((List.range count).map byte) = sum byte count := by
  induction count with
  | zero => rfl
  | succ count ih =>
      rw [List.range_succ, List.map_append, List.map_singleton, ofBytes_append_singleton, ih,
        List.length_map, List.length_range, sum]

/-- The lowest bytes of a number, one after the other. -/
theorem map_digit_range (count value : Nat) :
    (List.range count).map (digit value) = toBytes count value := by
  apply List.ext_getElem (by rw [List.length_map, List.length_range, length_toBytes])
  intro offset _ inside
  rw [List.getElem_map, List.getElem_range, getElem_toBytes]

end LittleEndian

namespace Memory

/-- Some bytes are put into the block of `count` bytes from an address onwards, as far as the
memory reaches. Every other byte stays. -/
structure Receives (before : Memory) (start : UInt32) (count : Nat) (byte : Nat → UInt8)
    (after : Memory) : Prop where
  size : after.size = before.size
  inside : ∀ offset < count,
    after.bytes[(start + UInt32.ofNat offset).toNat]? =
      before.bytes[(start + UInt32.ofNat offset).toNat]?.map fun _ => byte offset
  outside : ∀ index, ¬InBlock start count index → after.bytes[index]? = before.bytes[index]?

variable (memory : Memory) (address : UInt32)

/-! ## Storing -/

theorem receives_writeBytes {values : List UInt8} (few : values.length ≤ 0x100000000) :
    memory.Receives address values.length (fun offset => values.getD offset 0)
      (memory.writeBytes address values) where
  size := memory.size_writeBytes address values
  inside offset within := by
    have found : values.getD offset 0 = values[offset] := by
      rw [List.getD_eq_getElem?_getD, List.getElem?_eq_getElem within, Option.getD_some]
    rw [found]
    exact memory.getElem?_writeBytes_inside address few within
  outside := memory.writeBytes_sameOutside address values

theorem write_eq_writeBytes (width : Width) (value : UInt32) :
    memory.write address width value =
      memory.writeBytes address ((List.range width.bytes).map (digit value.toNat)) := by
  rw [write, LittleEndian.map_digit_range]

theorem receives_write (width : Width) (value : UInt32) :
    memory.Receives address width.bytes (digit value.toNat)
      (memory.write address width value) where
  size := memory.size_write address width value
  inside := by
    have stored := (memory.stores_write .zero address width value).inside _ rfl
    exact stored
  outside := memory.write_sameOutside address width value

/-- Bytes in blocks that do not meet can be stored in either order. -/
theorem writeBytes_comm {other : UInt32} {values later : List UInt8}
    (apart : ∀ index, InBlock address values.length index → ¬InBlock other later.length index) :
    (memory.writeBytes address values).writeBytes other later =
      (memory.writeBytes other later).writeBytes address values := by
  apply ext_bytes
  intro index
  by_cases inside : InBlock address values.length index
  · have unchanged := memory.writeBytes_sameOutside other later index (apart index inside)
    rw [writeBytes_sameOutside _ _ _ _ (apart index inside)]
    exact (getElem?_writeBytes_congr unchanged address values).symm
  · have unchanged := memory.writeBytes_sameOutside address values index inside
    rw [writeBytes_sameOutside _ address values _ inside]
    exact getElem?_writeBytes_congr unchanged other later

theorem write_comm {other : UInt32} {width wide : Width} (value later : UInt32)
    (apart : ∀ index, InBlock address width.bytes index → ¬InBlock other wide.bytes index) :
    (memory.write address width value).write other wide later =
      (memory.write other wide later).write address width value := by
  apply writeBytes_comm
  rwa [LittleEndian.length_toBytes, LittleEndian.length_toBytes]

/-! ## Reading -/

/-- The byte of a block at an offset from its start; zero above the memory. -/
theorem readByte_eq_getD (address : UInt32) :
    memory.readByte address = memory.bytes[address.toNat]?.getD 0 :=
  Array.getD_eq_getD_getElem? ..

theorem readBytes_eq_map (count : Nat) :
    memory.readBytes address count =
      (List.range count).map fun offset => memory.readByte (address + UInt32.ofNat offset) := by
  induction count generalizing address with
  | zero => rfl
  | succ count ih =>
      rw [List.range_succ_eq_map, List.map_cons, List.map_map, readBytes, ih, add_ofNat_zero]
      simp only [add_one_add_ofNat, Function.comp_def]

/-- The number in a block is the one that its bytes spell. -/
theorem toNat_read (width : Width) :
    (memory.read address width).toNat =
      LittleEndian.ofBytes (memory.readBytes address width.bytes) := by
  rw [read_eq_number, Code.toNat_number, bytes_codeAt, add_ofNat_zero]

/-- A number has no bytes above its width. -/
theorem digit_read_of_le {width : Width} {offset : Nat} (above : width.bytes ≤ offset) :
    digit (memory.read address width).toNat offset = 0 := by
  rw [read_eq_number, Code.digit_number_of_le _ 0 above]

/-! ## Reading what was stored, and storing what was read -/

/-- Storing a byte where it was read changes nothing. -/
theorem writeByte_readByte : memory.writeByte address (memory.readByte address) = memory := by
  apply ext_bytes
  intro index
  rw [getElem?_writeByte, readByte_eq_getD]
  split
  next here =>
    rw [← here]
    cases memory.bytes[address.toNat]? <;> rfl
  next => rfl

theorem writeBytes_readBytes (count : Nat) :
    memory.writeBytes address (memory.readBytes address count) = memory := by
  induction count generalizing address with
  | zero => rfl
  | succ count ih => rw [readBytes, writeBytes, writeByte_readByte, ih]

/-- A number is read back as far as the memory reaches. -/
theorem digit_read_write (width : Width) (value : UInt32) (offset : Nat) :
    digit ((memory.write address width value).read address width).toNat offset =
      if offset < width.bytes ∧ memory.Maps (address + UInt32.ofNat offset) then
        digit value.toNat offset
      else 0 := by
  by_cases inside : offset < width.bytes
  · rw [digit_read _ _ inside, readByte_eq_getD, (memory.receives_write ..).inside offset inside]
    by_cases mapped : memory.Maps (address + UInt32.ofNat offset)
    · have held : (address + UInt32.ofNat offset).toNat < memory.bytes.size := mapped
      simp only [Array.getElem?_eq_getElem held, Option.map_some, Option.getD_some, inside,
        mapped, and_self, if_true]
    · have above : memory.bytes.size ≤ (address + UInt32.ofNat offset).toNat :=
        Nat.not_lt.mp mapped
      simp only [Array.getElem?_eq_none above, Option.map_none, Option.getD_none, mapped,
        and_false, if_false]
  · rw [digit_read_of_le _ _ (Nat.not_lt.mp inside), if_neg fun both => inside both.1]

end Memory

/-! ## Accesses -/

namespace Exec

/-- For a memory of any size and a block anywhere in it, above it or around the end of the address
space, storing a number puts the bytes of the number into the block and storing a list of bytes
puts those of the list there, as far as the memory reaches, and nothing else changes. Reading a
number gives the sum of the bytes in the block, each in its place, with zeros for those above the
memory. So storing a number is storing its bytes, and a number that is read is spelled by the bytes
that are read; storing these changes nothing; a number that was stored is read back with zeros for
the bytes that found no room; and numbers in blocks that do not meet can be stored in either
order. -/
theorem memory_accesses_exact (core : Core) (address : UInt32) (width : Width)
    (value : UInt32) :
    let held (offset : Nat) := core.memory.bytes[(address + UInt32.ofNat offset).toNat]?.getD 0
    let storing (image : List UInt8) := ((writeBytes address image).run core).2
    let written := ((writeMemory address width value).run core).2
    let bytes := (readBytes address width.bytes).run core
    let number := (readMemory address width).run core
    let restored := ((writeBytes address bytes.1).run bytes.2).2
    (core.memory.Receives address width.bytes (digit value.toNat) written.memory ∧
      written.cpu = core.cpu) ∧
    (∀ image : List UInt8, image.length ≤ 0x100000000 →
      core.memory.Receives address image.length (fun offset => image.getD offset 0)
        (storing image).memory ∧ (storing image).cpu = core.cpu) ∧
    (number.1.toNat = LittleEndian.sum held width.bytes ∧
      number.2.memory = core.memory ∧ number.2.cpu = core.cpu) ∧
    written = storing ((List.range width.bytes).map (digit value.toNat)) ∧
    (bytes.1 = (List.range width.bytes).map held ∧
      bytes.2.memory = core.memory ∧ bytes.2.cpu = core.cpu ∧
      number.1.toNat = LittleEndian.ofBytes bytes.1) ∧
    (restored.memory = core.memory ∧ restored.cpu = core.cpu) ∧
    (∀ offset < 4, digit ((readMemory address width).run written).1.toNat offset =
      if offset < width.bytes ∧ core.memory.Maps (address + UInt32.ofNat offset) then
        digit value.toNat offset
      else 0) ∧
    ∀ (other : UInt32) (wide : Width) (later : UInt32),
      (∀ index, Memory.InBlock address width.bytes index →
        ¬Memory.InBlock other wide.bytes index) →
      let first := ((writeMemory other wide later).run written).2
      let second :=
        ((writeMemory address width value).run ((writeMemory other wide later).run core).2).2
      first.memory = second.memory ∧ first.cpu = second.cpu := by
  intro held storing written bytes number restored
  have gathered : bytes.1 = (List.range width.bytes).map held := by
    simp only [bytes, run_readBytes, Memory.readBytes_eq_map, Memory.readByte_eq_getD, held]
  have spelled : number.1.toNat = LittleEndian.ofBytes bytes.1 := by
    simp only [number, bytes, run_readMemory, run_readBytes, Memory.toNat_read]
  have stored (image : List UInt8) :
      (storing image).memory = core.memory.writeBytes address image ∧
        (storing image).cpu = core.cpu := by
    simp only [storing, run_writeBytes, Core.cpu_record, and_self]
  have same : written = storing ((List.range width.bytes).map (digit value.toNat)) := by
    simp only [written, storing, writeMemory, LittleEndian.map_digit_range]
  refine ⟨?write, ?set, ?read, same, ?get, ?unchanged, ?back, ?commute⟩
  case write =>
    rw [same, (stored _).1, (stored _).2, ← Memory.write_eq_writeBytes]
    exact ⟨core.memory.receives_write address width value, rfl⟩
  case set =>
    intro image few
    rw [(stored image).1, (stored image).2]
    exact ⟨core.memory.receives_writeBytes address few, rfl⟩
  case read =>
    refine ⟨?sum, ?bytesKept, ?cpuKept⟩
    case sum => rw [spelled, gathered, LittleEndian.ofBytes_map_range]
    case bytesKept => simp only [number, run_readMemory, Core.memory_record]
    case cpuKept => simp only [number, run_readMemory, Core.cpu_record]
  case get =>
    refine ⟨gathered, ?bytesKept, ?cpuKept, spelled⟩
    case bytesKept => simp only [bytes, run_readBytes, Core.memory_record]
    case cpuKept => simp only [bytes, run_readBytes, Core.cpu_record]
  case unchanged =>
    simp only [restored, bytes, run_readBytes, run_writeBytes, Core.memory_record,
      Core.cpu_record, Memory.writeBytes_readBytes, and_self]
  case back =>
    intro offset _
    simp only [written, run_readMemory, run_writeMemory, Memory.digit_read_write]
  case commute =>
    intro other wide later apart first second
    simp only [first, second, written, run_writeMemory, Core.cpu_record, and_true]
    exact core.memory.write_comm address value later apart

/-- A block that starts above a memory of three bytes and ends in it. -/
theorem memory_accesses_exact_wrapping :
    let core := Core.start .reset { bytes := #[1, 2, 3] }
    let number := writeMemory 0xFFFFFFFE .dword 0x44332211
    let byte := writeMemory 2 .byte 0x99
    let written := (number.run core).2
    let image : List UInt8 := [0x11, 0x22, 0x33, 0x44]
    written.memory.bytes = #[0x33, 0x44, 3] ∧
      image.length ≤ 0x100000000 ∧
      ((writeBytes 0xFFFFFFFE image).run core).2.memory.bytes[1]? = some 0x44 ∧
      (∀ offset < 4, digit ((readMemory 0xFFFFFFFE .dword).run written).1.toNat offset =
        [0, 0, 0x33, 0x44].getD offset 0) ∧
      (∀ index, Memory.InBlock 0xFFFFFFFE Width.dword.bytes index →
        ¬Memory.InBlock 2 Width.byte.bytes index) ∧
      (byte.run written).2.memory = (number.run (byte.run core).2).2.memory := by
  intro core number byte written image
  have apart : ∀ index, Memory.InBlock 0xFFFFFFFE Width.dword.bytes index →
      ¬Memory.InBlock 2 Width.byte.bytes index := by
    rintro _ ⟨first, inFirst, rfl⟩ ⟨second, inSecond, found⟩
    have distinct : ∀ first < 4, ∀ second < 1,
        ((2 : UInt32) + UInt32.ofNat second).toNat ≠
          ((0xFFFFFFFE : UInt32) + UInt32.ofNat first).toNat := by
      decide
    exact distinct first inFirst second inSecond found
  have accesses := memory_accesses_exact core 0xFFFFFFFE .dword 0x44332211
  rcases accesses with ⟨-, set, -, -, -, -, back, commute⟩
  have few : image.length ≤ 0x100000000 := by decide
  refine ⟨by decide +kernel, few, ?set, ?back, apart, (commute 2 .byte 0x99 apart).1⟩
  case set =>
    have last := (set image few).1.inside 3 (by decide)
    exact last
  case back =>
    intro offset small
    rw [back offset small]
    revert offset
    decide +kernel

end Exec

end Ia32
