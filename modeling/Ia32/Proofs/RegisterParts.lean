import Ia32.Proofs.Blocks
import Ia32.Proofs.Moves

/-!
# Parts of registers

Operands share cells with each other: a doubleword has the word of the same register in it, and
this has the two lowest bytes, of which the upper one goes by a code of its own. What an operand
holds is told by its cells, so storing in operands that have none in common can be done in either
order, and storing in an operand erases what was stored in one whose cells it has, too. In the
registers every cell is there, so that what was stored is always read back.
-/

namespace Ia32

open LittleEndian (digit)

/-! ## Cells in common -/

namespace Operand

/-- Two operands have no cell in common. -/
def Apart (left right : Operand) : Prop :=
  ∀ offset < left.width.bytes, ∀ position < right.width.bytes,
    left.cell offset ≠ right.cell position

/-- An operand has all the cells of another one. -/
def Encloses (wide narrow : Operand) : Prop :=
  ∀ offset < narrow.width.bytes, ∃ position < wide.width.bytes,
    wide.cell position = narrow.cell offset

instance (left right : Operand) : Decidable (left.Apart right) :=
  inferInstanceAs (Decidable (∀ _ < _, ∀ _ < _, _))

instance (wide narrow : Operand) : Decidable (wide.Encloses narrow) :=
  inferInstanceAs (Decidable (∀ _ < _, ∃ _ < _, _))

/-- The cells of a part of a register. From the fourth code on, a byte is the second one of the
register four codes below, and not one of the register that goes by the code at the other widths. -/
theorem cell_register (code : RegisterCode) (width : Width) {offset : Nat}
    (inside : offset < width.bytes) :
    (register code width).cell offset =
      if width = .byte ∧ 4 ≤ code.val then .register (code - 4) 1 else .register code offset := by
  cases width with
  | byte =>
      have lowest : offset = 0 := Nat.lt_one_iff.mp inside
      by_cases low : code.val < 4
      · simp only [cell, register, RegisterCode.slot, RegisterCode.firstByte, low, if_true,
          Nat.not_le.mpr low, and_false, if_false, Nat.zero_add]
      · simp only [cell, register, RegisterCode.slot, RegisterCode.firstByte, low, if_false,
          Nat.not_lt.mp low, and_self, if_true, lowest]
  | word | dword =>
      simp only [cell, register, RegisterCode.slot, RegisterCode.firstByte, reduceCtorEq,
        false_and, if_false, Nat.zero_add]

variable (operand : Operand) (registers : Registers) (memory : Memory)

/-- The bytes of the value of an operand are those in its cells. -/
theorem toBytes_value :
    LittleEndian.toBytes operand.width.bytes (operand.value registers memory).toNat =
      (List.range operand.width.bytes).map (operand.byte (registers, memory)) := by
  rw [← LittleEndian.map_digit_range]
  apply List.map_congr_left
  intro offset inside
  exact operand.digit_value registers memory (List.mem_range.mp inside)

/-- The value of an operand is the sum of the bytes in its cells, each in its place. -/
theorem toNat_value :
    (operand.value registers memory).toNat =
      LittleEndian.sum (operand.byte (registers, memory)) operand.width.bytes := by
  have small := operand.value_lt registers memory
  rw [Width.modulus_eq_capacity] at small
  rw [← LittleEndian.ofBytes_map_range, ← toBytes_value, LittleEndian.ofBytes_toBytes,
    Nat.mod_eq_of_lt small]

end Operand

namespace Stores

variable {place other : Operand} {byte later : Nat → UInt8} {before left right after : Storage}

/-- A cell of an operand apart from the one that is stored to holds what it held. -/
theorem byte?_of_apart (stores : Stores (some place) byte before after)
    (apart : place.Apart other) {position : Nat} (inside : position < other.width.bytes) :
    Storage.byte? after (other.cell position) = Storage.byte? before (other.cell position) :=
  stores.byte?_of_ne fun offset within => apart offset within position inside

/-- Storing in an operand keeps the values of those apart from it. -/
theorem value_of_apart (stores : Stores (some place) byte before after)
    (apart : place.Apart other) :
    other.value after.1 after.2 = other.value before.1 before.2 := by
  apply UInt32.toNat.inj
  rw [other.toNat_value, other.toNat_value, ← LittleEndian.ofBytes_map_range,
    ← LittleEndian.ofBytes_map_range]
  congr 1
  apply List.map_congr_left
  intro position inside
  rw [Operand.byte, Operand.byte, stores.byte?_of_apart apart (List.mem_range.mp inside)]

/-- Storing in two operands apart from each other comes to the same in either order. -/
theorem comm {leftAfter rightAfter : Storage} (first : Stores (some place) byte before left)
    (second : Stores (some other) later left leftAfter)
    (second' : Stores (some other) later before right)
    (first' : Stores (some place) byte right rightAfter) (apart : place.Apart other) :
    leftAfter = rightAfter := by
  apply Storage.eq_of_byte?
  intro cell
  by_cases shared : ∃ position < other.width.bytes, other.cell position = cell
  · -- The cell is away from the place, so only the bytes for the other operand matter.
    rcases shared with ⟨position, inside, rfl⟩
    rw [first'.byte?_of_apart apart inside]
    exact second.byte?_congr second' (first.byte?_of_apart apart inside)
  · have away : ∀ position < other.width.bytes, other.cell position ≠ cell :=
      fun position inside found => shared ⟨position, inside, found⟩
    rw [second.byte?_of_ne away]
    exact first.byte?_congr first' (second'.byte?_of_ne away).symm

/-- Storing makes no cell and takes none away. -/
theorem map_byte? (stores : Stores (some place) byte before after) (cell : Cell) (held : UInt8) :
    (Storage.byte? after cell).map (fun _ => held) =
      (Storage.byte? before cell).map fun _ => held := by
  by_cases target : ∃ offset < place.width.bytes, place.cell offset = cell
  · rcases target with ⟨offset, inside, rfl⟩
    rw [stores.inside place rfl offset inside, Option.map_map]
    rfl
  · rw [stores.byte?_of_ne fun offset inside found => target ⟨offset, inside, found⟩]

/-- Storing in an operand erases what was stored in one that it encloses. -/
theorem of_encloses (first : Stores (some place) byte before left)
    (second : Stores (some other) later left after) (encloses : other.Encloses place) :
    Stores (some other) later before after := by
  refine ⟨?inside, ?outside⟩
  case inside =>
    rintro _ ⟨⟩ position inside
    rw [second.inside other rfl position inside, first.map_byte?]
  case outside =>
    intro cell away
    rw [second.outside cell away]
    apply first.byte?_of_ne
    rintro offset inside rfl
    rcases encloses offset inside with ⟨position, within, found⟩
    exact away other rfl position within found

/-- Storing the bytes that an operand holds changes nothing. -/
theorem self (place : Operand) (storage : Storage) :
    Stores (some place) (place.byte storage) storage storage := by
  refine ⟨?inside, fun _ _ => rfl⟩
  rintro _ ⟨⟩ offset _
  exact (place.map_byte storage offset).symm

/-- Storing the value that an operand has changes nothing. -/
theorem eq_of_value {registers : Registers} {memory : Memory}
    (stores : Stores (some place) (digit (place.value registers memory).toNat)
      (registers, memory) after) : after = (registers, memory) := by
  have bytes : Stores (some place) (place.byte (registers, memory)) (registers, memory) after := by
    apply stores.congr
    rintro _ ⟨⟩ offset inside
    exact place.digit_value registers memory inside
  exact bytes.unique (.self place _)

end Stores

/-! ## Registers -/

theorem Width.ofBytes?_eq_none {count : Nat} (unfit : count ∉ [1, 2, 4]) :
    ofBytes? count = none := by
  unfold ofBytes?
  split <;> simp_all

namespace Registers

variable (registers : Registers) (code other : RegisterCode) (width wide : Width)
  (value later : UInt32)

/-- Writing a part of a register beside a memory without cells. -/
theorem stores_write_empty :
    Stores (some (.register code width)) (digit value.toNat) (registers, { bytes := #[] })
      (registers.write code width value, { bytes := #[] }) :=
  registers.stores_write _ code width value

section

variable {code other width wide}

theorem read_write_of_apart (apart : (Operand.register code width).Apart (.register other wide)) :
    (registers.write code width value).read other wide = registers.read other wide :=
  (registers.stores_write_empty code width value).value_of_apart apart

theorem write_comm (apart : (Operand.register code width).Apart (.register other wide)) :
    (registers.write code width value).write other wide later =
      (registers.write other wide later).write code width value := by
  have first := registers.stores_write_empty code width value
  have second := (registers.write code width value).stores_write_empty other wide later
  have second' := registers.stores_write_empty other wide later
  have first' := (registers.write other wide later).stores_write_empty code width value
  exact congrArg Prod.fst (first.comm second second' first' apart)

theorem write_write_of_encloses
    (encloses : (Operand.register other wide).Encloses (.register code width)) :
    (registers.write code width value).write other wide later =
      registers.write other wide later := by
  have first := registers.stores_write_empty code width value
  have second := (registers.write code width value).stores_write_empty other wide later
  have alone := registers.stores_write_empty other wide later
  exact congrArg Prod.fst ((first.of_encloses second encloses).unique alone)

end

/-- Writing what is read changes nothing. -/
theorem write_read : registers.write code width (registers.read code width) = registers := by
  have written := registers.stores_write_empty code width (registers.read code width)
  exact congrArg Prod.fst (Stores.eq_of_value written)

/-- Storing as many bytes as an operand has is writing the number that they spell. -/
theorem store_of_length {bytes : List UInt8} (counted : bytes.length = width.bytes) :
    registers.store code bytes =
      .ok (registers.write code width (UInt32.ofNat (LittleEndian.ofBytes bytes))) := by
  rw [store, counted, Width.ofBytes?_bytes]

theorem store_of_not_mem {bytes : List UInt8} (unfit : bytes.length ∉ [1, 2, 4]) :
    registers.store code bytes = .error (.registerWriteLength bytes.length) := by
  rw [store, Width.ofBytes?_eq_none unfit]

/-- Bytes that are stored in a part of a register are loaded from there. -/
theorem load_write_ofBytes {bytes : List UInt8} (counted : bytes.length = width.bytes) :
    (registers.write code width (UInt32.ofNat (LittleEndian.ofBytes bytes))).load code width =
      bytes := by
  rw [load, toNat_read_write, width.toNat_ofNat_ofBytes counted,
    Width.mask_of_lt (width.ofBytes_lt counted), ← counted, LittleEndian.toBytes_ofBytes]

/-- Storing the bytes that are loaded changes nothing. -/
theorem store_load : registers.store code (registers.load code width) = .ok registers := by
  have counted : (registers.load code width).length = width.bytes :=
    LittleEndian.length_toBytes ..
  have small := registers.read_lt code width
  rw [Width.modulus_eq_capacity] at small
  rw [registers.store_of_length code width counted, load, LittleEndian.ofBytes_toBytes,
    Nat.mod_eq_of_lt small, UInt32.ofNat_toNat, write_read]

end Registers

/-! ## Accesses -/

namespace Exec

/-- For every part of a register, which a byte names with its three lowest bits. The second byte of
a register is the byte-sized part with the code that is four higher; every other part begins with
the lowest byte of its register. Writing a number puts its bytes in the cells of the part and
changes nothing else, reading gives the number that the cells spell, and loading gives their bytes.
So a number is read back, reduced to the width of the part. A write keeps what is read from a part
that has no cell in common with it, comes to the same before and after a write there, and is erased
by a later write to a part that encloses it. Storing as many bytes as an operand has is writing the
number that they spell, and the same bytes are loaded back; storing what was loaded changes nothing;
any other number of bytes is refused, and nothing changes. -/
theorem register_accesses_exact (core : Core) (index : UInt8) (width : Width)
    (value : UInt32) :
    let code := RegisterCode.ofByte index
    let part := Operand.register code width
    let write := writeRegister code width value
    let written := (write.run core).2
    let number := (readRegister code width).run core
    let bytes := (loadRegister code width).run core
    (code.val = index.toNat % 8 ∧
      ∀ offset < width.bytes, part.cell offset =
        if width = .byte ∧ 4 ≤ code.val then .register (code - 4) 1
        else .register code offset) ∧
    (Stores (some part) (digit value.toNat) core.storage written.storage ∧
      written.cpu.eip = core.cpu.eip ∧ written.cpu.flags = core.cpu.flags) ∧
    (number.1.toNat = LittleEndian.sum (part.byte core.storage) width.bytes ∧
      number.2 = core) ∧
    (bytes.1 = (List.range width.bytes).map (part.byte core.storage) ∧ bytes.2 = core) ∧
    ((readRegister code width).run written).1.toNat = value.toNat % width.modulus ∧
    (∀ (other : UInt8) (wide : Width),
      let otherCode := RegisterCode.ofByte other
      let otherPart := Operand.register otherCode wide
      let read := readRegister otherCode wide
      (part.Apart otherPart → (read.run written).1 = (read.run core).1) ∧
      ∀ later : UInt32,
        let again := writeRegister otherCode wide later
        (part.Apart otherPart → (again.run written).2 = (write.run (again.run core).2).2) ∧
        (otherPart.Encloses part → (again.run written).2 = (again.run core).2)) ∧
    (∀ (image : List UInt8) (wide : Width), image.length = wide.bytes →
      let stored := (storeRegister code image).run core
      ∃ spelled : UInt32, spelled.toNat = LittleEndian.ofBytes image ∧
        stored = (.ok (), ((writeRegister code wide spelled).run core).2) ∧
        ((loadRegister code wide).run stored.2).1 = image) ∧
    (storeRegister code bytes.1).run bytes.2 = (.ok (), core) ∧
    ∀ image : List UInt8, image.length ∉ [1, 2, 4] →
      (storeRegister code image).run core =
        (.error (.registerWriteLength image.length), core) := by
  intro code part write written number bytes
  refine ⟨⟨rfl, ?cells⟩, ⟨?write, rfl, rfl⟩, ⟨?read, rfl⟩, ⟨?load, rfl⟩, ?back, ?pairs, ?store,
    ?unchanged, ?refused⟩
  case cells =>
    intro offset inside
    exact Operand.cell_register code width inside
  case write => exact core.cpu.registers.stores_write core.memory code width value
  case read => exact part.toNat_value core.cpu.registers core.memory
  case load => exact part.toBytes_value core.cpu.registers core.memory
  case back => exact core.cpu.registers.toNat_read_write code width value
  case pairs =>
    intro other wide otherCode otherPart read
    refine ⟨?kept, ?later⟩
    case kept => exact core.cpu.registers.read_write_of_apart value
    case later =>
      intro later again
      refine ⟨?commute, ?erase⟩
      case commute =>
        intro apart
        simp only [again, write, written, run_writeRegister,
          core.cpu.registers.write_comm value later apart]
      case erase =>
        intro encloses
        simp only [again, write, written, run_writeRegister,
          core.cpu.registers.write_write_of_encloses value later encloses]
  case store =>
    intro image wide counted stored
    have storing : stored = _ :=
      run_storeRegister_of_ok core (core.cpu.registers.store_of_length code wide counted)
    refine ⟨_, wide.toNat_ofNat_ofBytes counted, storing, ?loaded⟩
    rw [storing]
    exact core.cpu.registers.load_write_ofBytes code wide counted
  case unchanged => exact run_storeRegister_of_ok core (core.cpu.registers.store_load code width)
  case refused =>
    intro image unfit
    exact run_storeRegister_of_error core (core.cpu.registers.store_of_not_mem code unfit)

/-- The upper one of the two low bytes of the accumulator, which is apart from the stack pointer
with the same code and is enclosed by the low word of the accumulator. -/
theorem register_accesses_exact_halves :
    let registers := Registers.zero.setWord .accumulator 0x12345678
    let core := Core.start { Cpu.reset with registers } { bytes := #[] }
    let code := RegisterCode.ofByte 0xFC
    let part := Operand.register code .byte
    let written := ((writeRegister code .byte 0x1AB).run core).2
    let stackPointer := readRegister (RegisterCode.ofByte 4) .dword
    let again := writeRegister (RegisterCode.ofByte 0) .word 0xCDEF
    let image : List UInt8 := [0xEE]
    let unfit : List UInt8 := [1, 2, 3]
    written.cpu.registers.word .accumulator = 0x1234AB78 ∧
      part.Apart (.register (RegisterCode.ofByte 4) .dword) ∧
      (stackPointer.run written).1 = (stackPointer.run core).1 ∧
      (Operand.register (RegisterCode.ofByte 0) .word).Encloses part ∧
      (again.run written).2 = (again.run core).2 ∧
      image.length = Width.byte.bytes ∧
      ((loadRegister code .byte).run ((storeRegister code image).run core).2).1 = image ∧
      unfit.length ∉ [1, 2, 4] ∧
      (storeRegister code unfit).run core = (.error (.registerWriteLength 3), core) := by
  intro registers core code part written stackPointer again image unfit
  have apart : part.Apart (.register (RegisterCode.ofByte 4) .dword) := by decide
  have encloses : (Operand.register (RegisterCode.ofByte 0) .word).Encloses part := by decide
  have counted : image.length = Width.byte.bytes := rfl
  have refused : unfit.length ∉ [1, 2, 4] := by decide
  obtain ⟨_, _, _, _, _, pairs, stores, _, refuses⟩ :=
    register_accesses_exact core 0xFC .byte 0x1AB
  have kept := (pairs 4 .dword).1 apart
  have erased := ((pairs 0 .word).2 0xCDEF).2 encloses
  obtain ⟨_, _, _, loaded⟩ := stores image .byte counted
  exact ⟨by decide, apart, kept, encloses, erased, counted, loaded, refused, refuses unfit refused⟩

end Exec

end Ia32
