import Ia32.Memory
import Ia32.Registers

/-!
# Operands, code and addressing modes

An operand is a place of a given width: a part of a register, or the bytes at a memory
address. Code is what the bytes of a memory look like from an address onwards: an unending
sequence of bytes, which wraps around with the addresses and is zero where nothing is stored.
Decoding works on code alone and knows nothing of where it lies.

The byte behind an opcode holds a two-bit mode and two three-bit fields. Mode 3 names two
registers. In the other modes the lower field names a base register, and the mode tells the
displacement that follows: none, a signed byte, or a doubleword.

* In mode 0 the base 5 stands for a doubleword in the code and no register.
* The base 4 stands for a further byte of the same shape: its fields are a scale, an index
  register, where 4 means none, and a base register, where in mode 0 again 5 means a
  doubleword in the code.

Addresses wrap around at thirty-two bits.
-/

namespace Ia32

/-! ## Operands -/

/-- Where an operand lives. -/
inductive Location where
  | register (code : RegisterCode)
  | memory (address : UInt32)
  deriving DecidableEq, Repr

/-- A place that an instruction reads or writes. -/
structure Operand where
  location : Location
  width : Width
  deriving DecidableEq, Repr

namespace Operand

def register (code : RegisterCode) (width : Width) : Operand :=
  { location := .register code, width }

def memory (address : UInt32) (width : Width) : Operand :=
  { location := .memory address, width }

/-- The part of the accumulator that an operand of the given width sees. -/
def accumulator (width : Width) : Operand :=
  register .accumulator width

/-- The text of an operand: the name of a register part, or the width and the address. -/
def render (operand : Operand) : String :=
  match operand.location with
  | .register code => code.name operand.width
  | .memory address =>
      s!"m{operand.width.bits}[" ++ Text.Hexadecimal.word address ++ "]"

end Operand

/-! ## Code -/

/-- The bytes from some address onwards. -/
structure Code where
  byte : (position : Nat) → UInt8

namespace Code

/-- The `count` bytes from a position onwards. -/
def bytes (code : Code) (position : Nat) : (count : Nat) → List UInt8
  | 0 => []
  | count + 1 => code.byte position :: code.bytes (position + 1) count

/-- The little-endian number at a position. -/
def number (code : Code) (position : Nat) (width : Width) : UInt32 :=
  UInt32.ofNat (LittleEndian.ofBytes (code.bytes position width.bytes))

theorem length_bytes (code : Code) (position count : Nat) :
    (code.bytes position count).length = count := by
  induction count generalizing position with
  | zero => rfl
  | succ count ih => rw [bytes, List.length_cons, ih]

end Code

/-- The code from an address onwards. -/
def Memory.codeAt (memory : Memory) (address : UInt32) : Code :=
  { byte := fun position => memory.readByte (address + UInt32.ofNat position) }

/-- The code at an address holds the bytes of the memory there. -/
theorem Memory.bytes_codeAt (memory : Memory) (address : UInt32) (position count : Nat) :
    (memory.codeAt address).bytes position count =
      memory.readBytes (address + UInt32.ofNat position) count := by
  induction count generalizing position with
  | zero => rfl
  | succ count ih =>
      have next : address + UInt32.ofNat (position + 1) =
          address + UInt32.ofNat position + 1 := by
        rw [UInt32.ofNat_add, UInt32.add_assoc]
        rfl
      simp only [Code.bytes, Memory.readBytes, ih, next]
      rfl

/-- A number in the code is the number that the memory holds there. -/
theorem Memory.number_codeAt (memory : Memory) (address : UInt32) (position : Nat)
    (width : Width) :
    (memory.codeAt address).number position width =
      memory.read (address + UInt32.ofNat position) width := by
  simp only [Code.number, Memory.read, bytes_codeAt]

/-- A number in memory is the one that the code there starts with. -/
theorem Memory.read_eq_number (memory : Memory) (address : UInt32) (width : Width) :
    memory.read address width = (memory.codeAt address).number 0 width := by
  rw [number_codeAt, add_ofNat_zero]

/-! ## Addressing modes -/

/-- A byte cut into a field of two bits and two fields of three bits. -/
structure ByteFields where
  top : Fin 4
  middle : Fin 8
  bottom : Fin 8
  deriving DecidableEq, Repr

def ByteFields.ofByte (byte : UInt8) : ByteFields :=
  { top := Fin.ofNat 4 (byte.toNat / 64)
    middle := Fin.ofNat 8 (byte.toNat / 8)
    bottom := Fin.ofNat 8 byte.toNat }

namespace Addressing

/-- A part of an address, and the number of code bytes that it takes up. -/
structure Part where
  value : UInt32
  length : Nat
  deriving DecidableEq, Repr

/-- A base: the register of a field or, for the field 5 in mode 0, a doubleword in the
code. -/
def base (registers : Registers) (code : Code) (position : Nat) (mode : Fin 4)
    (field : Fin 8) : Part :=
  if field = 5 ∧ mode = 0 then
    { value := code.number position .dword, length := Width.dword.bytes }
  else
    { value := registers.word field, length := 0 }

/-- The sum of a base and a scaled index, both named by the byte at a position. -/
def scaledIndex (registers : Registers) (code : Code) (position : Nat) (mode : Fin 4) : Part :=
  let fields := ByteFields.ofByte (code.byte position)
  let base := base registers code (position + 1) mode fields.bottom
  let index := if fields.middle = 4 then 0 else registers.word fields.middle
  { value := base.value + (index <<< UInt32.ofNat fields.top.val)
    length := 1 + base.length }

/-- The displacement that a mode adds to the base. -/
def displacement (code : Code) (position : Nat) (mode : Fin 4) : Part :=
  if mode = 1 then
    { value := UInt32.ofNat (Width.dword.signExtend .byte (code.byte position).toNat)
      length := 1 }
  else if mode = 2 then
    { value := code.number position .dword, length := Width.dword.bytes }
  else
    { value := 0, length := 0 }

/-- The memory address that a mode below 3 and a lower field name. -/
def address (registers : Registers) (code : Code) (position : Nat) (mode : Fin 4)
    (field : Fin 8) : Part :=
  let base :=
    if field = 4 then scaledIndex registers code position mode
    else base registers code position mode field
  let displacement := displacement code (position + base.length) mode
  { value := base.value + displacement.value
    length := base.length + displacement.length }

end Addressing

/-- The two operands that an addressing byte names, and the number of code bytes that name
them. The second operand is a register or, where an opcode is shared, the extension that
selects the operation. -/
structure AddressedOperands where
  place : Operand
  field : Fin 8
  length : Nat
  deriving DecidableEq, Repr

/-- The operands named at the start of some code. -/
def AddressedOperands.ofCode (registers : Registers) (code : Code) (width : Width) :
    AddressedOperands :=
  let fields := ByteFields.ofByte (code.byte 0)
  if fields.top = 3 then
    { place := .register fields.bottom width, field := fields.middle, length := 1 }
  else
    let address := Addressing.address registers code 1 fields.top fields.bottom
    { place := .memory address.value width
      field := fields.middle
      length := 1 + address.length }

end Ia32
