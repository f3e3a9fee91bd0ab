import Ia32.Error
import Ia32.Width

/-!
# General registers

Eight registers of thirty-two bits, named by three-bit codes. An operand of a given width
sees a part of one of them: a word or a doubleword is the low part of the register with its
code, and a byte is the lowest byte of registers 0 to 3 for the codes 0 to 3 and their
second byte for the codes 4 to 7.
-/

namespace Ia32

/-- The code of a general register in an instruction. -/
abbrev RegisterCode := Fin 8

/-- The numbers below eight include zero, so every number names one of them. -/
instance eightNeZero : @NeZero Nat Zero.ofOfNat0 8 := ⟨by decide⟩

namespace RegisterCode

/-- The code in the lowest three bits of a byte. -/
def ofByte (byte : UInt8) : RegisterCode :=
  Fin.ofNat 8 byte.toNat

/-- The accumulator: `eax`, or its low part. -/
def accumulator : RegisterCode := 0

/-- The stack pointer, `esp`. -/
def stackPointer : RegisterCode := 4

/-- All codes in ascending order. -/
def all : List RegisterCode :=
  [0, 1, 2, 3, 4, 5, 6, 7]

/-- The name of the part of a register that an operand sees. -/
def name (code : RegisterCode) : Width → String
  | .byte => #v["al", "cl", "dl", "bl", "ah", "ch", "dh", "bh"].get code
  | .word => #v["ax", "cx", "dx", "bx", "sp", "bp", "si", "di"].get code
  | .dword => #v["eax", "ecx", "edx", "ebx", "esp", "ebp", "esi", "edi"].get code

/-- The register that an operand belongs to, and the weight of the operand's lowest bit
in it. -/
def slot (code : RegisterCode) : Width → RegisterCode × Nat
  | .byte => if code.val < 4 then (code, 1) else (code - 4, 0x100)
  | .word => (code, 1)
  | .dword => (code, 1)

end RegisterCode

/-- The contents of the eight general registers. -/
structure Registers where
  words : Vector UInt32 8
  deriving DecidableEq, Repr

namespace Registers

def zero : Registers :=
  { words := Vector.replicate 8 0 }

/-- The whole register with the given code. -/
def word (registers : Registers) (code : RegisterCode) : UInt32 :=
  registers.words.get code

def setWord (registers : Registers) (code : RegisterCode) (value : UInt32) : Registers :=
  { words := registers.words.set code value code.isLt }

/-- The part of a register that an operand sees. -/
def read (registers : Registers) (code : RegisterCode) (width : Width) : UInt32 :=
  let (register, weight) := code.slot width
  UInt32.ofNat (width.mask ((registers.word register).toNat / weight))

/-- Put `field` in place of the `modulus`-sized digit of `word` that has the given weight. -/
def replaceField (word weight modulus field : Nat) : Nat :=
  word / (weight * modulus) * (weight * modulus) + field * weight + word % weight

/-- Store the low part of `value` into the part of a register that an operand sees; the
rest of the register stays. -/
def write (registers : Registers) (code : RegisterCode) (width : Width) (value : UInt32) :
    Registers :=
  let (register, weight) := code.slot width
  let old := (registers.word register).toNat
  registers.setWord register
    (UInt32.ofNat (replaceField old weight width.modulus (width.mask value.toNat)))

/-- The bytes of the part of a register that an operand sees, least significant first. -/
def load (registers : Registers) (code : RegisterCode) (width : Width) : List UInt8 :=
  LittleEndian.toBytes width.bytes (registers.read code width).toNat

/-- Store a list of bytes, least significant first. Its length chooses the width. -/
def store (registers : Registers) (code : RegisterCode) (bytes : List UInt8) :
    Except Fault Registers :=
  match Width.ofBytes? bytes.length with
  | some width => .ok (registers.write code width (UInt32.ofNat (LittleEndian.ofBytes bytes)))
  | none => .error (.registerWriteLength bytes.length)

@[simp] theorem word_setWord (registers : Registers) (code other : RegisterCode)
    (value : UInt32) :
    (registers.setWord code value).word other =
      if other = code then value else registers.word other := by
  change (registers.words.set code value code.isLt)[other.val] =
    if other = code then value else registers.words[other.val]
  simp only [Vector.getElem_set, Fin.ext_iff, eq_comm]

@[simp] theorem word_zero (code : RegisterCode) : zero.word code = 0 := by
  change (Vector.replicate 8 (0 : UInt32))[code.val] = 0
  exact Vector.getElem_replicate code.isLt

/-- Two register files are equal when every register holds the same word. -/
theorem ext_word {left right : Registers} (equal : ∀ code, left.word code = right.word code) :
    left = right := by
  obtain ⟨left⟩ := left
  obtain ⟨right⟩ := right
  congr 1
  apply Vector.ext
  intro index small
  exact equal ⟨index, small⟩

end Registers

end Ia32
