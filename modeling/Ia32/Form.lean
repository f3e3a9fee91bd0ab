import Ia32.Operation

/-!
# Instruction forms

A form tells how the bytes behind an opcode are laid out and which operation they stand for.
In the opcode map a form carries operand sizes, which become widths once it is known whether
an operand-size byte stood in front of the opcode. Reading the bytes of a form gives an
instruction. The forms that share an opcode look at the extension first: a form whose
extension is not there declines, and the instruction pointer is back where it was.

The opcode map lists the forms that each opcode stands for, in the order in which they are
tried. An opcode that several operations share lists one form for each of their extensions, in
ascending order; every other opcode has one form or none.
-/

namespace Ia32

/-- The size of an operand in the opcode map. -/
inductive OperandSize where
  /-- One byte. -/
  | byte
  /-- A word or a doubleword, as the operand-size byte tells. -/
  | full
  deriving DecidableEq, Repr

namespace OperandSize

/-- The width of an operand when full operands have the given width. -/
def resolve (full : Width) : OperandSize → Width
  | .byte => .byte
  | .full => full

def title : OperandSize → String
  | .byte => "Byte"
  | .full => "Full"

end OperandSize

/-- The layout and the operation of an instruction, with operand sizes of type `size`. -/
inductive Form (size : Type) where
  /-- Move an immediate value to the register in the low bits of the opcode. -/
  | moveRegisterImmediate (operand : size)
  /-- Move an immediate value to an addressed place; the extension is zero. -/
  | movePlaceImmediate (operand : size)
  /-- Move a register to an addressed place. -/
  | movePlaceRegister (operand : size)
  /-- Move an addressed place to a register. -/
  | moveRegisterPlace (operand : size)
  /-- Move the bytes at an address in the code to the accumulator. -/
  | loadAccumulator (operand : size)
  /-- Move the accumulator to an address in the code. -/
  | storeAccumulator (operand : size)
  /-- Combine the accumulator with an immediate value. -/
  | binaryAccumulatorImmediate (op : BinaryOp) (operand : size)
  /-- Combine an addressed place with an immediate value, which may be narrower. -/
  | binaryPlaceImmediate (op : BinaryOp) (operand immediate : size)
  /-- Combine an addressed place with a register and store the result in the place. -/
  | binaryPlaceRegister (op : BinaryOp) (operand : size)
  /-- Combine an addressed place with a register and store the result in the register. -/
  | binaryRegisterPlace (op : BinaryOp) (operand : size)
  /-- Apply an operation to an addressed place. -/
  | unary (op : UnaryOp) (operand : size)
  /-- Jump by a signed distance. -/
  | jump (operand : size)
  deriving DecidableEq, Repr

namespace Form

/-- Replace the sizes of a form. -/
def map {size other : Type} (f : size → other) : Form size → Form other
  | .moveRegisterImmediate operand => .moveRegisterImmediate (f operand)
  | .movePlaceImmediate operand => .movePlaceImmediate (f operand)
  | .movePlaceRegister operand => .movePlaceRegister (f operand)
  | .moveRegisterPlace operand => .moveRegisterPlace (f operand)
  | .loadAccumulator operand => .loadAccumulator (f operand)
  | .storeAccumulator operand => .storeAccumulator (f operand)
  | .binaryAccumulatorImmediate op operand => .binaryAccumulatorImmediate op (f operand)
  | .binaryPlaceImmediate op operand immediate =>
      .binaryPlaceImmediate op (f operand) (f immediate)
  | .binaryPlaceRegister op operand => .binaryPlaceRegister op (f operand)
  | .binaryRegisterPlace op operand => .binaryRegisterPlace op (f operand)
  | .unary op operand => .unary op (f operand)
  | .jump operand => .jump (f operand)

/-- A form of the opcode map when full operands have the given width. -/
def resolve (full : Width) (form : Form OperandSize) : Form Width :=
  form.map (OperandSize.resolve full)

/-- The mnemonic of the instructions of a form. -/
def mnemonic {size : Type} : Form size → Mnemonic
  | .moveRegisterImmediate _ => .mov
  | .movePlaceImmediate _ => .mov
  | .movePlaceRegister _ => .mov
  | .moveRegisterPlace _ => .mov
  | .loadAccumulator _ => .mov
  | .storeAccumulator _ => .mov
  | .binaryAccumulatorImmediate op _ => op.mnemonic
  | .binaryPlaceImmediate op _ _ => op.mnemonic
  | .binaryPlaceRegister op _ => op.mnemonic
  | .binaryRegisterPlace op _ => op.mnemonic
  | .unary op _ => op.mnemonic
  | .jump _ => .jmp

/-- The extension that a form asks for, if it shares its opcode. -/
def extension? {size : Type} : Form size → Option Extension
  | .movePlaceImmediate _ => some moveExtension
  | .binaryPlaceImmediate op _ _ => some op.extension
  | .unary op _ => some op.extension
  | _ => none

/-- The text of a form: the layout with the operation and the sizes in parentheses. -/
def render (form : Form OperandSize) : String :=
  let call (layout : String) (arguments : List String) : String :=
    layout ++ "(" ++ ", ".intercalate arguments ++ ")"
  let binary (layout : String) (op : BinaryOp) (sizes : List OperandSize) : String :=
    call (op.family ++ layout) (op.mnemonic.title :: sizes.map OperandSize.title)
  match form with
  | .moveRegisterImmediate operand => call "MovRegImm" [operand.title]
  | .movePlaceImmediate operand => call "MovRmImm" [operand.title]
  | .movePlaceRegister operand => call "MovRmReg" [operand.title]
  | .moveRegisterPlace operand => call "MovRegRm" [operand.title]
  | .loadAccumulator operand => call "MovAccMoffs" [operand.title]
  | .storeAccumulator operand => call "MovMoffsAcc" [operand.title]
  | .binaryAccumulatorImmediate op operand => binary "AccImm" op [operand]
  | .binaryPlaceImmediate op operand immediate => binary "RmImm" op [operand, immediate]
  | .binaryPlaceRegister op operand => binary "RmReg" op [operand]
  | .binaryRegisterPlace op operand => binary "RegRm" op [operand]
  | .unary op operand => call "Unary" [op.mnemonic.title, operand.title]
  | .jump operand => call "JmpRel" [operand.title]

/-- Whether the immediate value of a form is no wider than the operand it is combined
with. -/
def ImmediateFits : Form Width → Prop
  | .binaryPlaceImmediate _ operand immediate => immediate.bytes ≤ operand.bytes
  | _ => True

instance : DecidablePred ImmediateFits
  | .binaryPlaceImmediate _ operand immediate =>
      inferInstanceAs (Decidable (immediate.bytes ≤ operand.bytes))
  | .moveRegisterImmediate _ => inferInstanceAs (Decidable True)
  | .movePlaceImmediate _ => inferInstanceAs (Decidable True)
  | .movePlaceRegister _ => inferInstanceAs (Decidable True)
  | .moveRegisterPlace _ => inferInstanceAs (Decidable True)
  | .loadAccumulator _ => inferInstanceAs (Decidable True)
  | .storeAccumulator _ => inferInstanceAs (Decidable True)
  | .binaryAccumulatorImmediate _ _ => inferInstanceAs (Decidable True)
  | .binaryPlaceRegister _ _ => inferInstanceAs (Decidable True)
  | .binaryRegisterPlace _ _ => inferInstanceAs (Decidable True)
  | .unary _ _ => inferInstanceAs (Decidable True)
  | .jump _ => inferInstanceAs (Decidable True)

end Form

/-! ## The opcode map -/

namespace OpcodeMap

/-- The byte in front of an opcode that makes full operands one word wide. -/
def operandSizeByte : UInt8 := 0x66

/-- The opcode that stops the machine. -/
def halt : UInt8 := 0xF4

/-- The size chosen by the lowest bit of an opcode: bytes where it is clear. -/
def sizeOfBit (opcode : Nat) : OperandSize :=
  if opcode % 2 = 0 then .byte else .full

/-- The forms below 0x40: each operation of the immediate group has eight opcodes, of which
the last two stand for nothing. -/
def binaryForms (opcode : Nat) : List (Form OperandSize) :=
  match BinaryOp.ofExtension? (Fin.ofNat 8 (opcode / 8)) with
  | none => []
  | some op =>
      match opcode % 8 with
      | 0 => [.binaryPlaceRegister op .byte]
      | 1 => [.binaryPlaceRegister op .full]
      | 2 => [.binaryRegisterPlace op .byte]
      | 3 => [.binaryRegisterPlace op .full]
      | 4 => [.binaryAccumulatorImmediate op .byte]
      | 5 => [.binaryAccumulatorImmediate op .full]
      | _ => []

/-- The operations on an addressed place and an immediate value that share an opcode. -/
def immediateGroup (operand immediate : OperandSize) : List (Form OperandSize) :=
  BinaryOp.immediateGroup.map fun op => .binaryPlaceImmediate op operand immediate

/-- The test with an immediate value shares its opcode with the unary operations. -/
def unaryGroup (operand : OperandSize) : List (Form OperandSize) :=
  .binaryPlaceImmediate (.bitwise .test) operand operand ::
    UnaryOp.all.map fun op => .unary op operand

/-- The forms of an opcode. -/
def forms (opcode : UInt8) : List (Form OperandSize) :=
  let code := opcode.toNat
  let size := sizeOfBit code
  if code < 0x40 then
    binaryForms code
  else if 0xB0 ≤ code ∧ code < 0xB8 then
    [.moveRegisterImmediate .byte]
  else if 0xB8 ≤ code ∧ code < 0xC0 then
    [.moveRegisterImmediate .full]
  else
    match code with
    | 0x80 => immediateGroup .byte .byte
    | 0x81 => immediateGroup .full .full
    | 0x83 => immediateGroup .full .byte
    | 0x84 | 0x85 => [.binaryPlaceRegister (.bitwise .test) size]
    | 0x88 | 0x89 => [.movePlaceRegister size]
    | 0x8A | 0x8B => [.moveRegisterPlace size]
    | 0xA0 | 0xA1 => [.loadAccumulator size]
    | 0xA2 | 0xA3 => [.storeAccumulator size]
    | 0xA8 | 0xA9 => [.binaryAccumulatorImmediate (.bitwise .test) size]
    | 0xC6 | 0xC7 => [.movePlaceImmediate size]
    | 0xE9 => [.jump .full]
    | 0xEB => [.jump .byte]
    | 0xF6 | 0xF7 => unaryGroup size
    | _ => []

end OpcodeMap

end Ia32
