import Ia32.Addressing
import Ia32.Form
import Ia32.Instruction

/-!
# Decoding

The code behind an opcode, read as the operands of a form. Decoding depends on the code and
on the registers that take part in addresses, and has no effect. It tells how many bytes it
looked at; a form that shares its opcode looks at the extension before any immediate value.
-/

namespace Ia32

/-- What some code means to a form, and the number of bytes that tell so. -/
inductive Decoded where
  | instruction (instruction : Instruction) (length : Nat)
  /-- The code carries the extension of another operation. -/
  | declined (extension : Extension) (length : Nat)
  deriving DecidableEq, Repr

/-- The number of bytes that were looked at. -/
def Decoded.length : Decoded → Nat
  | .instruction _ length => length
  | .declined _ length => length

namespace Form

/-- Accept operands that carry the given extension. An immediate value of `tail` bytes
follows them. -/
def decodeGroup (extension : Extension) (operands : AddressedOperands)
    (instruction : Instruction) (tail : Nat) : Decoded :=
  if operands.field = extension then
    .instruction instruction (operands.length + tail)
  else
    .declined operands.field operands.length

/-- The immediate value at a position. -/
def immediate (code : Code) (position : Nat) (width : Width) : Source :=
  .immediate width (code.number position width)

/-- Read the code behind an opcode as the operands of a form. -/
def decode (form : Form Width) (opcode : UInt8) (registers : Registers) (code : Code) :
    Decoded :=
  match form with
  | .moveRegisterImmediate width =>
      .instruction
        (.move (.register (RegisterCode.ofByte opcode) width) (immediate code 0 width))
        width.bytes
  | .movePlaceImmediate width =>
      let operands := AddressedOperands.ofCode registers code width
      decodeGroup moveExtension operands
        (.move operands.place (immediate code operands.length width)) width.bytes
  | .movePlaceRegister width =>
      let operands := AddressedOperands.ofCode registers code width
      .instruction (.move operands.place (.operand (.register operands.field width)))
        operands.length
  | .moveRegisterPlace width =>
      let operands := AddressedOperands.ofCode registers code width
      .instruction (.move (.register operands.field width) (.operand operands.place))
        operands.length
  | .loadAccumulator width =>
      .instruction (.loadAccumulator width (code.number 0 .dword)) Width.dword.bytes
  | .storeAccumulator width =>
      .instruction (.storeAccumulator width (code.number 0 .dword)) Width.dword.bytes
  | .binaryAccumulatorImmediate op width =>
      .instruction (.binary op (.accumulator width) (immediate code 0 width)) width.bytes
  | .binaryPlaceImmediate op width immediateWidth =>
      let operands := AddressedOperands.ofCode registers code width
      decodeGroup op.extension operands
        (.binary op operands.place (immediate code operands.length immediateWidth))
        immediateWidth.bytes
  | .binaryPlaceRegister op width =>
      let operands := AddressedOperands.ofCode registers code width
      .instruction (.binary op operands.place (.operand (.register operands.field width)))
        operands.length
  | .binaryRegisterPlace op width =>
      let operands := AddressedOperands.ofCode registers code width
      .instruction (.toRegister op (.register operands.field width) operands.place)
        operands.length
  | .unary op width =>
      let operands := AddressedOperands.ofCode registers code width
      decodeGroup op.extension operands (.unary op operands.place) 0
  | .jump width => .instruction (.jump width (code.number 0 width)) width.bytes

end Form

end Ia32
