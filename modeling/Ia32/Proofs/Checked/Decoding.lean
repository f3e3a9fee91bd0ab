import Ia32.Decoding
import Ia32.Proofs.Checked.Storage
import Ia32.Proofs.Layout

/-!
# Decoding in machine words

The operands of a form, with the fields of the addressing bytes, the scaled index, the signed
distance and the immediate values computed in machine words. Nothing stops, and what is decoded is
what is decoded without bounds.
-/

namespace Ia32

theorem Registers.read_dword (registers : Registers) (code : RegisterCode) :
    registers.read code .dword = registers.word code := by
  have whole : (registers.word code).toNat % 0x100000000 = (registers.word code).toNat :=
    Nat.mod_eq_of_lt (UInt32.toNat_lt _)
  simp only [read, RegisterCode.slot, Nat.div_one, Width.mask, Width.modulus, whole,
    UInt32.ofNat_toNat]

def Code.checkedNumber (code : Code) (position : Nat) (width : Width) : Checked UInt32 := do
  return UInt32.ofNat (← LittleEndian.checkedJoin (code.bytes position width.bytes) 0 0)

@[simp] theorem Code.checkedNumber_eq (code : Code) (position : Nat) (width : Width) :
    code.checkedNumber position width = pure (code.number position width) := by
  rw [checkedNumber, LittleEndian.checkedJoin_start (code.length_bytes position width.bytes),
    pure_bind]
  rfl

/-- Cut a byte into its fields by shifts and conjunctions. -/
def ByteFields.checkedOfByte (byte : UInt8) : Checked ByteFields := do
  let top ← WordSize.eight.shiftRight byte.toNat 6
  let middle ← WordSize.eight.shiftRight byte.toNat 3
  return {
    top := Fin.ofNat 4 top
    middle := Fin.ofNat 8 (middle &&& 0x07)
    bottom := Fin.ofNat 8 (byte.toNat &&& 0x07) }

@[simp] theorem ByteFields.checkedOfByte_eq (byte : UInt8) :
    checkedOfByte byte = pure (ofByte byte) := by
  have low (value : Nat) : Fin.ofNat 8 (value &&& 0x07) = Fin.ofNat 8 value := by
    apply Fin.ext
    rw [Fin.val_ofNat, Fin.val_ofNat, Nat.and_two_pow_sub_one_eq_mod value 3]
    exact Nat.mod_mod_of_dvd value (Nat.dvd_refl 8)
  simp only [checkedOfByte, WordSize.shiftRight_eq (show 6 < WordSize.eight.bits by decide),
    WordSize.shiftRight_eq (show 3 < WordSize.eight.bits by decide), pure_bind, low,
    Nat.shiftRight_eq_div_pow]
  rfl

namespace Addressing

variable (registers : Registers) (code : Code) (position : Nat) (mode : Fin 4) (field : Fin 8)

def checkedBase : Checked Part :=
  if field = 5 ∧ mode = 0 then do
    return { value := ← code.checkedNumber position .dword, length := Width.dword.bytes }
  else do
    return { value := ← registers.checkedRead field .dword, length := 0 }

/-- The register that a field names, scaled; the field 4 names none. -/
def checkedIndex (scale : Fin 4) : Checked UInt32 :=
  if field = 4 then
    return 0
  else do
    let index ← registers.checkedRead field .dword
    return UInt32.ofNat (← WordSize.thirtyTwo.shiftLeft index.toNat scale.val)

def checkedScaledIndex : Checked Part := do
  let fields ← ByteFields.checkedOfByte (code.byte position)
  let index ← checkedIndex registers fields.middle fields.top
  let base ← checkedBase registers code (position + 1) mode fields.bottom
  return { value := base.value + index, length := 1 + base.length }

def checkedDisplacement : Checked Part :=
  if mode = 1 then do
    let value ← Width.dword.checkedSignExtend .byte (code.byte position).toNat
    return { value := UInt32.ofNat value, length := 1 }
  else if mode = 2 then do
    return { value := ← code.checkedNumber position .dword, length := Width.dword.bytes }
  else
    return { value := 0, length := 0 }

def checkedAddress : Checked Part := do
  let base ←
    if field = 4 then checkedScaledIndex registers code position mode
    else checkedBase registers code position mode field
  let displacement ← checkedDisplacement code (position + base.length) mode
  return { value := base.value + displacement.value, length := base.length + displacement.length }

@[simp] theorem checkedBase_eq :
    checkedBase registers code position mode field =
      pure (base registers code position mode field) := by
  simp only [checkedBase, base, Code.checkedNumber_eq, Registers.checkedRead_eq,
    Registers.read_dword, pure_bind]
  split <;> rfl

/-- A register is shifted by three places at most. -/
@[simp] theorem checkedIndex_eq (scale : Fin 4) :
    checkedIndex registers field scale =
      pure ((if field = 4 then 0 else registers.word field) <<< UInt32.ofNat scale.val) := by
  have few : scale.val < 32 := Nat.lt_trans scale.isLt (by decide)
  have places : (UInt32.ofNat scale.val).toNat % 32 = scale.val := by
    rw [UInt32.toNat_ofNat']
    omega
  have shifted (index : UInt32) : WordSize.thirtyTwo.shiftLeft index.toNat scale.val =
      pure (index <<< UInt32.ofNat scale.val).toNat := by
    rw [UInt32.toNat_shiftLeft, places]
    exact if_pos few
  simp only [checkedIndex, Registers.checkedRead_eq, Registers.read_dword, pure_bind, shifted,
    UInt32.ofNat_toNat]
  split
  · rw [UInt32.zero_shiftLeft]
  · rfl

@[simp] theorem checkedScaledIndex_eq :
    checkedScaledIndex registers code position mode =
      pure (scaledIndex registers code position mode) := by
  simp only [checkedScaledIndex, ByteFields.checkedOfByte_eq, checkedIndex_eq, checkedBase_eq,
    pure_bind, scaledIndex]

@[simp] theorem checkedDisplacement_eq :
    checkedDisplacement code position mode = pure (displacement code position mode) := by
  simp only [checkedDisplacement, displacement, Code.checkedNumber_eq,
    Width.checkedSignExtend_eq, pure_bind]
  split
  · rfl
  · split <;> rfl

@[simp] theorem checkedAddress_eq :
    checkedAddress registers code position mode field =
      pure (address registers code position mode field) := by
  simp only [checkedAddress, address, checkedScaledIndex_eq, checkedBase_eq,
    checkedDisplacement_eq, pure_bind]
  split <;> rfl

end Addressing

section

variable (registers : Registers) (code : Code) (width : Width)

def AddressedOperands.checkedOfCode : Checked AddressedOperands := do
  let fields ← ByteFields.checkedOfByte (code.byte 0)
  if fields.top = 3 then
    return { place := .register fields.bottom width, field := fields.middle, length := 1 }
  else
    let address ← Addressing.checkedAddress registers code 1 fields.top fields.bottom
    return {
      place := .memory address.value width
      field := fields.middle
      length := 1 + address.length }

@[simp] theorem AddressedOperands.checkedOfCode_eq :
    checkedOfCode registers code width = pure (ofCode registers code width) := by
  simp only [checkedOfCode, ofCode, ByteFields.checkedOfByte_eq, Addressing.checkedAddress_eq,
    pure_bind]
  split <;> rfl

end

namespace Form

/-- Accept operands that carry the given extension. The immediate value of `tail` bytes that
follows them is read only then. -/
def checkedDecodeGroup (extension : Extension) (operands : AddressedOperands)
    (instruction : Checked Instruction) (tail : Nat) : Checked Decoded :=
  if operands.field = extension then do
    return .instruction (← instruction) (operands.length + tail)
  else
    return .declined operands.field operands.length

def checkedImmediate (code : Code) (position : Nat) (width : Width) : Checked Source := do
  return .immediate width (← code.checkedNumber position width)

def checkedDecode (form : Form Width) (opcode : UInt8) (registers : Registers) (code : Code) :
    Checked Decoded :=
  match form with
  | .moveRegisterImmediate width => do
      let source ← checkedImmediate code 0 width
      return .instruction (.move (.register (RegisterCode.ofByte opcode) width) source)
        width.bytes
  | .movePlaceImmediate width => do
      let operands ← AddressedOperands.checkedOfCode registers code width
      checkedDecodeGroup moveExtension operands
        (return .move operands.place (← checkedImmediate code operands.length width)) width.bytes
  | .movePlaceRegister width => do
      let operands ← AddressedOperands.checkedOfCode registers code width
      return .instruction (.move operands.place (.operand (.register operands.field width)))
        operands.length
  | .moveRegisterPlace width => do
      let operands ← AddressedOperands.checkedOfCode registers code width
      return .instruction (.move (.register operands.field width) (.operand operands.place))
        operands.length
  | .loadAccumulator width => do
      return .instruction (.loadAccumulator width (← code.checkedNumber 0 .dword))
        Width.dword.bytes
  | .storeAccumulator width => do
      return .instruction (.storeAccumulator width (← code.checkedNumber 0 .dword))
        Width.dword.bytes
  | .binaryAccumulatorImmediate op width => do
      return .instruction (.binary op (.accumulator width) (← checkedImmediate code 0 width))
        width.bytes
  | .binaryPlaceImmediate op width immediateWidth => do
      let operands ← AddressedOperands.checkedOfCode registers code width
      checkedDecodeGroup op.extension operands
        (return .binary op operands.place
          (← checkedImmediate code operands.length immediateWidth))
        immediateWidth.bytes
  | .binaryPlaceRegister op width => do
      let operands ← AddressedOperands.checkedOfCode registers code width
      return .instruction (.binary op operands.place (.operand (.register operands.field width)))
        operands.length
  | .binaryRegisterPlace op width => do
      let operands ← AddressedOperands.checkedOfCode registers code width
      return .instruction (.toRegister op (.register operands.field width) operands.place)
        operands.length
  | .unary op width => do
      let operands ← AddressedOperands.checkedOfCode registers code width
      checkedDecodeGroup op.extension operands (return .unary op operands.place) 0
  | .jump width => do
      return .instruction (.jump width (← code.checkedNumber 0 width)) width.bytes

@[simp] theorem checkedDecodeGroup_eq (extension : Extension) (operands : AddressedOperands)
    (instruction : Instruction) (tail : Nat) :
    checkedDecodeGroup extension operands (pure instruction) tail =
      pure (decodeGroup extension operands instruction tail) := by
  simp only [checkedDecodeGroup, decodeGroup, pure_bind]
  split <;> rfl

@[simp] theorem checkedImmediate_eq (code : Code) (position : Nat) (width : Width) :
    checkedImmediate code position width = pure (immediate code position width) := by
  simp only [checkedImmediate, Code.checkedNumber_eq, pure_bind, immediate]

/-- Decoding in machine words never stops. -/
@[simp] theorem checkedDecode_eq (form : Form Width) (opcode : UInt8) (registers : Registers)
    (code : Code) :
    form.checkedDecode opcode registers code = pure (form.decode opcode registers code) := by
  cases form <;>
    simp only [checkedDecode, decode, AddressedOperands.checkedOfCode_eq, Code.checkedNumber_eq,
      checkedImmediate_eq, checkedDecodeGroup_eq, pure_bind]

end Form

end Ia32
