import Ia32.Proofs.Reading

/-!
# Layouts of encodings

How many bytes an instruction takes up. The opcode, and for two opcodes the extension behind
it, tells whether an addressing byte follows and how many bytes stand at the end: an immediate
value, a distance or an address. The addressing byte tells the rest. Forms agree with this
listing, so decoding looks at exactly these bytes, and a length is told by the bytes that it
counts.
-/

namespace Ia32

/-- The numbers below four include zero, so every number names one of them. -/
instance fourNeZero : @NeZero Nat Zero.ofOfNat0 4 := ⟨by decide⟩

/-- What stands behind an opcode: an addressing byte with what belongs to it, or none, and a
number of bytes at the end. -/
structure Layout where
  addressed : Bool
  tail : Nat
  deriving DecidableEq, Repr

/-! ## Addressing bytes -/

namespace Code

/-- The number of bytes that an addressing byte stands for: itself, the byte of scale, index
and base behind it, and a displacement. -/
def addressingLength (code : Code) : Nat :=
  let fields := ByteFields.ofByte (code.byte 0)
  let scaled := ByteFields.ofByte (code.byte 1)
  1 + (if fields.top ≠ 3 ∧ fields.bottom = 4 then 1 else 0) +
    (if fields.top = 2 ∨ fields.top = 0 ∧ fields.bottom = 5 ∨
        fields.top = 0 ∧ fields.bottom = 4 ∧ scaled.bottom = 5 then 4 else 0) +
    (if fields.top = 1 then 1 else 0)

theorem addressingLength_bounds (code : Code) :
    1 ≤ code.addressingLength ∧ code.addressingLength ≤ 6 := by
  unfold addressingLength
  dsimp only
  grind

/-- The bytes that an addressing length counts tell the length. -/
theorem addressingLength_congr {left right : Code}
    (agree : ∀ position < left.addressingLength, right.byte position = left.byte position) :
    right.addressingLength = left.addressingLength := by
  have first := agree 0 left.addressingLength_bounds.1
  by_cases further : (ByteFields.ofByte (left.byte 0)).top ≠ 3 ∧
      (ByteFields.ofByte (left.byte 0)).bottom = 4
  · have counted : 1 < left.addressingLength := by
      simp only [addressingLength, further, ne_eq, not_false_eq_true, and_self, if_true]
      omega
    simp only [addressingLength, first, agree 1 counted]
  · -- Without a second byte the field in it plays no part.
    simp only [addressingLength, first]
    grind

end Code

namespace Addressing

variable (registers : Registers) (code : Code) (position : Nat) (mode : Fin 4) (field : Fin 8)

theorem length_base : (base registers code position mode field).length =
    if field = 5 ∧ mode = 0 then 4 else 0 := by
  unfold base
  split <;> rfl

theorem length_displacement : (displacement code position mode).length =
    if mode = 1 then 1 else if mode = 2 then 4 else 0 := by
  unfold displacement
  split
  · rfl
  · split <;> rfl

theorem length_address : (address registers code position mode field).length =
    (if field = 4 then
      1 + if (ByteFields.ofByte (code.byte position)).bottom = 5 ∧ mode = 0 then 4 else 0
    else if field = 5 ∧ mode = 0 then 4 else 0) +
      if mode = 1 then 1 else if mode = 2 then 4 else 0 := by
  simp only [address, length_displacement]
  congr 1
  split
  · simp only [scaledIndex, length_base]
  · exact length_base ..

end Addressing

/-- Decoding addressed operands looks at the bytes that the addressing byte stands for. -/
@[simp] theorem AddressedOperands.length_ofCode (registers : Registers) (code : Code)
    (width : Width) : (ofCode registers code width).length = code.addressingLength := by
  unfold ofCode Code.addressingLength
  dsimp only
  split
  next registerMode => simp [registerMode]
  next memoryMode =>
    simp only [Addressing.length_address]
    grind

/-! ## Forms -/

namespace Form

variable {size other : Type}

/-- The size of the operands of a form. -/
def operand : Form size → size
  | .moveRegisterImmediate operand => operand
  | .movePlaceImmediate operand => operand
  | .movePlaceRegister operand => operand
  | .moveRegisterPlace operand => operand
  | .loadAccumulator operand => operand
  | .storeAccumulator operand => operand
  | .binaryAccumulatorImmediate _ operand => operand
  | .binaryPlaceImmediate _ operand _ => operand
  | .binaryPlaceRegister _ operand => operand
  | .binaryRegisterPlace _ operand => operand
  | .unary _ operand => operand
  | .jump operand => operand

@[simp] theorem operand_map (f : size → other) (form : Form size) :
    (form.map f).operand = f form.operand := by
  cases form <;> rfl

/-- What stands behind the opcode of a form. -/
def layout : Form Width → Layout
  | .moveRegisterImmediate width => { addressed := false, tail := width.bytes }
  | .movePlaceImmediate width => { addressed := true, tail := width.bytes }
  | .movePlaceRegister _ => { addressed := true, tail := 0 }
  | .moveRegisterPlace _ => { addressed := true, tail := 0 }
  | .loadAccumulator _ => { addressed := false, tail := Width.dword.bytes }
  | .storeAccumulator _ => { addressed := false, tail := Width.dword.bytes }
  | .binaryAccumulatorImmediate _ width => { addressed := false, tail := width.bytes }
  | .binaryPlaceImmediate _ _ immediate => { addressed := true, tail := immediate.bytes }
  | .binaryPlaceRegister _ _ => { addressed := true, tail := 0 }
  | .binaryRegisterPlace _ _ => { addressed := true, tail := 0 }
  | .unary _ _ => { addressed := true, tail := 0 }
  | .jump width => { addressed := false, tail := width.bytes }

end Form

/-- The number of bytes behind an opcode. -/
def Layout.length (layout : Layout) (code : Code) : Nat :=
  (if layout.addressed then code.addressingLength else 0) + layout.tail

/-- The bytes that a layout counts tell their number. -/
theorem Layout.length_congr (layout : Layout) {left right : Code}
    (agree : ∀ position < layout.length left, right.byte position = left.byte position) :
    layout.length right = layout.length left := by
  cases addressed : layout.addressed with
  | false => simp only [length, addressed, Bool.false_eq_true, if_false]
  | true =>
      have same : right.addressingLength = left.addressingLength := by
        apply Code.addressingLength_congr
        intro position counted
        apply agree
        simp only [length, addressed, if_true]
        omega
      simp only [length, addressed, if_true, same]

/-- What a form that shares its opcode reads, when it accepts. -/
theorem Form.of_decodeGroup {extension : Extension} {operands : AddressedOperands}
    {instruction result : Instruction} {tail length : Nat}
    (decoded : decodeGroup extension operands instruction tail = .instruction result length) :
    result = instruction ∧ length = operands.length + tail := by
  unfold decodeGroup at decoded
  split at decoded <;> cases decoded
  exact ⟨rfl, rfl⟩

/-- An instruction is read from exactly the bytes that the layout of its form counts. -/
theorem Form.length_of_decode {form : Form Width} {opcode : UInt8} {registers : Registers}
    {code : Code} {instruction : Instruction} {length : Nat}
    (decoded : form.decode opcode registers code = .instruction instruction length) :
    length = form.layout.length code := by
  cases form with
  | moveRegisterImmediate | loadAccumulator | storeAccumulator | binaryAccumulatorImmediate
  | jump =>
      cases decoded
      exact (Nat.zero_add _).symm
  | movePlaceRegister | moveRegisterPlace | binaryPlaceRegister | binaryRegisterPlace =>
      cases decoded
      exact AddressedOperands.length_ofCode ..
  | movePlaceImmediate | binaryPlaceImmediate | unary =>
      rcases of_decodeGroup decoded with ⟨rfl, rfl⟩
      simp only [layout, Layout.length, AddressedOperands.length_ofCode, if_true]

/-! ## Opcodes -/

namespace OpcodeMap

/-- The opcodes above the binary operations whose operands are bytes. -/
def byteOpcodes : List Nat :=
  [0x80, 0x84, 0x88, 0x8A, 0xA0, 0xA2, 0xA8, 0xB0, 0xB1, 0xB2, 0xB3, 0xB4, 0xB5, 0xB6, 0xB7,
    0xC6, 0xEB, 0xF6]

/-- The size of the operands of an opcode. The binary operations come in pairs, of which the
even opcode works on bytes. -/
def operandSize (opcode : UInt8) : OperandSize :=
  if opcode.toNat < 0x40 ∧ opcode.toNat % 2 = 0 ∨ opcode.toNat ∈ byteOpcodes then .byte
  else .full

/-- The opcodes with an address at the end. -/
def offsetOpcodes : List Nat :=
  [0xA0, 0xA1, 0xA2, 0xA3]

/-- The opcodes with an immediate value or a distance and no addressing byte: those of the
accumulator, the moves to a register, and the jumps. -/
def immediateOpcodes : List Nat :=
  [0x04, 0x05, 0x0C, 0x0D, 0x24, 0x25, 0x2C, 0x2D, 0x34, 0x35, 0x3C, 0x3D, 0xA8, 0xA9,
    0xB0, 0xB1, 0xB2, 0xB3, 0xB4, 0xB5, 0xB6, 0xB7, 0xB8, 0xB9, 0xBA, 0xBB, 0xBC, 0xBD, 0xBE,
    0xBF, 0xE9, 0xEB]

/-- The opcodes with an addressing byte and an immediate value as wide as the operand, when
the given extension is behind them. -/
def addressedImmediateOpcodes (extension : Extension) : List Nat :=
  if extension = 0 then [0x80, 0x81, 0xC6, 0xC7, 0xF6, 0xF7] else [0x80, 0x81, 0xC6, 0xC7]

/-- What stands behind an opcode whose operands have the given width. -/
def layout (opcode : UInt8) (extension : Extension) (width : Width) : Layout :=
  let code := opcode.toNat
  if code ∈ offsetOpcodes then
    { addressed := false, tail := 4 }
  else if code ∈ immediateOpcodes then
    { addressed := false, tail := width.bytes }
  else if code ∈ addressedImmediateOpcodes extension then
    { addressed := true, tail := width.bytes }
  else if code = 0x83 then
    { addressed := true, tail := 1 }
  else
    { addressed := true, tail := 0 }

/-- The forms of an opcode have the operand size of the opcode. -/
theorem operand_of_mem_forms {opcode : UInt8} {form : Form OperandSize}
    (member : form ∈ forms opcode) : form.operand = operandSize opcode := by
  have every : ∀ opcode, ∀ form ∈ forms opcode, form.operand = operandSize opcode :=
    forall_opcode (by decide +kernel)
  exact every opcode form member

/-- The form that an extension selects has the layout of the opcode and the extension. -/
theorem layout_of_mem_forms {opcode : UInt8} {form : Form OperandSize}
    (member : form ∈ forms opcode) {extension : Extension} (accepted : form.Accepts extension)
    (full : Width) :
    (form.resolve full).layout = layout opcode extension ((operandSize opcode).resolve full) := by
  have every : ∀ opcode, ∀ form ∈ forms opcode, ∀ extension, form.Accepts extension →
      (form.resolve full).layout =
        layout opcode extension ((operandSize opcode).resolve full) := by
    cases full with
    | byte | word | dword => exact forall_opcode (by decide +kernel)
  exact every opcode form member extension accepted

/-- Either an addressing byte or a byte at the end stands behind an opcode. Behind an
addressing byte no more stands than an operand, which has at least one byte. -/
theorem layout_bounds (opcode : UInt8) (extension : Extension) (width : Width) :
    let layout := layout opcode extension width
    (layout.addressed = false → 1 ≤ layout.tail ∧ layout.tail ≤ 4) ∧
      (layout.addressed = true → layout.tail ≤ width.bytes) := by
  have positive := width.bytes_pos
  have small : width.bytes ≤ 4 := by cases width <;> decide
  dsimp only [layout]
  grind

/-- The extension plays no part where no addressing byte stands behind the opcode. -/
theorem layout_congr {opcode : UInt8} {extension : Extension} {width : Width}
    (unaddressed : (layout opcode extension width).addressed = false) (other : Extension) :
    layout opcode other width = layout opcode extension width := by
  unfold layout at unaddressed ⊢
  dsimp only at unaddressed ⊢
  grind

end OpcodeMap

/-! ## Instructions -/

namespace Code

/-- The width of the operands of the instruction at the start of some code. -/
def operandWidth (code : Code) : Width :=
  (OpcodeMap.operandSize code.opening.opcode).resolve code.opening.full

/-- What stands behind the opcode at the start of some code. -/
def layout (code : Code) : Layout :=
  OpcodeMap.layout code.opening.opcode code.operands.extension code.operandWidth

/-- The number of bytes of the instruction at the start of some code: an operand-size byte if
there is one, the opcode, and what stands behind it. -/
def encodedLength (code : Code) : Nat :=
  code.opening.position + 1 + code.layout.length code.operands

/-- The signed distance of the jump at the start of some code. -/
def distance (code : Code) : Int :=
  code.operandWidth.toSigned (code.operands.number 0 code.operandWidth).toNat

theorem opening_congr {left right : Code} (first : right.byte 0 = left.byte 0)
    (second : left.opening.position = 1 → right.byte 1 = left.byte 1) :
    right.opening = left.opening := by
  unfold opening
  rw [first]
  split
  next prefixed => rw [second (by simp [opening, prefixed])]
  next => rfl

theorem position_le (code : Code) : code.opening.position ≤ 1 := by
  unfold opening
  split <;> simp

/-- Behind an operand-size byte no operand is wider than a word. -/
theorem operandWidth_bytes_le (code : Code) :
    code.operandWidth.bytes + 2 * code.opening.position ≤ 4 := by
  unfold operandWidth opening
  split <;> cases OpcodeMap.operandSize _ <;> simp [OperandSize.resolve, Width.bytes]

/-- An instruction takes up two to eleven bytes. -/
theorem encodedLength_bounds (code : Code) : 2 ≤ code.encodedLength ∧ code.encodedLength ≤ 11 := by
  have bounds := OpcodeMap.layout_bounds code.opening.opcode code.operands.extension
    code.operandWidth
  have addressing := code.operands.addressingLength_bounds
  have narrow := code.operandWidth_bytes_le
  unfold encodedLength Layout.length layout
  cases addressed : (OpcodeMap.layout code.opening.opcode code.operands.extension
      code.operandWidth).addressed with
  | false =>
      have counted := bounds.1 addressed
      have start := code.position_le
      simp only [Bool.false_eq_true, if_false]
      omega
  | true =>
      have counted := bounds.2 addressed
      simp only [if_true]
      omega

theorem extension_congr {left right : Code} (same : right.byte 0 = left.byte 0) :
    right.extension = left.extension := by
  rw [extension, extension, same]

/-- The bytes that a length counts tell the length, whatever comes behind them. -/
theorem encodedLength_congr {left right : Code}
    (agree : ∀ position < left.encodedLength, right.byte position = left.byte position) :
    right.encodedLength = left.encodedLength := by
  have atLeast := left.encodedLength_bounds.1
  have opened : right.opening = left.opening :=
    opening_congr (agree 0 (by omega)) fun _ => agree 1 (by omega)
  have behind : ∀ position < left.layout.length left.operands,
      right.operands.byte position = left.operands.byte position := by
    intro position counted
    simp only [operands, drop, opened]
    apply agree
    unfold encodedLength
    omega
  have laidOut : right.layout = left.layout := by
    unfold layout operandWidth
    rw [opened]
    cases addressed : left.layout.addressed with
    | false => exact OpcodeMap.layout_congr addressed _
    | true =>
        have counted : 0 < left.layout.length left.operands := by
          have atLeastOne := left.operands.addressingLength_bounds.1
          simp only [Layout.length, addressed, if_true]
          omega
        rw [extension_congr (behind 0 counted)]
  unfold encodedLength
  rw [opened, laidOut, left.layout.length_congr behind]

end Code

end Ia32
