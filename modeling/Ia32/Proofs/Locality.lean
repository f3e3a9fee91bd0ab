import Ia32.Proofs.Layout

/-!
# What decoding depends on

Every part of an instruction is told by the registers and by the bytes that the part takes up:
a number, an address, the operands behind an addressing byte, and what a form reads as a whole.
No instruction is longer than eleven bytes, so the first eleven bytes of some code tell what it
is, and what comes behind them or where it lies plays no part.
-/

namespace Ia32

variable {registers : Registers} {left right : Code}

/-! ## Numbers and addresses -/

namespace Code

theorem bytes_congr {position count : Nat}
    (agree : ∀ offset < count, right.byte (position + offset) = left.byte (position + offset)) :
    right.bytes position count = left.bytes position count := by
  induction count generalizing position with
  | zero => rfl
  | succ count ih =>
      have behind : right.bytes (position + 1) count = left.bytes (position + 1) count := by
        apply ih
        intro offset inside
        rw [Nat.add_assoc, Nat.add_comm 1]
        exact agree (offset + 1) (Nat.succ_lt_succ inside)
      simp only [bytes, behind]
      exact congrArg (· :: _) (agree 0 (Nat.succ_pos count))

/-- A number is told by the bytes it takes up. -/
theorem number_congr {position : Nat} {width : Width}
    (agree : ∀ offset < width.bytes,
      right.byte (position + offset) = left.byte (position + offset)) :
    right.number position width = left.number position width := by
  rw [number, number, bytes_congr agree]

end Code

namespace Addressing

variable {position : Nat} {mode : Fin 4} {field : Fin 8}

theorem base_congr
    (agree : ∀ offset < (base registers left position mode field).length,
      right.byte (position + offset) = left.byte (position + offset)) :
    base registers right position mode field = base registers left position mode field := by
  unfold base at agree ⊢
  split at agree
  next inCode => rw [if_pos inCode, if_pos inCode, Code.number_congr agree]
  next inRegister => rw [if_neg inRegister, if_neg inRegister]

theorem scaledIndex_congr
    (agree : ∀ offset < (scaledIndex registers left position mode).length,
      right.byte (position + offset) = left.byte (position + offset)) :
    scaledIndex registers right position mode = scaledIndex registers left position mode := by
  unfold scaledIndex at agree ⊢
  dsimp only at agree ⊢
  have first : right.byte position = left.byte position := agree 0 (by omega)
  rw [first, base_congr]
  intro offset inside
  rw [Nat.add_assoc]
  exact agree (1 + offset) (by omega)

theorem displacement_congr
    (agree : ∀ offset < (displacement left position mode).length,
      right.byte (position + offset) = left.byte (position + offset)) :
    displacement right position mode = displacement left position mode := by
  unfold displacement at agree ⊢
  split at agree
  next short =>
    have same : right.byte position = left.byte position := agree 0 Nat.one_pos
    rw [if_pos short, if_pos short, same]
  next notShort =>
    rw [if_neg notShort, if_neg notShort]
    split at agree
    next long => rw [if_pos long, if_pos long, Code.number_congr agree]
    next notLong => rw [if_neg notLong, if_neg notLong]

/-- An address is told by the registers and the bytes that name it. -/
theorem address_congr
    (agree : ∀ offset < (address registers left position mode field).length,
      right.byte (position + offset) = left.byte (position + offset)) :
    address registers right position mode field =
      address registers left position mode field := by
  unfold address at agree ⊢
  dsimp only at agree ⊢
  have based : (if field = 4 then scaledIndex registers right position mode
        else base registers right position mode field) =
      (if field = 4 then scaledIndex registers left position mode
        else base registers left position mode field) := by
    split at agree
    next scaled =>
      simp only [scaled, if_true]
      exact scaledIndex_congr fun offset inside => agree offset (by omega)
    next plain =>
      simp only [plain, if_false]
      exact base_congr fun offset inside => agree offset (by omega)
  rw [based, displacement_congr]
  intro offset inside
  rw [Nat.add_assoc]
  exact agree _ (by omega)

end Addressing

/-! ## Operands and forms -/

/-- Addressed operands are told by the bytes that the addressing byte stands for. -/
theorem AddressedOperands.ofCode_congr {width : Width}
    (agree : ∀ position < left.addressingLength, right.byte position = left.byte position) :
    ofCode registers right width = ofCode registers left width := by
  have first := agree 0 left.addressingLength_bounds.1
  rw [← length_ofCode registers left width] at agree
  unfold ofCode at agree ⊢
  dsimp only at agree ⊢
  rw [first]
  split
  next => rfl
  next memoryMode =>
    rw [if_neg memoryMode] at agree
    rw [Addressing.address_congr]
    intro offset inside
    exact agree (1 + offset) (Nat.add_lt_add_left inside 1)

/-- Addressed operands and the immediate value behind them are told by the bytes of both. -/
theorem AddressedOperands.immediate_congr (registers : Registers) (width : Width)
    {immediate : Width}
    (agree : ∀ position < left.addressingLength + immediate.bytes,
      right.byte position = left.byte position) :
    ofCode registers right width = ofCode registers left width ∧
      right.number left.addressingLength immediate =
        left.number left.addressingLength immediate := by
  constructor
  · exact ofCode_congr fun position counted => agree position (Nat.lt_add_right _ counted)
  · exact Code.number_congr fun offset inside => agree _ (Nat.add_lt_add_left inside _)

/-- What a form reads is told by the bytes that its layout counts. -/
theorem Form.decode_congr {form : Form Width} {opcode : UInt8}
    (agree : ∀ position < form.layout.length left, right.byte position = left.byte position) :
    form.decode opcode registers right = form.decode opcode registers left := by
  cases form with
  | moveRegisterImmediate width | binaryAccumulatorImmediate op width | jump width =>
      have same : right.number 0 width = left.number 0 width :=
        Code.number_congr fun offset inside => agree _ (Nat.add_lt_add_left inside 0)
      simp only [decode, immediate, same]
  | loadAccumulator width | storeAccumulator width =>
      have same : right.number 0 .dword = left.number 0 .dword :=
        Code.number_congr fun offset inside => agree _ (Nat.add_lt_add_left inside 0)
      simp only [decode, same]
  | movePlaceRegister width | moveRegisterPlace width | binaryPlaceRegister op width
  | binaryRegisterPlace op width | unary op width =>
      have same : AddressedOperands.ofCode registers right width = _ :=
        AddressedOperands.ofCode_congr agree
      simp only [decode, same]
  | movePlaceImmediate width =>
      have same := AddressedOperands.immediate_congr registers width agree
      simp only [decode, immediate, AddressedOperands.length_ofCode, same.1, same.2]
  | binaryPlaceImmediate op width immediateWidth =>
      have same := AddressedOperands.immediate_congr registers width agree
      simp only [decode, immediate, AddressedOperands.length_ofCode, same.1, same.2]

/-! ## Readings -/

/-- What code is to a machine is told by its first eleven bytes. -/
theorem Reading.ofCode_congr
    (agree : ∀ position < 11, right.byte position = left.byte position) :
    ofCode registers right = ofCode registers left := by
  have start := left.position_le
  have opened : right.opening = left.opening :=
    Code.opening_congr (agree 0 (by decide)) fun _ => agree 1 (by decide)
  have behind : ∀ position, left.opening.position + 1 + position < 11 →
      right.operands.byte position = left.operands.byte position := by
    intro position inside
    simp only [Code.operands, Code.drop, opened]
    exact agree _ inside
  have extended : right.operands.extension = left.operands.extension :=
    Code.extension_congr (behind 0 (by omega))
  unfold ofCode
  dsimp only
  rw [opened, extended]
  cases selected : OpcodeMap.selected? left.opening.opcode left.operands.extension with
  | none => rfl
  | some form =>
      have laidOut : (form.resolve left.opening.full).layout = left.layout := by
        rcases OpcodeMap.selected?_eq_some_iff.mp selected with ⟨member, accepted⟩
        exact OpcodeMap.layout_of_mem_forms member accepted _
      dsimp only
      rw [Form.decode_congr]
      -- The bytes that the form reads end where the instruction ends.
      intro position counted
      apply behind
      rw [laidOut] at counted
      have bounded := left.encodedLength_bounds.2
      unfold Code.encodedLength at bounded
      omega

end Ia32
