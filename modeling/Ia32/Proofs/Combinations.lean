import Ia32.Proofs.Alu
import Ia32.Proofs.Moves

/-!
# Combinations

What the additive and the bitwise forms do, from the answer to the last cell. Both values are
taken from the state before, in the order of the operands, and the result and the flags are those
of the operation, whatever cells the operands, the address and the code share. An immediate value
that is narrower than its operand is widened by its sign bit or by zeros.
-/

namespace Ia32

open LittleEndian (digit)

/-! ## Immediate values -/

/-- A number in the code, read in two's complement and reduced to a width. -/
def Code.signedNumber (code : Code) (position : Nat) (target source : Width) : UInt32 :=
  UInt32.ofInt (source.toSigned (code.number position source).toNat % target.modulus)

theorem Code.signedNumber_eq (code : Code) (position : Nat) (target source : Width) :
    code.signedNumber position target source =
      UInt32.ofNat (target.signExtend source (code.number position source).toNat) := by
  rw [signedNumber, ← Width.signExtend_emod, ofInt_natCast]

/-- A number that has the width already stays. -/
theorem Code.signedNumber_self (code : Code) (position : Nat) (width : Width) :
    code.signedNumber position width width = code.number position width := by
  rw [signedNumber, Width.toSigned_emod, Width.mask_of_lt (code.number_lt position width),
    ofInt_toNat]

theorem BinaryOp.widenImmediate_number (op : BinaryOp) (code : Code) (position : Nat)
    (width : Width) :
    op.widenImmediate width width (code.number position width) = code.number position width := by
  cases op with
  | arithmetic op =>
      exact (code.signedNumber_eq position width width).symm.trans
        (code.signedNumber_self position width)
  | bitwise op => rfl

namespace Form

/-! ## What a combination does -/

/-- A form combines two values: it stores the result in the cells of an operand, if there is one,
and leaves the flags of the result. -/
def Yields (form : Form Width) (opcode : UInt8) (core : Core) (place? : Option Operand)
    (result : AluResult) (length : Nat) : Prop :=
  form.Performs opcode core place? (digit result.value.toNat) result.flags length

section

variable {form : Form Width} {opcode : UInt8} {core : Core} {op : BinaryOp}
  {destination : Operand} {width : Width} {length : Nat}

theorem yields_of_binary {source : Source}
    (decoded : form.decode opcode core.cpu.registers core.code =
      .instruction (.binary op destination source) length)
    (fits : form.ImmediateFits) (wide : destination.width = width) :
    form.Yields opcode core (if op.writesBack then some destination else none)
      (op.evaluate width (destination.value core.cpu.registers core.memory)
        (source.value (op.widenImmediate width) core.cpu.registers core.memory) core.cpu.flags)
      length := by
  subst wide
  have performs := performs_of_decode fits decoded op.mnemonic_ne_jmp
  simp only [Instruction.target?, Instruction.effect, Effect.word_after, Effect.cpu_after,
    Instruction.word_combineEffect, Instruction.flags_combineEffect] at performs
  exact performs

theorem yields_of_reversed {op : ArithmeticOp} {source : Operand}
    (decoded : form.decode opcode core.cpu.registers core.code =
      .instruction (.reversed op destination source) length)
    (fits : form.ImmediateFits) (wide : destination.width = width) :
    form.Yields opcode core
      (if (BinaryOp.arithmetic op).writesBack then some destination else none)
      (op.evaluate width (source.value core.cpu.registers core.memory)
        (destination.value core.cpu.registers core.memory) core.cpu.flags)
      length := by
  subst wide
  have performs := performs_of_decode fits decoded (BinaryOp.arithmetic op).mnemonic_ne_jmp
  simp only [Instruction.target?, Instruction.effect, Effect.word_after, Effect.cpu_after,
    Instruction.word_combineEffect, Instruction.flags_combineEffect] at performs
  exact performs

end

/-- The four forms of an operation yield what it makes of two values. An operand is stored to as
`stored` tells, and `immediate` is the value of an immediate operand that may be narrower. -/
structure Combines (op : BinaryOp) (width : Width) (opcode : UInt8) (core : Core)
    (stored : Operand → Option Operand) (immediate : Width → UInt32)
    (result : UInt32 → UInt32 → AluResult) : Prop where
  accumulatorImmediate :
    let accumulator := Operand.accumulator width
    (binaryAccumulatorImmediate op width).Yields opcode core (stored accumulator)
      (result (core.value accumulator) (core.code.number 0 width)) width.bytes
  placeImmediate : ∀ immediateWidth : Width, immediateWidth.bytes ≤ width.bytes →
    core.code.extension = op.extension →
    let place := core.place width
    (binaryPlaceImmediate op width immediateWidth).Yields opcode core (stored place)
      (result (core.value place) (immediate immediateWidth))
      (core.code.addressingLength + immediateWidth.bytes)
  placeRegister :
    let place := core.place width
    let register := core.code.register width
    (binaryPlaceRegister op width).Yields opcode core (stored place)
      (result (core.value place) (core.value register)) core.code.addressingLength
  registerPlace :
    let place := core.place width
    let register := core.code.register width
    (binaryRegisterPlace op width).Yields opcode core (stored register)
      (result (core.value place) (core.value register)) core.code.addressingLength

theorem combines (op : BinaryOp) (width : Width) (opcode : UInt8) (core : Core) :
    let code := core.code
    Combines op width opcode core
      (fun destination => if op.writesBack then some destination else none)
      (fun immediateWidth =>
        op.widenImmediate width immediateWidth (code.number code.addressingLength immediateWidth))
      (fun left right => op.evaluate width left right core.cpu.flags) := by
  intro code
  have operands : AddressedOperands.ofCode core.cpu.registers code width =
      { place := core.place width, field := code.extension, length := code.addressingLength } :=
    AddressedOperands.ofCode_eq core.cpu.registers code width
  refine ⟨?accumulatorImmediate, ?placeImmediate, ?placeRegister, ?registerPlace⟩
  case accumulatorImmediate =>
    intro accumulator
    have decoded : (binaryAccumulatorImmediate op width).decode opcode core.cpu.registers code =
        .instruction (.binary op accumulator (immediate code 0 width)) width.bytes := rfl
    have wide : accumulator.width = width := rfl
    have yields := yields_of_binary decoded trivial wide
    simp only [immediate, Source.value, BinaryOp.widenImmediate_number] at yields
    exact yields
  case placeImmediate =>
    intro immediateWidth fits extension place
    have decoded : (binaryPlaceImmediate op width immediateWidth).decode opcode
        core.cpu.registers code =
          .instruction (.binary op place (immediate code code.addressingLength immediateWidth))
            (code.addressingLength + immediateWidth.bytes) := by
      simp only [decode, operands]
      exact if_pos extension
    have yields := yields_of_binary decoded fits (core.width_place width)
    simp only [immediate, Source.value] at yields
    exact yields
  case placeRegister =>
    intro place register
    have decoded : (binaryPlaceRegister op width).decode opcode core.cpu.registers code =
        .instruction (.binary op place (.operand register)) code.addressingLength := by
      simp only [decode, operands]
      rfl
    have yields := yields_of_binary decoded trivial (core.width_place width)
    simp only [Source.value] at yields
    exact yields
  case registerPlace =>
    intro place register
    have decoded : (binaryRegisterPlace op width).decode opcode core.cpu.registers code =
        .instruction (.toRegister op register place) code.addressingLength := by
      simp only [decode, operands]
      rfl
    cases op with
    | arithmetic op => exact yields_of_reversed decoded trivial rfl
    | bitwise op =>
        have wide : register.width = width := rfl
        have yields := yields_of_binary decoded trivial wide
        simp only [Source.value, BinaryOp.evaluate] at yields ⊢
        rw [op.evaluate_comm] at yields
        exact yields

/-- Where the result goes to the register, an additive form takes the place as its left operand and
a bitwise form the register. The other order would be the same for sums and bitwise results, and for
a difference only if the two values are equal. -/
theorem register_place_order (op : BinaryOp) (width : Width) (opcode : UInt8) (core : Core) :
    let place := core.place width
    let register := core.code.register width
    let ordered (left right : Operand) :=
      (binaryRegisterPlace op width).Yields opcode core
        (if op.writesBack then some register else none)
        (op.evaluate width (core.value left) (core.value right) core.cpu.flags)
        core.code.addressingLength
    ordered place register ∧
      (ordered register place ↔
        (op.subtracts = true →
          width.mask (core.value place).toNat = width.mask (core.value register).toNat)) := by
  intro place register ordered
  have yields : ordered place register := (combines op width opcode core).registerPlace
  refine ⟨yields, ?equal, ?swapped⟩
  case equal =>
    intro swapped subtracts
    exact op.mask_eq_of_flags_swap width _ _ core.cpu.flags subtracts
      (yields.flags.symm.trans swapped.flags)
  case swapped =>
    intro equal
    have same := op.evaluate_swap width _ _ core.cpu.flags equal
    simp only [ordered, ← same]
    exact yields

end Form

/-! ## Additive operations -/

theorem ArithmeticOp.stored_eq (op : ArithmeticOp) (destination : Operand) :
    (if (BinaryOp.arithmetic op).writesBack then some destination else none) =
      if op = .cmp then none else some destination := by
  cases op <;> rfl

/-- The four forms of an additive operation. The left operand is the addressed place or the
accumulator, also where the result goes to the register, and a narrower immediate value is widened
by its sign bit. A comparison stores nothing. -/
theorem Form.arithmetic_forms_yield (op : ArithmeticOp) (width : Width) (opcode : UInt8)
    (core : Core) :
    let code := core.code
    Combines (.arithmetic op) width opcode core
      (fun destination => if op = .cmp then none else some destination)
      (fun immediateWidth => code.signedNumber code.addressingLength width immediateWidth)
      (fun left right => op.evaluate width left right core.cpu.flags) := by
  intro code
  have combines := combines (.arithmetic op) width opcode core
  simp only [op.stored_eq, BinaryOp.evaluate, BinaryOp.widenImmediate,
    ← Code.signedNumber_eq] at combines
  exact combines

/-- A subtraction of the byte `0xFF` from its own code, which adds one to the doubleword there. -/
theorem Form.arithmetic_forms_yield_overwriting :
    let core := Core.start { Cpu.reset with eip := 1 } { bytes := #[0x83, 0x2D, 0, 0, 0, 0, 0xFF] }
    let form := binaryPlaceImmediate (.arithmetic .sub) .dword .byte
    let after := ((form.attempt 0x83).run core).2
    core.code.extension = ArithmeticOp.sub.extension ∧
      after.memory.bytes[1]? = some 0x2D ∧ after.cpu.flags.overflow = false := by
  intro core form after
  have extension : core.code.extension = ArithmeticOp.sub.extension := by decide
  have performs := (arithmetic_forms_yield .sub .dword 0x83 core).placeImmediate .byte
    (by decide) extension
  have cell : (core.place .dword).cell 1 = .memory 1 := by decide
  have stored := performs.stores.inside _ rfl 1 (by decide)
  rw [cell] at stored
  exact ⟨extension, stored.trans (by decide),
    (congrArg Flags.overflow performs.flags).trans (by decide)⟩

/-! ## Bitwise operations -/

/-- A number of the given width as the result of a bitwise operation, with the flags. -/
def AluResult.ofBits (width : Width) (bits : Nat) : AluResult :=
  { value := UInt32.ofNat bits
    flags :=
      { carry := false
        overflow := false
        sign := bits.testBit (width.bits - 1)
        zero := decide (bits = 0) } }

theorem AluResult.digit_value_ofBits (bits : Nat) {width : Width} {index : Nat}
    (inside : index < width.bytes) :
    digit (ofBits width bits).value.toNat index = digit bits index :=
  LittleEndian.digit_ofNat bits inside

namespace BitwiseOp

theorem stored_eq (op : BitwiseOp) (destination : Operand) :
    (if (BinaryOp.bitwise op).writesBack then some destination else none) =
      if op = .test then none else some destination := by
  cases op <;> rfl

theorem evaluate_eq (op : BitwiseOp) (width : Width) (left right : UInt32) :
    op.evaluate width left right = .ofBits width (width.mask (op.apply left right).toNat) := by
  have top : width.bits - 1 < width.bits := Nat.sub_lt width.bits_pos Nat.one_pos
  have sign := width.testBit_mask (op.apply left right).toNat top
  simp only [evaluate, AluResult.ofBits, sign, Width.signBit]

/-- The operation on two words, a disjunction, a difference of bits, or else a conjunction. -/
theorem apply_eq (op : BitwiseOp) (left right : UInt32) :
    op.apply left right =
      if op = .or then left ||| right
      else if op = .xor then left ^^^ right
      else left &&& right := by
  cases op <;> rfl

/-- A bit that the right operand does not have is clear in a conjunction, and the other operations
keep it. -/
theorem applyBit_false (op : BitwiseOp) (bit : Bool) :
    op.applyBit bit false = if op = .and ∨ op = .test then false else bit := by
  cases op <;> simp [applyBit]

/-- Where the right operand has no byte, a conjunction has none either, and the other operations
keep the left one. -/
theorem digit_apply_of_digit_eq_zero (op : BitwiseOp) (left right : UInt32) {index : Nat}
    (narrow : digit right.toNat index = 0) :
    digit (op.apply left right).toNat index =
      if op = .and ∨ op = .test then 0 else digit left.toNat index := by
  have unset : ∀ bit < 8, right.toNat.testBit (8 * index + bit) = false := by
    intro bit small
    have seen := LittleEndian.testBit_digit right.toNat index bit
    rw [narrow] at seen
    simpa [small] using seen.symm
  apply LittleEndian.eq_of_testBit
  intro bit small
  rw [LittleEndian.testBit_digit, op.testBit_apply, unset bit small, op.applyBit_false]
  by_cases clears : op = .and ∨ op = .test
  · simp [clears]
  · simp [clears, LittleEndian.testBit_digit]

section

variable (op : BitwiseOp) (left : UInt32) (code : Code) (position : Nat)
  {width immediateWidth : Width}

/-- The bytes of the result that lie above an immediate value. -/
theorem digit_mask_apply_number {index : Nat} (above : immediateWidth.bytes ≤ index)
    (inside : index < width.bytes) :
    digit (width.mask (op.apply left (code.number position immediateWidth)).toNat) index =
      if op = .and ∨ op = .test then 0 else digit left.toNat index := by
  rw [LittleEndian.digit_mask width _ inside]
  exact op.digit_apply_of_digit_eq_zero left _ (code.digit_number_of_le position above)

/-- With a narrower immediate value the top bit of a conjunction is clear. -/
theorem testBit_mask_apply_number (narrower : immediateWidth.bytes < width.bytes)
    (clears : op = .and ∨ op = .test) :
    (width.mask (op.apply left (code.number position immediateWidth)).toNat).testBit
      (width.bits - 1) = false := by
  have top : width.bits - 1 = 8 * (width.bytes - 1) + 7 := by
    unfold Width.bits
    omega
  have byte := op.digit_mask_apply_number left code position (Nat.le_sub_one_of_lt narrower)
    (Nat.sub_lt width.bytes_pos Nat.one_pos)
  have bit := LittleEndian.testBit_digit
    (width.mask (op.apply left (code.number position immediateWidth)).toNat) (width.bytes - 1) 7
  rw [byte, if_pos clears] at bit
  rw [top]
  simpa using bit.symm

end

end BitwiseOp

namespace Form

/-- The four forms of a bitwise operation. The result is the combination of the two words, reduced
to the width. An immediate value that is narrower than its operand counts as zero above its bytes: a
conjunction clears the operand there and the others keep it, and the sign flag is clear after a
conjunction and a test. -/
theorem bitwise_forms_yield (op : BitwiseOp) (width : Width) (opcode : UInt8) (core : Core) :
    let code := core.code
    let place := core.place width
    let combination (left right : UInt32) : UInt32 :=
      if op = .or then left ||| right else if op = .xor then left ^^^ right else left &&& right
    Combines (.bitwise op) width opcode core
        (fun destination => if op = .test then none else some destination)
        (fun immediateWidth => code.number code.addressingLength immediateWidth)
        (fun left right => .ofBits width ((combination left right).toNat % width.modulus)) ∧
      ∀ immediateWidth : Width, immediateWidth.bytes < width.bytes →
        code.extension = op.extension →
        let form := binaryPlaceImmediate (.bitwise op) width immediateWidth
        let after := ((form.attempt opcode).run core).2
        (∀ offset, immediateWidth.bytes ≤ offset → offset < width.bytes →
          Storage.byte? after.storage (place.cell offset) =
            if op = .and then (Storage.byte? core.storage (place.cell offset)).map fun _ => 0
            else Storage.byte? core.storage (place.cell offset)) ∧
        (op = .and ∨ op = .test → after.cpu.flags.sign = false) := by
  intro code place combination
  have combines := combines (.bitwise op) width opcode core
  simp only [op.stored_eq, BinaryOp.evaluate, op.evaluate_eq, BinaryOp.widenImmediate] at combines
  refine ⟨?forms, ?narrow⟩
  case forms =>
    simp only [op.apply_eq, Width.mask] at combines
    exact combines
  intro immediateWidth narrower extension form after
  have performs := combines.placeImmediate immediateWidth (Nat.le_of_lt narrower) extension
  refine ⟨?cells, ?sign⟩
  case cells =>
    intro offset above inside
    have counted : offset < place.width.bytes := by
      rwa [core.width_place]
    by_cases test : op = .test
    · -- A test has no destination, so that the cell lies outside it like any other.
      subst test
      have kept := performs.stores.outside (place.cell offset)
      simp only [if_true] at kept
      rw [if_neg (by decide)]
      apply kept
      intro other target
      cases target
    · have cell : Storage.byte? after.storage (place.cell offset) = _ :=
        performs.stores.inside place (if_neg test) offset counted
      rw [cell, AluResult.digit_value_ofBits _ inside,
        op.digit_mask_apply_number _ code _ above inside, core.digit_value place counted]
      -- The right operand has no byte there: a conjunction gives zero, the others the old byte.
      by_cases clears : op = .and
      · rw [if_pos clears, if_pos (.inl clears)]
      · rw [if_neg clears, if_neg (not_or.mpr ⟨clears, test⟩)]
        exact place.map_byte core.storage offset
  case sign =>
    intro clears
    rw [performs.flags]
    exact op.testBit_mask_apply_number _ code _ narrower clears

/-- A conjunction of the byte `0xFF` with its own code, which clears all but the opcode. -/
theorem bitwise_forms_yield_overwriting :
    let core := Core.start { Cpu.reset with eip := 1 } { bytes := #[0x83, 0x25, 0, 0, 0, 0, 0xFF] }
    let form := binaryPlaceImmediate (.bitwise .and) .dword .byte
    let after := ((form.attempt 0x83).run core).2
    core.code.extension = BitwiseOp.and.extension ∧
      after.memory.bytes[1]? = some 0 ∧ after.cpu.flags.sign = false := by
  intro core form after
  have extension : core.code.extension = BitwiseOp.and.extension := by decide
  have narrow := (bitwise_forms_yield .and .dword 0x83 core).2 .byte (by decide) extension
  have cell : (core.place .dword).cell 1 = .memory 1 := by decide
  have cleared := narrow.1 1 (by decide) (by decide)
  rw [cell] at cleared
  exact ⟨extension, cleared.trans (by decide), narrow.2 (.inl rfl)⟩

end Form

end Ia32
