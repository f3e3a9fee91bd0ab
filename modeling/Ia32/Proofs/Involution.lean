import Ia32.Proofs.Alu
import Ia32.Proofs.Locality
import Ia32.Proofs.Moves

/-!
# Operations that undo themselves

A complement and a negation give the operand back when they are made twice. This holds of every
byte that has a cell, even where the operand reaches out of the memory: a byte without a cell is
lost, but it was read as zero before and is read as zero again, and so the lowest byte that is not
zero, from which on a negation turns the bytes around, is the same both times.
-/

namespace Ia32

open LittleEndian (digit)

/-! ## Bytes of complements and negations -/

/-- Whether all bytes below a position are zero. -/
def ZeroBelow (bytes : Nat → UInt8) (position : Nat) : Prop :=
  ∀ lower < position, bytes lower = 0

instance decidableZeroBelow (bytes : Nat → UInt8) (position : Nat) :
    Decidable (ZeroBelow bytes position) :=
  inferInstanceAs (Decidable (∀ lower < position, bytes lower = 0))

theorem zeroBelow_zero (bytes : Nat → UInt8) : ZeroBelow bytes 0 :=
  fun lower below => absurd below (Nat.not_lt_zero lower)

theorem zeroBelow_succ_iff {bytes : Nat → UInt8} {position : Nat} :
    ZeroBelow bytes (position + 1) ↔ ZeroBelow bytes position ∧ bytes position = 0 :=
  Nat.forall_lt_succ_right

theorem zeroBelow_congr {left right : Nat → UInt8} {position : Nat}
    (same : ∀ lower < position, left lower = right lower) :
    ZeroBelow left position ↔ ZeroBelow right position := by
  constructor
  · intro zero lower below
    rw [← same lower below, zero lower below]
  · intro zero lower below
    rw [same lower below, zero lower below]

namespace LittleEndian

variable {count value index : Nat}

/-- The bytes of a number are its lowest byte and the bytes of the rest. -/
theorem zeroBelow_digit_succ_iff :
    ZeroBelow (digit value) (index + 1) ↔
      value % 0x100 = 0 ∧ ZeroBelow (digit (value / 0x100)) index := by
  have lowest : digit value 0 = 0 ↔ value % 0x100 = 0 := by
    rw [digit_zero, ← UInt8.toNat_inj, UInt8.toNat_ofNat']
    rfl
  unfold ZeroBelow
  rw [Nat.forall_lt_succ_left, lowest]
  simp only [digit_succ]

/-- The bytes of a complement are the complements of the bytes. -/
theorem digit_complement (small : value < capacity count) (inside : index < count) :
    digit (capacity count - 1 - value) index = ~~~digit value index := by
  induction count generalizing value index with
  | zero => cases inside
  | succ count ih =>
      simp only [capacity] at small ⊢
      cases index with
      | zero =>
          apply UInt8.toNat.inj
          rw [digit_zero, digit_zero, UInt8.toNat_not, UInt8.toNat_ofNat', UInt8.toNat_ofNat']
          simp only [UInt8.size]
          omega
      | succ index =>
          have rest : (0x100 * capacity count - 1 - value) / 0x100 =
              capacity count - 1 - value / 0x100 := by
            omega
          rw [digit_succ, digit_succ, rest]
          exact ih (by omega) (Nat.lt_of_succ_lt_succ inside)

/-- The bytes of a negation, from the lowest byte that is not zero. -/
theorem digit_negation (small : value < capacity count) (inside : index < count) :
    digit (capacity count - value) index =
      if ZeroBelow (digit value) index then -digit value index else ~~~digit value index := by
  induction count generalizing value index with
  | zero => cases inside
  | succ count ih =>
      simp only [capacity] at small ⊢
      cases index with
      | zero =>
          rw [if_pos (zeroBelow_zero _)]
          apply UInt8.toNat.inj
          rw [digit_zero, digit_zero, UInt8.toNat_neg, UInt8.toNat_ofNat', UInt8.toNat_ofNat']
          simp only [UInt8.size]
          omega
      | succ index =>
          have fewer := Nat.lt_of_succ_lt_succ inside
          simp only [zeroBelow_digit_succ_iff, digit_succ]
          by_cases lowest : value % 0x100 = 0
          · have rest : (0x100 * capacity count - value) / 0x100 =
                capacity count - value / 0x100 := by
              omega
            simp only [lowest, true_and, rest]
            exact ih (by omega) fewer
          · have rest : (0x100 * capacity count - value) / 0x100 =
                capacity count - 1 - value / 0x100 := by
              omega
            rw [rest, if_neg fun both => lowest both.1]
            exact digit_complement (by omega) fewer

end LittleEndian

namespace UnaryOp

/-- What an operation makes of a byte of its operand. A complement makes the complement of every
byte, and a negation that of the bytes above the lowest one that is not zero. -/
def turn (op : UnaryOp) (bytes : Nat → UInt8) (position : Nat) : UInt8 :=
  if op = .neg ∧ ZeroBelow bytes position then -bytes position else ~~~bytes position

/-- A byte and those below it tell what becomes of it. -/
theorem turn_congr (op : UnaryOp) {left right : Nat → UInt8} {position : Nat}
    (same : ∀ lower ≤ position, left lower = right lower) :
    op.turn left position = op.turn right position := by
  have zero := zeroBelow_congr fun lower below => same lower (Nat.le_of_lt below)
  simp only [turn, zero, same position (Nat.le_refl position)]

theorem digit_evaluate (op : UnaryOp) {width : Width} (operand : UInt32) (flags : Flags)
    {index : Nat} (inside : index < width.bytes) :
    digit (op.evaluate width operand flags).value.toNat index =
      op.turn (digit operand.toNat) index := by
  have small := width.mask_lt operand.toNat
  have same : ∀ lower ≤ index,
      digit (width.mask operand.toNat) lower = digit operand.toNat lower :=
    fun lower below => LittleEndian.digit_mask width _ (Nat.lt_of_le_of_lt below inside)
  have complement : width.maxValue - width.mask operand.toNat =
      LittleEndian.capacity width.bytes - 1 - width.mask operand.toNat := by
    rw [Width.maxValue, width.modulus_eq_capacity]
  have negation : width.maxValue - width.mask operand.toNat + 1 =
      LittleEndian.capacity width.bytes - width.mask operand.toNat := by
    rw [← width.modulus_eq_capacity, Width.maxValue]
    omega
  rw [width.modulus_eq_capacity] at small
  cases op with
  | not =>
      simp only [evaluate, complement, turn, reduceCtorEq, false_and, if_false]
      rw [LittleEndian.digit_ofNat _ inside, LittleEndian.digit_complement small inside,
        same index (Nat.le_refl index)]
  | neg =>
      have zero := zeroBelow_congr fun lower below => same lower (Nat.le_of_lt below)
      simp only [evaluate, negation, turn, true_and]
      rw [LittleEndian.digit_ofNat _ inside, LittleEndian.digit_mask width _ inside,
        LittleEndian.digit_negation small inside, same index (Nat.le_refl index)]
      simp only [zero]

/-- A negation sets the carry flag when the operand is zero, and no other flag. -/
theorem flags_neg {width : Width} {operand : UInt32} (small : operand.toNat < width.modulus)
    (flags : Flags) :
    (neg.evaluate width operand flags).flags = { flags with carry := decide (operand = 0) } := by
  have zero : decide (operand.toNat = 0) = decide (operand = 0) :=
    decide_eq_decide.mpr ⟨fun none => UInt32.toNat.inj none, fun none => by rw [none]; rfl⟩
  rw [evaluate, Width.mask_of_lt small, zero]

/-! ## Turning twice -/

variable {op : UnaryOp} {bytes turned : Nat → UInt8} {count : Nat}

/-- The lowest byte that is not zero stays where it is, when every byte is turned or is zero before
and after. -/
theorem zeroBelow_of_turned
    (agree : ∀ position < count, turned position = neg.turn bytes position ∨
      bytes position = 0 ∧ turned position = 0) :
    ZeroBelow turned count ↔ ZeroBelow bytes count := by
  induction count with
  | zero => exact iff_of_true (zeroBelow_zero turned) (zeroBelow_zero bytes)
  | succ count ih =>
      rw [zeroBelow_succ_iff, zeroBelow_succ_iff,
        ih fun position below => agree position (Nat.lt_succ_of_lt below)]
      apply and_congr_right
      intro zero
      rcases agree count (Nat.lt_succ_self count) with negated | ⟨before, after⟩
      · rw [negated, turn, if_pos ⟨rfl, zero⟩]
        exact ⟨fun none => UInt8.neg_inj.mp (none.trans UInt8.neg_zero.symm),
          fun none => by rw [none, UInt8.neg_zero]⟩
      · simp only [before, after]

/-- A byte that was turned is turned back. -/
theorem turn_turned
    (agree : ∀ position < count, turned position = op.turn bytes position ∨
      bytes position = 0 ∧ turned position = 0)
    (here : turned count = op.turn bytes count) : op.turn turned count = bytes count := by
  cases op with
  | not => simp [turn, here]
  | neg =>
      rw [turn, here, turn]
      by_cases zero : ZeroBelow bytes count
      · have still := (zeroBelow_of_turned agree).mpr zero
        rw [if_pos ⟨rfl, still⟩, if_pos ⟨rfl, zero⟩, UInt8.neg_neg]
      · have still := mt (zeroBelow_of_turned agree).mp zero
        rw [if_neg fun both => still both.2, if_neg fun both => zero both.2, UInt8.not_not]

end UnaryOp

/-! ## Operands that are turned -/

namespace Operand

variable (operand : Operand) (registers : Registers) (memory : Memory)

/-- An operand is zero when all of its bytes are. -/
theorem value_eq_zero_iff :
    operand.value registers memory = 0 ↔
      ZeroBelow (operand.byte (registers, memory)) operand.width.bytes := by
  constructor
  · intro zero offset inside
    rw [← operand.digit_value registers memory inside, zero]
    simp [digit]
  · intro zero
    apply LittleEndian.eq_of_digit
    intro offset few
    have none : digit (0 : UInt32).toNat offset = 0 := by simp [digit]
    rw [none]
    by_cases inside : offset < operand.width.bytes
    · rw [operand.digit_value registers memory inside]
      exact zero offset inside
    · exact LittleEndian.digit_of_lt (operand.value_lt registers memory) (Nat.not_lt.mp inside)

end Operand

namespace Stores

variable {place? : Option Operand} {byte : Nat → UInt8} {before after : Storage}

/-- A byte of the memory outside the operand is read as before. -/
theorem readByte_of_apart (stores : Stores place? byte before after) {address : UInt32}
    (apart : ∀ place, place? = some place → ∀ offset < place.width.bytes,
      place.cell offset ≠ .memory address.toNat) :
    after.2.readByte address = before.2.readByte address := by
  have kept := stores.outside _ apart
  simp only [Storage.byte?] at kept
  simp only [Memory.readByte, Array.getD_eq_getD_getElem?, kept]

/-- Storing in the memory leaves the registers alone. -/
theorem registers_of_memory {place : Operand} (stores : Stores (some place) byte before after)
    {address : UInt32} (location : place.location = .memory address) : after.1 = before.1 := by
  apply Registers.ext_word
  intro code
  apply LittleEndian.eq_of_digit
  intro position few
  have apart : ∀ offset < place.width.bytes, place.cell offset ≠ .register code position := by
    intro offset inside
    simp only [Operand.cell, location, ne_eq, reduceCtorEq, not_false_eq_true]
  have kept := stores.byte?_of_ne apart
  simp only [Storage.byte?, few, if_true, Option.some.injEq] at kept
  exact kept

variable {op : UnaryOp} {place : Operand} {storage once twice : Storage}

/-- When every byte of an operand is turned, those without a cell are zero before and after. -/
theorem turned_or_zero (first : Stores (some place) (op.turn (place.byte storage)) storage once)
    {offset : Nat} (inside : offset < place.width.bytes) :
    place.byte once offset = op.turn (place.byte storage) offset ∨
      place.byte storage offset = 0 ∧ place.byte once offset = 0 := by
  have stored := first.inside place rfl offset inside
  unfold Operand.byte at stored ⊢
  rw [stored]
  cases Storage.byte? storage (place.cell offset) with
  | none => exact .inr ⟨rfl, rfl⟩
  | some byte => exact .inl rfl

/-- Turning every byte of an operand twice changes nothing. -/
theorem eq_of_turn_turn (first : Stores (some place) (op.turn (place.byte storage)) storage once)
    (second : Stores (some place) (op.turn (place.byte once)) once twice) : twice = storage := by
  apply Storage.eq_of_byte?
  intro cell
  by_cases target : ∃ offset < place.width.bytes, place.cell offset = cell
  · rcases target with ⟨offset, inside, rfl⟩
    have stored := first.inside place rfl offset inside
    rw [second.inside place rfl offset inside, stored]
    cases held : Storage.byte? storage (place.cell offset) with
    | none => rfl
    | some byte =>
        have before : place.byte storage offset = byte := by rw [Operand.byte, held]; rfl
        have here : place.byte once offset = op.turn (place.byte storage) offset := by
          rw [Operand.byte, stored, held]
          rfl
        have turned := UnaryOp.turn_turned
          (fun position below => first.turned_or_zero (Nat.lt_trans below inside)) here
        rw [Option.map_some, Option.map_some, turned, before]
  · have apart : ∀ offset < place.width.bytes, place.cell offset ≠ cell :=
      fun offset inside found => target ⟨offset, inside, found⟩
    rw [second.byte?_of_ne apart, first.byte?_of_ne apart]

/-- A negated operand is zero when it was zero before. -/
theorem value_eq_zero_iff_of_negated
    (first : Stores (some place) (UnaryOp.neg.turn (place.byte storage)) storage once) :
    place.value once.1 once.2 = 0 ↔ place.value storage.1 storage.2 = 0 := by
  rw [place.value_eq_zero_iff, place.value_eq_zero_iff]
  exact UnaryOp.zeroBelow_of_turned fun position inside => first.turned_or_zero inside

end Stores

namespace Form

variable {op : UnaryOp} {width : Width} {core : Core}

/-- An operation on one operand turns every byte of the operand. -/
theorem performs_unary (width : Width) (opcode : UInt8)
    (named : core.code.extension = op.extension) :
    let place := core.place width
    let result := op.evaluate width (core.value place) core.cpu.flags
    (unary op width).Performs opcode core (some place) (op.turn (place.byte core.storage))
      result.flags core.code.addressingLength := by
  intro place result
  have operands := AddressedOperands.ofCode_eq core.cpu.registers core.code width
  have decoded : (unary op width).decode opcode core.cpu.registers core.code =
      .instruction (.unary op place) core.code.addressingLength := by
    simp only [decode, operands]
    exact if_pos named
  have fits : (unary op width).ImmediateFits := trivial
  have performs := performs_of_decode fits decoded op.mnemonic_ne_jmp
  simp only [Instruction.target?, Instruction.effect, Effect.word_after, Effect.cpu_after,
    Operand.word_store, Operand.flags_store] at performs
  have wide : place.width = width := core.width_place width
  rw [wide] at performs
  refine ⟨performs.answer, performs.stores.congr ?_, performs.flags, performs.eip⟩
  rintro _ ⟨⟩ offset inside
  have bytes : op.turn (digit (core.value place).toNat) offset =
      op.turn (place.byte core.storage) offset :=
    op.turn_congr fun lower below => core.digit_value place (Nat.lt_of_le_of_lt below inside)
  rw [wide] at inside
  exact (op.digit_evaluate _ _ inside).trans bytes

/-- A negation tells with the carry flag whether its operand was zero. -/
theorem flags_negation (width : Width) (opcode : UInt8)
    (named : core.code.extension = UnaryOp.neg.extension) :
    (((unary .neg width).attempt opcode).run core).2.cpu.flags =
      { core.cpu.flags with carry := decide (core.value (core.place width) = 0) } := by
  have small := (core.place width).value_lt core.cpu.registers core.memory
  rw [core.width_place width] at small
  exact (performs_unary width opcode named).flags.trans (UnaryOp.flags_neg small core.cpu.flags)

/-- Storing in a place away from the code that names it leaves the code and the place as they
were. -/
theorem place_of_apart {back : Core} {byte : Nat → UInt8} (eip : back.cpu.eip = core.cpu.eip)
    (stores : Stores (some (core.place width)) byte core.storage back.storage)
    (apart : ∀ offset < width.bytes, ∀ position < core.code.addressingLength,
      (core.place width).cell offset ≠
        .memory (core.cpu.eip + UInt32.ofNat position).toNat) :
    back.place width = core.place width ∧ back.code.extension = core.code.extension ∧
      back.code.addressingLength = core.code.addressingLength := by
  have wide : (core.place width).width = width := core.width_place width
  have same : ∀ position < core.code.addressingLength,
      back.code.byte position = core.code.byte position := by
    intro position counted
    simp only [Core.code, eip, Code.byte_codeAt]
    apply stores.readByte_of_apart
    rintro _ ⟨⟩ offset inside
    rw [wide] at inside
    exact apart offset inside position counted
  have first := same 0 core.code.addressingLength_bounds.1
  refine ⟨?place, Code.extension_congr first, Code.addressingLength_congr same⟩
  have operands : AddressedOperands.ofCode core.cpu.registers back.code width =
      AddressedOperands.ofCode core.cpu.registers core.code width :=
    AddressedOperands.ofCode_congr same
  rw [AddressedOperands.ofCode_eq, AddressedOperands.ofCode_eq] at operands
  have named : back.code.place core.cpu.registers width = core.place width :=
    congrArg AddressedOperands.place operands
  rw [← named]
  -- A register is named by the code alone, and an address by registers that are kept.
  by_cases register : back.code.addressing.top = 3
  · simp only [Core.place, Code.place, if_pos register]
  · have location : (core.place width).location =
        .memory (back.code.effectiveAddress core.cpu.registers) := by
      rw [← named, Code.place, if_neg register]
      rfl
    have kept : back.cpu.registers = core.cpu.registers := stores.registers_of_memory location
    rw [Core.place, kept]

/-- An operation on one operand that is made twice at the same code, where the operand does not lie
in the code that names it. The registers and the memory are as they were, also where bytes of the
operand are lost above the memory or its addresses wrap around. A complement keeps the flags. A
negation sets the carry flag both times when the operand is zero, clears it both times when it is
not, and keeps the other flags. -/
theorem unary_twice_restores (op : UnaryOp) (width : Width) (opcode : UInt8) (core : Core)
    (named : core.code.extension = op.extension)
    (apart : ∀ offset < width.bytes, ∀ position < core.code.addressingLength,
      (core.place width).cell offset ≠
        .memory (core.cpu.eip + UInt32.ofNat position).toNat) :
    let operand := core.value (core.place width)
    let once := ((unary op width).attempt opcode).run core
    let back := { once.2 with cpu := { once.2.cpu with eip := core.cpu.eip } }
    let twice := ((unary op width).attempt opcode).run back
    once.1 = .ok (.executed op.mnemonic) ∧
      twice.1 = .ok (.executed op.mnemonic) ∧
      twice.2.cpu.registers = core.cpu.registers ∧
      twice.2.memory = core.memory ∧
      (op = .not → once.2.cpu.flags = core.cpu.flags ∧ twice.2.cpu.flags = core.cpu.flags) ∧
      (op = .neg →
        once.2.cpu.flags = { core.cpu.flags with carry := decide (operand = 0) } ∧
        twice.2.cpu.flags = once.2.cpu.flags) := by
  intro operand once back twice
  have first := performs_unary width opcode named
  have eip : back.cpu.eip = core.cpu.eip := rfl
  have stores : Stores _ _ core.storage back.storage := first.stores
  obtain ⟨place, extension, -⟩ := place_of_apart eip stores apart
  have second := performs_unary width opcode (extension.trans named)
  rw [place] at second
  have restored : twice.2.storage = core.storage := first.stores.eq_of_turn_turn second.stores
  refine ⟨first.answer, second.answer, congrArg Prod.fst restored, congrArg Prod.snd restored,
    ?complement, ?negation⟩
  case complement =>
    rintro rfl
    have flags : once.2.cpu.flags = core.cpu.flags := first.flags
    exact ⟨flags, second.flags.trans flags⟩
  case negation =>
    rintro rfl
    have flags : once.2.cpu.flags = _ := flags_negation width opcode named
    have again : twice.2.cpu.flags = _ := flags_negation width opcode (extension.trans named)
    have zero : back.value (core.place width) = 0 ↔ core.value (core.place width) = 0 :=
      stores.value_eq_zero_iff_of_negated
    have kept : back.cpu.flags = once.2.cpu.flags := rfl
    refine ⟨flags, ?_⟩
    rw [again, place, kept, flags]
    simp only [zero]

/-- A doubleword of which the lowest byte lies at the last address and is lost, negated twice. -/
theorem unary_twice_restores_wrapping :
    let core := Core.start { Cpu.reset with eip := 3 }
      { bytes := #[0x12, 0, 0x34, 0x1D, 0xFF, 0xFF, 0xFF, 0xFF] }
    let once := (((unary .neg .dword).attempt 0xF7).run core).2
    let back := { once with cpu := { once.cpu with eip := core.cpu.eip } }
    let twice := (((unary .neg .dword).attempt 0xF7).run back).2
    core.code.extension = UnaryOp.neg.extension ∧
      (∀ offset < Width.dword.bytes, ∀ position < core.code.addressingLength,
        (core.place .dword).cell offset ≠
          .memory (core.cpu.eip + UInt32.ofNat position).toNat) ∧
      once.memory.bytes = #[0xEE, 0xFF, 0xCB, 0x1D, 0xFF, 0xFF, 0xFF, 0xFF] ∧
      twice.memory = core.memory ∧ twice.cpu.flags.carry = false := by
  intro core once back twice
  have named : core.code.extension = UnaryOp.neg.extension := by decide
  have apart : ∀ offset < Width.dword.bytes, ∀ position < core.code.addressingLength,
      (core.place .dword).cell offset ≠
        .memory (core.cpu.eip + UInt32.ofNat position).toNat := by
    decide
  obtain ⟨_, _, _, memory, _, negation⟩ :=
    unary_twice_restores .neg .dword 0xF7 core named apart
  obtain ⟨flags, again⟩ := negation rfl
  refine ⟨named, apart, by decide +kernel, memory, ?carry⟩
  rw [again, flags]
  decide

end Form

end Ia32
