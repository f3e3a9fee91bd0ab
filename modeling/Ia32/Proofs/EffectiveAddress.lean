import Ia32.Proofs.Execution

/-!
# Effective addresses

The address that an addressing byte names, as one sum: the word of a base register, a multiple
of the word of an index register, and a displacement in the code, reduced to thirty-two bits.
Decoding takes the byte apart case by case and arrives at the same operands. It reads the bytes
of the encoding, in order, and changes nothing but the instruction pointer, so that it can be
repeated.
-/

namespace Ia32

theorem toNat_add_emod (left right : UInt32) :
    ((left + right).toNat : Int) = (left.toNat + right.toNat : Int) % 0x100000000 := by
  rw [UInt32.toNat_add]
  omega

namespace Code

variable (registers : Registers) (code : Code)

/-! ## The parts of an address -/

/-- The fields of the addressing byte: the mode, a register or an extension, and the place. -/
def addressing : ByteFields :=
  ByteFields.ofByte (code.byte 0)

/-- The fields of the byte behind the addressing byte: the scale, the index and the base. -/
def scaling : ByteFields :=
  ByteFields.ofByte (code.byte 1)

/-- Whether the scale, the index and the base stand in a byte of their own. -/
def Scaled : Prop :=
  code.addressing.bottom = 4

instance : Decidable code.Scaled :=
  inferInstanceAs (Decidable (_ = _))

/-- The field that names the base register. -/
def baseField : Fin 8 :=
  if code.Scaled then code.scaling.bottom else code.addressing.bottom

/-- Whether a doubleword in the code takes the place of the base register. -/
def Baseless : Prop :=
  code.baseField = 5 ∧ code.addressing.top = 0

instance : Decidable code.Baseless :=
  inferInstanceAs (Decidable (_ ∧ _))

/-- The share of the base register. -/
def baseTerm : Nat :=
  if code.Baseless then 0 else (registers.word code.baseField).toNat

/-- The share of the index register: its word times one, two, four or eight. -/
def indexTerm : Nat :=
  if code.Scaled ∧ code.scaling.middle ≠ 4 then
    (registers.word code.scaling.middle).toNat <<< code.scaling.top.val
  else 0

/-- Where the displacement stands. -/
def displacementPosition : Nat :=
  if code.Scaled then 2 else 1

/-- The displacement: a signed byte, a doubleword, or none. -/
def displacement : Int :=
  if code.addressing.top = 1 then
    Width.byte.toSigned (code.byte code.displacementPosition).toNat
  else if code.addressing.top = 2 ∨ code.Baseless then
    (code.number code.displacementPosition .dword).toNat
  else 0

/-- The address that an addressing byte with a mode below 3 names. -/
def effectiveAddress : UInt32 :=
  UInt32.ofInt (code.baseTerm registers + code.indexTerm registers + code.displacement)

/-- The place that an addressing byte names. -/
def place (width : Width) : Operand :=
  if code.addressing.top = 3 then .register code.addressing.bottom width
  else .memory (code.effectiveAddress registers) width

/-- The register that an addressing byte names beside the place. -/
def register (width : Width) : Operand :=
  .register code.extension width

end Code

/-! ## Decoding an address -/

namespace Addressing

variable (registers : Registers) (code : Code)

/-- Shifting a word multiplies it, and what leaves the word is dropped. -/
theorem toNat_shiftLeft_emod (word : UInt32) (scale : Fin 4) :
    ((word <<< UInt32.ofNat scale.val).toNat : Int) =
      (word.toNat <<< scale.val : Nat) % 0x100000000 := by
  have places : (UInt32.ofNat scale.val).toNat % 32 = scale.val := by
    have few := scale.isLt
    rw [UInt32.toNat_ofNat']
    omega
  rw [UInt32.toNat_shiftLeft, places]
  rfl

/-- The base register, or the doubleword in its place, as it is decoded. -/
def start : Part :=
  base registers code code.displacementPosition code.addressing.top code.baseField

/-- The multiple of the index register, as it is decoded. -/
def index : UInt32 :=
  if code.Scaled ∧ code.scaling.middle ≠ 4 then
    registers.word code.scaling.middle <<< UInt32.ofNat code.scaling.top.val
  else 0

theorem toNat_index :
    ((index registers code).toNat : Int) = (code.indexTerm registers : Int) % 0x100000000 := by
  unfold index Code.indexTerm
  split
  · exact toNat_shiftLeft_emod ..
  · rfl

/-- What is decoded before the displacement: the base and the index. -/
theorem decoded_start :
    (if code.addressing.bottom = 4 then scaledIndex registers code 1 code.addressing.top
      else base registers code 1 code.addressing.top code.addressing.bottom) =
      { value := (start registers code).value + index registers code
        length := code.displacementPosition - 1 + (start registers code).length } := by
  by_cases scaled : code.Scaled
  · have field : code.addressing.bottom = 4 := scaled
    have shifted : (if code.scaling.middle = 4 then 0 else registers.word code.scaling.middle) <<<
        UInt32.ofNat code.scaling.top.val = index registers code := by
      unfold index
      by_cases absent : code.scaling.middle = 4
      · simp [absent]
      · simp [absent, scaled]
    rw [if_pos field, ← shifted]
    simp only [start, Code.displacementPosition, Code.baseField, scaled, if_true]
    rfl
  · have field : code.addressing.bottom ≠ 4 := scaled
    simp [field, start, index, Code.displacementPosition, Code.baseField, scaled]

theorem toNat_displacement (position : Nat) (mode : Fin 4) :
    ((displacement code position mode).value.toNat : Int) =
      (if mode = 1 then Width.byte.toSigned (code.byte position).toNat
        else if mode = 2 then (code.number position .dword).toNat else 0) % 0x100000000 := by
  unfold displacement
  split
  · have extended := Width.signExtend_emod .dword .byte (code.byte position).toNat
    simp only [Width.modulus] at extended
    simp only [UInt32.toNat_ofNat']
    omega
  · split
    · have small := (code.number position .dword).toNat_lt
      dsimp only
      omega
    · rfl

/-- Decoding adds up the base, the index and the displacement. -/
theorem value_address :
    (address registers code 1 code.addressing.top code.addressing.bottom).value =
      code.effectiveAddress registers := by
  have parts := toNat_index registers code
  apply eq_of_toNat_cast
  simp only [address, decoded_start, toNat_add_emod, toNat_displacement, Code.effectiveAddress,
    toNat_ofInt]
  by_cases baseless : code.Baseless
  · -- The doubleword stands where the displacement would, and mode 0 has no other.
    have mode : code.addressing.top = 0 := baseless.2
    have base : (start registers code).value = code.number code.displacementPosition .dword :=
      congrArg Part.value (if_pos baseless)
    have none : code.baseTerm registers = 0 := if_pos baseless
    have displacement : code.displacement =
        (code.number code.displacementPosition .dword).toNat := by
      simp [Code.displacement, mode, baseless]
    simp only [mode, base, none, displacement]
    omega
  · have base : start registers code = { value := registers.word code.baseField, length := 0 } :=
      if_neg baseless
    have term : code.baseTerm registers = (registers.word code.baseField).toNat :=
      if_neg baseless
    have position : 1 + (code.displacementPosition - 1 + 0) = code.displacementPosition := by
      unfold Code.displacementPosition
      split <;> rfl
    have displacement : code.displacement =
        if code.addressing.top = 1 then
          Width.byte.toSigned (code.byte code.displacementPosition).toNat
        else if code.addressing.top = 2 then
          (code.number code.displacementPosition .dword).toNat
        else 0 := by
      simp only [Code.displacement, baseless, or_false]
    simp only [base, term, position, displacement]
    omega

end Addressing

/-- Decoding names the place and the extension of the addressing byte, and looks at the bytes that
this byte stands for. -/
theorem AddressedOperands.ofCode_eq (registers : Registers) (code : Code) (width : Width) :
    ofCode registers code width =
      { place := code.place registers width
        field := code.extension
        length := code.addressingLength } := by
  have length := length_ofCode registers code width
  have field := field_ofCode registers code width
  have place : (ofCode registers code width).place = code.place registers width := by
    by_cases register : code.addressing.top = 3
    · have mode : (ByteFields.ofByte (code.byte 0)).top = 3 := register
      simp only [ofCode, mode, if_true, Code.place, register]
      rfl
    · have mode : (ByteFields.ofByte (code.byte 0)).top ≠ 3 := register
      rw [Code.place, if_neg register, ← Addressing.value_address]
      simp only [ofCode, mode, if_false]
      rfl
  rw [← length, ← field, ← place]

namespace Exec

/-- Decoding at the instruction pointer reads the bytes of the encoding and moves over them. -/
theorem run_fetchOperands (width : Width) (core : Core) :
    (fetchOperands width).run core =
      (AddressedOperands.ofCode core.cpu.registers core.code width,
        core.past core.code.addressingLength) := by
  simp only [fetchOperands, run_bind, run_get, run_pure, run_advance_touch,
    AddressedOperands.length_ofCode]

/-- The operands at the instruction pointer. The middle field of the addressing byte is the
register or the extension. In mode 3 the lower field is the register of the other operand, and
in every other mode this operand lies in memory, at the sum of the base, the index and the
displacement. Nothing but the instruction pointer changes: it moves over the bytes that are read,
which follow one another, and once it is back the same operands are decoded again. -/
theorem fetchOperands_exact (width registerWidth : Width) (core : Core) :
    let code := core.code
    let registers := core.cpu.registers
    let first := (code.byte 0).toNat
    let operands := ((fetchOperands width).run core).1
    let after := ((fetchOperands width).run core).2
    let again := (fetchOperands width).run
      { after with cpu := { after.cpu with eip := core.cpu.eip } }
    (operands.field.val = first / 8 % 8 ∧
        Operand.register operands.field registerWidth = code.register registerWidth) ∧
      (first / 64 = 3 →
        ∃ register, operands.place = .register register width ∧ register.val = first % 8) ∧
      (first / 64 ≠ 3 →
        ∃ address, operands.place = .memory address width ∧
          (address.toNat : Int) =
            (code.baseTerm registers + code.indexTerm registers + code.displacement) %
              0x100000000) ∧
      after = core.past code.addressingLength ∧
      again.1 = operands ∧
      again.2.cpu = after.cpu := by
  intro code registers first operands after again
  have decoded : (fetchOperands width).run core = _ := run_fetchOperands width core
  have operands_eq : operands = _ := congrArg Prod.fst decoded
  have after_eq : after = core.past code.addressingLength := congrArg Prod.snd decoded
  have repeated : again = (operands, (core.record (Access.reads core.cpu.eip
      code.addressingLength)).past code.addressingLength) := by
    simp only [again, after_eq, operands_eq]
    exact run_fetchOperands width (core.record _)
  have mode : code.addressing.top = 3 ↔ first / 64 = 3 := by
    have small := (code.byte 0).toNat_lt
    simp only [Code.addressing, ByteFields.ofByte, Fin.ext_iff, Fin.val_ofNat, first]
    omega
  rw [AddressedOperands.ofCode_eq] at operands_eq
  refine ⟨⟨?field, ?register⟩, ?registerMode, ?memoryMode, after_eq, ?again⟩
  case field =>
    rw [operands_eq]
    rfl
  case register =>
    rw [operands_eq]
    rfl
  case registerMode =>
    intro three
    refine ⟨code.addressing.bottom, ?_, rfl⟩
    rw [operands_eq]
    exact if_pos (mode.mpr three)
  case memoryMode =>
    intro other
    refine ⟨code.effectiveAddress registers, ?_, toNat_ofInt _⟩
    rw [operands_eq]
    exact if_neg (mt mode.mp other)
  case again =>
    rw [repeated, after_eq]
    exact ⟨rfl, rfl⟩

/-- A place at `ebx + ecx * 4 - 4`. -/
theorem fetchOperands_exact_scaled :
    let registers := (Registers.zero.setWord 1 3).setWord 3 0x100
    let core := Core.start { Cpu.reset with registers } { bytes := #[0x44, 0x8B, 0xFC] }
    let fetched := (fetchOperands .dword).run core
    (core.code.byte 0).toNat / 64 ≠ 3 ∧ fetched.1.place = .memory 0x108 .dword ∧
      fetched.2.cpu.eip = 3 := by
  intro registers core fetched
  have mode : (core.code.byte 0).toNat / 64 ≠ 3 := by decide
  have facts := fetchOperands_exact .dword .dword core
  rcases facts.2.2.1 mode with ⟨address, place, sum⟩
  have found : address = 0x108 := by
    apply eq_of_toNat_cast
    exact sum.trans (by decide)
  rw [found] at place
  exact ⟨mode, place, (congrArg (·.cpu.eip) facts.2.2.2.1).trans (by decide)⟩

end Exec

end Ia32
