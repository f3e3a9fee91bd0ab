import Ia32.Proofs.Moves

/-!
# Short encodings

Some instructions have a short encoding beside the general one: the accumulator or a register of
the opcode stands for an addressing byte that would name it, and an address in the code for the
addressing byte without a base. The code behind that byte is the same in both, and so is what
happens: both are read as the same instruction, or as two that have the same effect.
-/

namespace Ia32

/-! ## Addressing bytes -/

/-- The addressing byte that names two registers, or an extension and a register. -/
def registerByte (middle bottom : Fin 8) : UInt8 :=
  (0xC0 : UInt8) ||| UInt8.ofNat middle.val <<< 3 ||| UInt8.ofNat bottom.val

/-- The addressing byte that names the accumulator and a place at an address in the code. -/
def directByte : UInt8 := 0x05

theorem ByteFields.ofByte_registerByte (middle bottom : Fin 8) :
    ofByte (registerByte middle bottom) = { top := 3, middle, bottom } := by
  revert middle bottom
  decide

theorem ByteFields.ofByte_directByte :
    ofByte directByte = { top := 0, middle := 0, bottom := 5 } := by
  decide

namespace Code

variable {code : Code} {middle bottom : Fin 8}

/-- A number behind the first byte of some code. -/
theorem number_drop (code : Code) (count position : Nat) (width : Width) :
    (code.drop count).number position width = code.number (count + position) width := by
  have same (length position : Nat) :
      (code.drop count).bytes position length = code.bytes (count + position) length := by
    induction length generalizing position with
    | zero => rfl
    | succ length ih =>
        simp only [bytes, ih, ← Nat.add_assoc]
        rfl
  simp only [number, same]

/-- What an addressing byte with two registers names: the registers and nothing behind them. -/
theorem ofCode_of_registerByte (first : code.byte 0 = registerByte middle bottom)
    (registers : Registers) (width : Width) :
    AddressedOperands.ofCode registers code width =
      { place := .register bottom width, field := middle, length := 1 } := by
  have fields := congrArg ByteFields.ofByte first
  rw [ByteFields.ofByte_registerByte] at fields
  simp only [AddressedOperands.ofCode, fields, if_true]

/-- What the addressing byte without a base names: the accumulator, and a place at the address
behind the byte. -/
theorem ofCode_of_directByte (first : code.byte 0 = directByte) (registers : Registers)
    (width : Width) :
    AddressedOperands.ofCode registers code width =
      { place := .memory (code.number 1 .dword) width, field := 0, length := 5 } := by
  have fields := congrArg ByteFields.ofByte first
  rw [ByteFields.ofByte_directByte] at fields
  simp [AddressedOperands.ofCode, fields, Addressing.address, Addressing.base,
    Addressing.displacement, Width.bytes]

end Code

/-! ## What forms come to -/

/-- What an attempt comes to, apart from the events that it notes. -/
structure Ending where
  answer : Except Fault Outcome
  cpu : Cpu
  memory : Memory

namespace Form

def ending (form : Form Width) (opcode : UInt8) (core : Core) : Ending :=
  let attempt := (form.attempt opcode).run core
  { answer := attempt.1, cpu := attempt.2.cpu, memory := attempt.2.memory }

/-- A form that reads an instruction comes to what the instruction does. -/
theorem ending_of_decode {form : Form Width} {opcode : UInt8} {core : Core}
    {instruction : Instruction} {length : Nat} (fits : form.ImmediateFits)
    (decoded : form.decode opcode core.cpu.registers core.code =
      .instruction instruction length) :
    let behind := { core.cpu with eip := core.cpu.eip + UInt32.ofNat length }
    let effect := instruction.effect behind core.memory
    form.ending opcode core =
      { answer := .ok (.executed instruction.mnemonic)
        cpu := effect.cpu
        memory := effect.memory } := by
  intro behind effect
  simp only [ending, run_attempt fits, run_execute_of_instruction decoded]
  rfl

/-- A short form abbreviates a general one at an addressing byte: behind the byte it carries out an
instruction, and comes to what the general form comes to in front of it. -/
def Abbreviates (short general : Form Width) (opcode other : UInt8) (core : Core) : Prop :=
  let behind := { core with cpu := { core.cpu with eip := core.cpu.eip + 1 } }
  (short.ending opcode behind).answer = .ok (.executed short.mnemonic) ∧
    short.ending opcode behind = general.ending other core

/-- A short form abbreviates a general one when both are read as instructions with the same effect,
the short one from the code behind the addressing byte. -/
theorem abbreviates_of_decode {short general : Form Width} {opcode other : UInt8} {core : Core}
    {instruction longer : Instruction} {length : Nat}
    (shortFits : short.ImmediateFits) (generalFits : general.ImmediateFits)
    (shortDecoded : short.decode opcode core.cpu.registers (core.code.drop 1) =
      .instruction instruction length)
    (generalDecoded : general.decode other core.cpu.registers core.code =
      .instruction longer (1 + length))
    (named : instruction.mnemonic = longer.mnemonic)
    (same : ∀ cpu memory, instruction.effect cpu memory = longer.effect cpu memory) :
    short.Abbreviates general opcode other core := by
  unfold Abbreviates
  intro behind
  have code : behind.code = core.code.drop 1 := Code.codeAt_add core.memory core.cpu.eip 1
  rw [← code] at shortDecoded
  have shortEnding : short.ending opcode behind = _ := ending_of_decode shortFits shortDecoded
  have generalEnding := ending_of_decode generalFits generalDecoded
  rw [shortEnding, generalEnding, same, named]
  refine ⟨?answer, ?ending⟩
  case answer =>
    rw [← mnemonic_of_decode shortDecoded, named]
  case ending =>
    simp only [behind, add_one_add_ofNat, Nat.add_comm length]

/-! ## Short forms -/

/-- The short forms and the general ones. An operation on the accumulator and an immediate value
is the one on an addressed place, at the byte that carries the extension of the operation and
names the accumulator. A move of an immediate value to the register in the opcode is the one to an
addressed place, at the byte that names the register. The moves between the accumulator and an
address in the code are those between a register and an addressed place, at the byte for the
accumulator and such an address. In each case the code behind the byte is read alike and the
answer, the processor and the memory are the same afterwards, also when the code is overwritten. -/
theorem short_forms_abbreviate (width : Width) (opcode other : UInt8) (core : Core) :
    let first := core.code.byte 0
    (∀ op : BinaryOp, first = registerByte op.extension 0 →
        (binaryAccumulatorImmediate op width).Abbreviates (binaryPlaceImmediate op width width)
          opcode other core) ∧
      (first = registerByte 0 (RegisterCode.ofByte opcode) →
        (moveRegisterImmediate width).Abbreviates (movePlaceImmediate width) opcode other core) ∧
      (first = directByte →
        (loadAccumulator width).Abbreviates (moveRegisterPlace width) opcode other core ∧
          (storeAccumulator width).Abbreviates (movePlaceRegister width) opcode other core) := by
  intro first
  refine ⟨?binary, ?move, ?direct⟩
  case binary =>
    intro op named
    have operands := Code.ofCode_of_registerByte named core.cpu.registers width
    have decoded : (binaryPlaceImmediate op width width).decode other core.cpu.registers core.code =
        .instruction (.binary op (.accumulator width) (immediate (core.code.drop 1) 0 width))
          (1 + width.bytes) := by
      simp only [decode, operands, decodeGroup, if_true, immediate, Code.number_drop]
      rfl
    exact abbreviates_of_decode trivial (Nat.le_refl _) rfl decoded rfl fun _ _ => rfl
  case move =>
    intro named
    have operands := Code.ofCode_of_registerByte named core.cpu.registers width
    have decoded : (movePlaceImmediate width).decode other core.cpu.registers core.code =
        .instruction (.move (.register (RegisterCode.ofByte opcode) width)
          (immediate (core.code.drop 1) 0 width)) (1 + width.bytes) := by
      simp only [decode, operands, decodeGroup, moveExtension, if_true, immediate,
        Code.number_drop]
    exact abbreviates_of_decode trivial trivial rfl decoded rfl fun _ _ => rfl
  case direct =>
    intro named
    have operands := Code.ofCode_of_directByte named core.cpu.registers width
    have address : (core.code.drop 1).number 0 .dword = core.code.number 1 .dword :=
      core.code.number_drop 1 0 .dword
    refine ⟨?load, ?store⟩
    case load =>
      have decoded : (moveRegisterPlace width).decode other core.cpu.registers core.code =
          .instruction (.move (.accumulator width)
            (.operand (.memory ((core.code.drop 1).number 0 .dword) width)))
            (1 + Width.dword.bytes) := by
        simp only [decode, operands, address]
        rfl
      exact abbreviates_of_decode trivial trivial rfl decoded rfl fun _ _ => rfl
    case store =>
      have decoded : (movePlaceRegister width).decode other core.cpu.registers core.code =
          .instruction (.move (.memory ((core.code.drop 1).number 0 .dword) width)
            (.operand (.accumulator width))) (1 + Width.dword.bytes) := by
        simp only [decode, operands, address]
        rfl
      exact abbreviates_of_decode trivial trivial rfl decoded rfl fun _ _ => rfl

/-- A subtraction from `al`, a move to `cx`, and a store over the last bytes of its own encoding,
of which one lies above the memory. -/
theorem short_forms_abbreviate_overwriting :
    let subtraction := Core.start .reset { bytes := #[0xE8, 0x01] }
    let move := Core.start .reset { bytes := #[0xC1, 0x34, 0x12] }
    let registers := Registers.zero.setWord .accumulator 0xA1B2C3D4
    let store := Core.start { Cpu.reset with registers } { bytes := #[0x05, 0x02, 0, 0, 0] }
    let sub := BinaryOp.arithmetic .sub
    (subtraction.code.byte 0 = registerByte sub.extension 0 ∧
        (binaryAccumulatorImmediate sub .byte).Abbreviates (binaryPlaceImmediate sub .byte .byte)
          0x2C 0x80 subtraction) ∧
      (move.code.byte 0 = registerByte 0 (RegisterCode.ofByte 0xB9) ∧
        (moveRegisterImmediate .word).Abbreviates (movePlaceImmediate .word) 0xB9 0xC7 move) ∧
      store.code.byte 0 = directByte ∧
        (storeAccumulator .dword).Abbreviates (movePlaceRegister .dword) 0xA3 0x89 store ∧
        ((movePlaceRegister .dword).ending 0x89 store).memory.bytes =
          #[0x05, 0x02, 0xD4, 0xC3, 0xB2] := by
  intro subtraction move registers store sub
  have extension : subtraction.code.byte 0 = registerByte sub.extension 0 := by decide
  have named : move.code.byte 0 = registerByte 0 (RegisterCode.ofByte 0xB9) := by decide
  have direct : store.code.byte 0 = directByte := by decide
  have subtracts := (short_forms_abbreviate .byte 0x2C 0x80 subtraction).1 sub extension
  have moves := (short_forms_abbreviate .word 0xB9 0xC7 move).2.1 named
  have stores := ((short_forms_abbreviate .dword 0xA3 0x89 store).2.2 direct).2
  exact ⟨⟨extension, subtracts⟩, ⟨named, moves⟩, direct, stores, by decide +kernel⟩

end Form

end Ia32
