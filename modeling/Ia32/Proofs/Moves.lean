import Ia32.Proofs.Cells
import Ia32.Proofs.EffectiveAddress

/-!
# Moves

What a form does with the code in front of it, from the answer to the last cell: the bytes that
it stores, the flags that it leaves, and the way of the instruction pointer. Everything that it
works on is taken from the state before, so that nothing depends on whether the cells that are
stored to take part in the address, in the other operand, or in the code. For the moves the bytes
are those of the source.
-/

namespace Ia32

open LittleEndian (digit)

namespace Core

/-- The registers and the memory of a state. -/
def storage (core : Core) : Storage :=
  (core.cpu.registers, core.memory)

/-- The value of an operand. -/
def value (core : Core) (operand : Operand) : UInt32 :=
  operand.value core.cpu.registers core.memory

/-- The place that the addressing byte at the instruction pointer names. -/
def place (core : Core) (width : Width) : Operand :=
  core.code.place core.cpu.registers width

@[simp] theorem width_place (core : Core) (width : Width) : (core.place width).width = width := by
  unfold place Code.place
  split <;> rfl

theorem digit_value (core : Core) (operand : Operand) {offset : Nat}
    (inside : offset < operand.width.bytes) :
    digit (core.value operand).toNat offset = operand.byte core.storage offset :=
  operand.digit_value core.cpu.registers core.memory inside

end Core

theorem Instruction.word_move (destination : Operand) (source : Source) (cpu : Cpu)
    (memory : Memory) :
    ((move destination source).effect cpu memory).word =
      source.value (fun _ value => value) cpu.registers memory := by
  simp only [effect, Effect.word_after, Operand.word_store]

namespace Form

/-! ## What a form does -/

/-- A form takes the code in front of it: it stores some bytes in the cells of an operand, if
there is one, leaves the given flags, and moves the instruction pointer over the code. -/
structure Performs (form : Form Width) (opcode : UInt8) (core : Core) (place? : Option Operand)
    (byte : Nat → UInt8) (flags : Flags) (length : Nat) : Prop where
  answer : ((form.attempt opcode).run core).1 = .ok (.executed form.mnemonic)
  stores : Stores place? byte core.storage ((form.attempt opcode).run core).2.storage
  flags : ((form.attempt opcode).run core).2.cpu.flags = flags
  eip : ((form.attempt opcode).run core).2.cpu.eip = core.cpu.eip + UInt32.ofNat length

section

variable {form : Form Width} {opcode : UInt8} {core : Core} {instruction : Instruction}
  {length : Nat}

/-- What a form reads is an instruction with its mnemonic. -/
theorem mnemonic_of_decode {registers : Registers} {code : Code}
    (decoded : form.decode opcode registers code = .instruction instruction length) :
    instruction.mnemonic = form.mnemonic := by
  by_cases accepted : form.Accepts code.extension
  · rcases decode_of_accepts opcode registers accepted with ⟨other, _, read, named⟩
    rw [decoded] at read
    cases read
    exact named
  · rcases decode_of_not_accepts opcode registers accepted with ⟨_, declined⟩
    rw [decoded] at declined
    cases declined

/-- A form that reads an instruction other than a jump performs what the instruction does. -/
theorem performs_of_decode (fits : form.ImmediateFits)
    (decoded : form.decode opcode core.cpu.registers core.code =
      .instruction instruction length)
    (straight : instruction.mnemonic ≠ .jmp) :
    let behind := { core.cpu with eip := core.cpu.eip + UInt32.ofNat length }
    let effect := instruction.effect behind core.memory
    form.Performs opcode core instruction.target? (digit effect.word.toNat) effect.cpu.flags
      length := by
  intro behind effect
  -- The state differs from the effect of the instruction in the journal alone.
  have attempted : (form.attempt opcode).run core =
      (.ok (.executed instruction.mnemonic),
        (core.apply (effect.after (Access.reads core.cpu.eip length))).push
          (.executed instruction effect.word)) := by
    rw [run_attempt fits, run_execute_of_instruction decoded]
    rfl
  refine ⟨?answer, ?stores, ?flags, ?eip⟩
  case answer =>
    rw [attempted, mnemonic_of_decode decoded]
  case stores =>
    rw [attempted]
    exact instruction.stores_effect behind core.memory
  case flags =>
    rw [attempted]
    rfl
  case eip =>
    have moved : effect.cpu.eip = _ := instruction.eip_effect behind core.memory
    rw [distance_of_decode decoded, if_neg straight, Int.add_zero, ofInt_toNat] at moved
    rw [attempted]
    exact moved

end

/-! ## Moves -/

/-- A form moves some bytes to an operand and keeps the flags. -/
def Moves (form : Form Width) (opcode : UInt8) (core : Core) (destination : Operand)
    (byte : Nat → UInt8) (length : Nat) : Prop :=
  form.Performs opcode core (some destination) byte core.cpu.flags length

section

variable {form : Form Width} {opcode : UInt8} {core : Core} {instruction : Instruction}
  {length : Nat} {destination : Operand} {byte : Nat → UInt8}

theorem moves_of_decode (moving : form.mnemonic = .mov) (fits : form.ImmediateFits)
    (decoded : form.decode opcode core.cpu.registers core.code =
      .instruction instruction length)
    (target : instruction.target? = some destination)
    (same : ∀ eip, ∀ offset < destination.width.bytes,
      digit (instruction.effect { core.cpu with eip } core.memory).word.toNat offset =
        byte offset) :
    form.Moves opcode core destination byte length := by
  have mov : instruction.mnemonic = .mov := (mnemonic_of_decode decoded).trans moving
  have straight : instruction.mnemonic ≠ .jmp := by
    rw [mov]
    decide
  have performs := performs_of_decode fits decoded straight
  have kept := instruction.flagRule_effect
    { core.cpu with eip := core.cpu.eip + UInt32.ofNat length } core.memory
  rw [mov] at kept
  rw [target] at performs
  -- The bytes outside the destination play no part, so only those inside are compared.
  refine ⟨performs.answer, performs.stores.congr ?_, performs.flags.trans kept, performs.eip⟩
  rintro _ ⟨⟩
  exact same _

end

/-- The six moves. The bytes that are stored are those of the immediate value, of the register,
of the place that the addressing byte names, or of the place at an address in the code, as they
were before; what takes no cell is lost. -/
theorem moves_perform (width : Width) (opcode : UInt8) (core : Core) :
    let code := core.code
    let storage := core.storage
    let named := Operand.register (RegisterCode.ofByte opcode) width
    let place := core.place width
    let register := code.register width
    let accumulator := Operand.accumulator width
    let direct := Operand.memory (code.number 0 .dword) width
    (moveRegisterImmediate width).Moves opcode core named code.byte width.bytes ∧
      (code.extension = moveExtension →
        (movePlaceImmediate width).Moves opcode core place
          (fun offset => code.byte (code.addressingLength + offset))
          (code.addressingLength + width.bytes)) ∧
      (movePlaceRegister width).Moves opcode core place (register.byte storage)
        code.addressingLength ∧
      (moveRegisterPlace width).Moves opcode core register (place.byte storage)
        code.addressingLength ∧
      (loadAccumulator width).Moves opcode core accumulator (direct.byte storage)
        Width.dword.bytes ∧
      (storeAccumulator width).Moves opcode core direct (accumulator.byte storage)
        Width.dword.bytes := by
  intro code storage named place register accumulator direct
  have operands := AddressedOperands.ofCode_eq core.cpu.registers code width
  refine ⟨?immediate, ?placeImmediate, ?placeRegister, ?registerPlace, ?load, ?store⟩
  case immediate =>
    refine moves_of_decode rfl trivial rfl rfl ?_
    intro eip offset inside
    rw [Instruction.word_move]
    exact (code.digit_number 0 inside).trans (congrArg code.byte (Nat.zero_add offset))
  case placeImmediate =>
    intro extension
    have decoded : (movePlaceImmediate width).decode opcode core.cpu.registers code =
        .instruction (.move place (immediate code code.addressingLength width))
          (code.addressingLength + width.bytes) := by
      simp only [decode, operands]
      exact if_pos extension
    refine moves_of_decode rfl trivial decoded rfl ?_
    intro eip offset inside
    rw [core.width_place] at inside
    rw [Instruction.word_move]
    exact code.digit_number code.addressingLength inside
  case placeRegister =>
    have decoded : (movePlaceRegister width).decode opcode core.cpu.registers code =
        .instruction (.move place (.operand register)) code.addressingLength := by
      simp only [decode, operands]
      rfl
    refine moves_of_decode rfl trivial decoded rfl ?_
    intro eip offset inside
    rw [core.width_place] at inside
    rw [Instruction.word_move]
    exact core.digit_value register inside
  case registerPlace =>
    have decoded : (moveRegisterPlace width).decode opcode core.cpu.registers code =
        .instruction (.move register (.operand place)) code.addressingLength := by
      simp only [decode, operands]
      rfl
    refine moves_of_decode rfl trivial decoded rfl ?_
    intro eip offset inside
    rw [Instruction.word_move]
    apply core.digit_value place
    rwa [core.width_place]
  case load =>
    refine moves_of_decode rfl trivial rfl rfl ?_
    intro eip offset inside
    exact core.digit_value direct inside
  case store =>
    refine moves_of_decode rfl trivial rfl rfl ?_
    intro eip offset inside
    exact core.digit_value accumulator inside

/-- A move of a doubleword over its own opcode and the bytes behind it. -/
theorem moves_perform_overwriting :
    let core := Core.start { Cpu.reset with eip := 1 }
      { bytes := #[0xC7, 0x05, 0, 0, 0, 0, 0xF4, 0xF4, 0xF4, 0xF4] }
    let after := (((movePlaceImmediate .dword).attempt 0xC7).run core).2
    core.code.extension = moveExtension ∧
      after.memory.bytes[0]? = some 0xF4 ∧ after.cpu.eip = 10 := by
  intro core after
  have extension : core.code.extension = moveExtension := by decide
  have moves := (moves_perform .dword 0xC7 core).2.1 extension
  have cell : (core.place .dword).cell 0 = .memory 0 := by decide
  have stored := moves.stores.inside _ rfl 0 (by decide)
  rw [cell] at stored
  exact ⟨extension, stored.trans (by decide), moves.eip.trans (by decide)⟩

end Form

end Ia32
