import Ia32.Proofs.Effect

/-!
# Forms that accept and forms that decline

Which forms take which code. A form that shares its opcode takes the code that carries its
own extension and every other form takes all code. A form that takes the code has the effect
of the instruction it reads. A form that declines has moved the instruction pointer over the
operands and puts it back, so that the processor and the memory are as they were.
-/

namespace Ia32

namespace Code

/-- The extension in the first byte. -/
def extension (code : Code) : Extension :=
  (ByteFields.ofByte (code.byte 0)).middle

@[simp] theorem byte_codeAt (memory : Memory) (address : UInt32) (position : Nat) :
    (memory.codeAt address).byte position =
      memory.readByte (address + UInt32.ofNat position) := rfl

theorem extension_codeAt (memory : Memory) (address : UInt32) :
    (memory.codeAt address).extension =
      (ByteFields.ofByte (memory.readByte address)).middle := by
  rw [extension, byte_codeAt, add_ofNat_zero]

end Code

/-- The second field of the operands is where the extension stands. -/
@[simp] theorem AddressedOperands.field_ofCode (registers : Registers) (code : Code)
    (width : Width) : (ofCode registers code width).field = code.extension := by
  simp only [ofCode, Code.extension]
  split <;> rfl

namespace Form

variable {size other : Type}

/-- Whether a form takes code with the given extension. -/
def Accepts (form : Form size) (extension : Extension) : Prop :=
  form.extension? = none ∨ form.extension? = some extension

instance (form : Form size) (extension : Extension) : Decidable (form.Accepts extension) :=
  inferInstanceAs (Decidable (_ ∨ _))

@[simp] theorem extension?_map (f : size → other) (form : Form size) :
    (form.map f).extension? = form.extension? := by
  cases form <;> rfl

@[simp] theorem mnemonic_map (f : size → other) (form : Form size) :
    (form.map f).mnemonic = form.mnemonic := by
  cases form <;> rfl

@[simp] theorem mnemonic_resolve (full : Width) (form : Form OperandSize) :
    (form.resolve full).mnemonic = form.mnemonic :=
  mnemonic_map _ form

@[simp] theorem accepts_resolve (full : Width) (form : Form OperandSize)
    (extension : Extension) :
    (form.resolve full).Accepts extension ↔ form.Accepts extension := by
  simp [Accepts, resolve]

/-- A form does not take an extension exactly when it asks for another one. -/
theorem not_accepts_iff (form : Form size) (extension : Extension) :
    ¬form.Accepts extension ↔ ∃ own, form.extension? = some own ∧ own ≠ extension := by
  simp only [Accepts, not_or]
  constructor
  · rintro ⟨shared, different⟩
    rcases Option.ne_none_iff_exists'.mp shared with ⟨own, asked⟩
    refine ⟨own, asked, ?_⟩
    intro equal
    rw [equal] at asked
    exact different asked
  · rintro ⟨own, asked, different⟩
    simp [asked, different]

/-- A form that shares its opcode with no other has no immediate value to widen. -/
theorem immediateFits_of_alone {form : Form Width} (alone : form.extension? = none) :
    form.ImmediateFits := by
  cases form with
  | binaryPlaceImmediate op width immediateWidth => cases alone
  | _ => trivial

/-! ## Decoding -/

/-- What a form reads from code that it takes is an instruction with its mnemonic. -/
theorem decode_of_accepts {form : Form Width} {code : Code} (opcode : UInt8)
    (registers : Registers) (accepted : form.Accepts code.extension) :
    ∃ instruction length,
      form.decode opcode registers code = .instruction instruction length ∧
        instruction.mnemonic = form.mnemonic := by
  cases form with
  | movePlaceImmediate width | binaryPlaceImmediate op width immediateWidth | unary op width =>
      have carried := Option.some.inj (accepted.resolve_left nofun)
      simp [decode, decodeGroup, carried, Instruction.mnemonic, mnemonic]
  | binaryRegisterPlace op width => exact ⟨_, _, rfl, Instruction.mnemonic_toRegister ..⟩
  | _ => exact ⟨_, _, rfl, rfl⟩

/-- A form declines code that it does not take, and tells the extension it found. -/
theorem decode_of_not_accepts {form : Form Width} {code : Code} (opcode : UInt8)
    (registers : Registers) (refused : ¬form.Accepts code.extension) :
    ∃ length, form.decode opcode registers code = .declined code.extension length := by
  rcases (not_accepts_iff form code.extension).mp refused with ⟨own, asked, different⟩
  cases form with
  | movePlaceImmediate width | binaryPlaceImmediate op width immediateWidth | unary op width =>
      rcases Option.some.inj asked with rfl
      simp [decode, decodeGroup, Ne.symm different]
  | _ => cases asked

/-! ## Carrying out a form -/

/-- A form that takes the code reads it and has the effect of the instruction. -/
theorem run_execute_of_instruction {form : Form Width} {opcode : UInt8} {core : Core}
    {instruction : Instruction} {length : Nat}
    (decoded : form.decode opcode core.cpu.registers core.code =
      .instruction instruction length) :
    let behind := { core.cpu with eip := core.cpu.eip + UInt32.ofNat length }
    let effect :=
      (instruction.effect behind core.memory).after (Access.reads core.cpu.eip length)
    (form.execute opcode).run core =
      (.executed instruction.mnemonic,
        (core.apply effect).push (.executed instruction effect.word)) := by
  intro behind effect
  have performed :
      instruction.perform.run (core.past length) = (effect.word, core.apply effect) := by
    rw [Instruction.run_perform]
    exact congrArg _ (Core.apply_record core _ _)
  simp only [execute, Exec.run_bind, Exec.run_get, decoded, Decoded.length,
    Exec.run_advance_touch, performed]
  rfl

/-- A form that declines reads its operands and leaves the processor and the memory alone. -/
theorem run_execute_of_declined {form : Form Width} {opcode : UInt8} {core : Core}
    {extension : Extension} {length : Nat}
    (decoded : form.decode opcode core.cpu.registers core.code =
      .declined extension length) :
    (form.execute opcode).run core =
      (.declined core.cpu.eip,
        (core.record (Access.reads core.cpu.eip length)).push
          (.declined form.mnemonic extension core.cpu.eip)) := by
  simp only [execute, Exec.run_bind, Exec.run_get, decoded, Decoded.length,
    Exec.run_advance_touch]
  rfl

theorem run_attempt {form : Form Width} (fits : form.ImmediateFits) (opcode : UInt8)
    (core : Core) :
    (form.attempt opcode).run core =
      (.ok ((form.execute opcode).run core).1, ((form.execute opcode).run core).2) := by
  simp [attempt, fits]

/-- An attempt at code that a form takes carries out an instruction of the form. -/
theorem attempt_of_accepts {form : Form Width} (fits : form.ImmediateFits) (opcode : UInt8)
    {core : Core} (accepted : form.Accepts core.code.extension) :
    ((form.attempt opcode).run core).1 = .ok (.executed form.mnemonic) := by
  rcases decode_of_accepts opcode core.cpu.registers accepted with
    ⟨instruction, length, decoded, named⟩
  rw [run_attempt fits, run_execute_of_instruction decoded, named]

/-- What a form reports when it declines the code at the instruction pointer: the bytes above the
memory among those it has looked at, and the extension it has found. -/
def refusal (opcode : UInt8) (cpu : Cpu) (memory : Memory) (form : Form Width) : Array Event :=
  let code := memory.codeAt cpu.eip
  let length := (form.decode opcode cpu.registers code).length
  (Access.events memory.size (Access.reads cpu.eip length)).push
    (.declined form.mnemonic code.extension cpu.eip)

/-- What some forms report when they decline one after the other. -/
def refusals (opcode : UInt8) (cpu : Cpu) (memory : Memory) : List (Form Width) → Array Event
  | [] => #[]
  | form :: forms => form.refusal opcode cpu memory ++ refusals opcode cpu memory forms

/-- An attempt at code that a form does not take adds the refusal of the form to the journal. -/
theorem run_attempt_of_not_accepts {form : Form Width} (fits : form.ImmediateFits)
    (opcode : UInt8) {core : Core} (refused : ¬form.Accepts core.code.extension) :
    (form.attempt opcode).run core =
      (.ok (.declined core.cpu.eip),
        { core with journal := core.journal ++ form.refusal opcode core.cpu core.memory }) := by
  rcases decode_of_not_accepts opcode core.cpu.registers refused with ⟨length, decoded⟩
  have looked : form.decode opcode core.cpu.registers (core.memory.codeAt core.cpu.eip) =
      .declined core.code.extension length := decoded
  rw [run_attempt fits, run_execute_of_declined decoded, refusal, looked, Array.append_push]
  rfl

/-- An attempt at code that a form does not take changes nothing but the journal. -/
theorem attempt_of_not_accepts {form : Form Width} (fits : form.ImmediateFits)
    (opcode : UInt8) {core : Core} (refused : ¬form.Accepts core.code.extension) :
    ∃ journal, (form.attempt opcode).run core =
      (.ok (.declined core.cpu.eip), { core with journal }) :=
  ⟨_, run_attempt_of_not_accepts fits opcode refused⟩

/-- A form whose immediate value fits its operand declines exactly when it shares its opcode
and the byte at the instruction pointer carries another extension than its own. It then
leaves the processor and the memory as they were, and the pointer it answers is the one it
started from. In every other case it carries out an instruction with its mnemonic. -/
theorem attempt_declines_iff_and_restores (form : Form OperandSize) (opcode : UInt8)
    (full : Width) (core : Core) (fits : (form.resolve full).ImmediateFits) :
    let attempt := ((form.resolve full).attempt opcode).run core
    let extension := (ByteFields.ofByte (core.memory.readByte core.cpu.eip)).middle
    ((∃ eip, attempt.1 = .ok (.declined eip)) ↔
        ∃ own, form.extension? = some own ∧ own ≠ extension) ∧
      (∀ eip, attempt.1 = .ok (.declined eip) →
        eip = core.cpu.eip ∧ attempt.2.cpu = core.cpu ∧ attempt.2.memory = core.memory) ∧
      ((¬∃ eip, attempt.1 = .ok (.declined eip)) →
        attempt.1 = .ok (.executed form.mnemonic)) := by
  intro attempt extension
  have same : core.code.extension = extension := Code.extension_codeAt _ _
  rw [← not_accepts_iff, ← accepts_resolve full, ← same]
  by_cases accepted : (form.resolve full).Accepts core.code.extension
  · have executed : attempt.1 = .ok (.executed form.mnemonic) := by
      rw [← mnemonic_resolve full form]
      exact attempt_of_accepts fits opcode accepted
    simp [executed, accepted]
  · rcases attempt_of_not_accepts fits opcode accepted with ⟨journal, declined⟩
    have answer : attempt.1 = .ok (.declined core.cpu.eip) := congrArg Prod.fst declined
    have after : attempt.2 = { core with journal } := congrArg Prod.snd declined
    simp [answer, after, accepted]

/-- An addition declines the operands of a subtraction, `E8 01` behind the opcode `83`. -/
theorem addition_declines_subtraction :
    let form : Form OperandSize := .binaryPlaceImmediate (.arithmetic .add) .full .byte
    let core := Core.start .reset { bytes := #[0xE8, 0x01] }
    let attempt := ((form.resolve .dword).attempt 0x83).run core
    (form.resolve .dword).ImmediateFits ∧
      ∃ eip, attempt.1 = .ok (.declined eip) ∧ attempt.2.cpu = core.cpu := by
  intro form core attempt
  have fits : (form.resolve .dword).ImmediateFits := by decide
  have behaves := attempt_declines_iff_and_restores form 0x83 .dword core fits
  rcases behaves.1.mpr ⟨0, rfl, by decide⟩ with ⟨eip, declined⟩
  exact ⟨fits, eip, declined, (behaves.2.1 eip declined).2.1⟩

end Form

end Ia32
