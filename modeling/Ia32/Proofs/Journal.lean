import Ia32.Proofs.Execution

/-!
# What a step reports

The journal of a step that carries out an instruction, event by event: the bytes above the
memory among those of the opcode, what each form reports that was tried and declined, the bytes
above the memory that the instruction was read from or accessed, and the instruction itself.
-/

namespace Ia32

namespace Exec

section Listed

variable {opcode : UInt8} {refused forms : List (Form OperandSize)} {form : Form OperandSize}
  (listed : OpcodeMap.forms opcode = refused ++ form :: forms)

include listed

/-- What trying the forms of an opcode does and reports when the forms in front of one decline
and this one takes the code. -/
theorem run_tryForms_of_listed (core : Core) {full : Width} {instruction : Instruction}
    {length : Nat} (declines : ∀ other ∈ refused, ¬other.Accepts core.code.extension)
    (decoded : (form.resolve full).decode opcode core.cpu.registers core.code =
      .instruction instruction length) :
    let passed := Form.refusals opcode core.cpu core.memory (refused.map (Form.resolve full))
    let behind := { core.cpu with eip := core.cpu.eip + UInt32.ofNat length }
    let effect :=
      (instruction.effect behind core.memory).after (Access.reads core.cpu.eip length)
    (tryForms opcode full core.cpu.eip (OpcodeMap.forms opcode)).run core =
      (.ok (some instruction.mnemonic),
        ({ core with journal := core.journal ++ passed }.apply effect).push
          (.executed instruction effect.word)) := by
  have fits := fits_of_perm (List.Perm.refl (OpcodeMap.forms opcode)) full
  rw [listed] at fits ⊢
  exact run_tryForms_of_taken core fits declines decoded

end Listed

end Exec

namespace Machine

/-- The processor with its pointer behind the opcode. -/
def behindOpcode (machine : Machine) : Cpu :=
  { machine.cpu with
    eip := machine.cpu.eip + UInt32.ofNat (machine.code.opening.position + 1) }

variable {machine : Machine} {form : Form OperandSize} {instruction : Instruction}

/-- The forms in front of the one that is carried out decline. -/
theorem CarriesOut.exists_refused (carried : machine.CarriesOut form instruction) :
    ∃ refused forms,
      OpcodeMap.forms machine.code.opening.opcode = refused ++ form :: forms ∧
        ∀ other ∈ refused, ¬other.Accepts machine.code.operands.extension := by
  rcases List.append_of_mem carried.member with ⟨refused, forms, listed⟩
  refine ⟨refused, forms, listed, fun other earlier accepts => ?_⟩
  have apart := OpcodeMap.pairwise_apart_forms machine.code.opening.opcode
  rw [listed] at apart
  exact (List.pairwise_append.mp apart).2.2 other earlier form List.mem_cons_self _ accepts
    carried.accepted

/-- What a step reports that carries out an instruction: the bytes above the memory among those
of the opcode, the refusals of the forms in front, the bytes above the memory among those behind
the opcode and those that the instruction accesses, and the instruction with its word. -/
theorem CarriesOut.events (carried : machine.CarriesOut form instruction) :
    let size := machine.memory.size
    let code := machine.code
    let effect := instruction.effect machine.behind machine.memory
    ∃ refused forms,
      OpcodeMap.forms code.opening.opcode = refused ++ form :: forms ∧
      (∀ other ∈ refused, ¬other.Accepts code.operands.extension) ∧
      machine.step.events =
        (Access.events size (Access.reads machine.cpu.eip (code.opening.position + 1)) ++
          Form.refusals code.opening.opcode machine.behindOpcode machine.memory
            (refused.map (Form.resolve code.opening.full)) ++
          Access.events size
            (Access.reads machine.behindOpcode.eip (code.layout.length code.operands) ++
              effect.accesses)).push (.executed instruction effect.word) := by
  intro size code effect
  rcases carried.exists_refused with ⟨refused, forms, listed, declines⟩
  refine ⟨refused, forms, listed, declines, ?_⟩
  have known := List.ne_nil_of_mem carried.member
  have moving : code.opening.opcode ≠ OpcodeMap.halt := by
    intro halting
    rw [halting] at known
    exact known rfl
  let fetched := Exec.behindOpcode (.start machine.cpu machine.memory)
  have behind : fetched.code = code.operands := Exec.code_behindOpcode _
  have taken := Exec.run_tryForms_of_listed listed fetched
    (by rwa [behind]) (by rw [behind]; exact carried.decoded)
  have run := Exec.run_executeNext_of_taken (.start machine.cpu machine.memory) moving known taken
  have moved : { fetched.cpu with
      eip := fetched.cpu.eip + UInt32.ofNat (code.layout.length code.operands) } =
        machine.behind := Exec.advance_behindOpcode ..
  have noted : fetched.journal =
      Access.events size (Access.reads machine.cpu.eip (code.opening.position + 1)) :=
    Array.empty_append
  rw [moved, noted] at run
  simp only [step, stepWith, stepBy, carried.running, Bool.false_eq_true, if_false, run]
  rfl

end Machine

end Ia32
