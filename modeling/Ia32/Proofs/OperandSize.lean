import Ia32.Proofs.Relocation

/-!
# Operand-size bytes without effect

An operand-size byte makes full operands one word wide. Some opcodes have no full operands: the
one that halts, and those whose forms all work on bytes. In front of these the byte takes up one
byte of code and does nothing else, so that a step at the byte and a step behind it lead to the
same machine. Only an error tells them apart, by the address where the step started.
-/

namespace Ia32

/-! ## Opcodes without full operands -/

namespace OpcodeMap

/-- The opcodes without full operands: those of the operations on bytes, and the one that
halts. -/
def neutralOpcodes : List Nat :=
  [0x00, 0x02, 0x04, 0x08, 0x0A, 0x0C, 0x20, 0x22, 0x24, 0x28, 0x2A, 0x2C, 0x30, 0x32, 0x34,
    0x38, 0x3A, 0x3C, 0x80, 0x84, 0x88, 0x8A, 0xA0, 0xA2, 0xA8, 0xB0, 0xB1, 0xB2, 0xB3, 0xB4,
    0xB5, 0xB6, 0xB7, 0xC6, 0xEB, 0xF4, 0xF6]

/-- They are the opcode that halts and those that have forms, all of which work on bytes. -/
theorem mem_neutralOpcodes_iff (opcode : UInt8) :
    opcode.toNat ∈ neutralOpcodes ↔
      opcode = halt ∨ forms opcode ≠ [] ∧ ∀ form ∈ forms opcode, form.operand = .byte := by
  have every : ∀ opcode, opcode.toNat ∈ neutralOpcodes ↔
      opcode = halt ∨
        (forms opcode).isEmpty = false ∧ ∀ form ∈ forms opcode, form.operand = .byte :=
    forall_opcode (by decide +kernel)
  rw [every, ne_eq, ← List.isEmpty_iff, Bool.not_eq_true]

/-- A form of the opcode map that works on bytes has no full operand, so that their width makes no
difference to it. -/
theorem resolve_of_operand_eq_byte {opcode : UInt8} {form : Form OperandSize}
    (member : form ∈ forms opcode) (bytes : form.operand = .byte) (full other : Width) :
    form.resolve full = form.resolve other := by
  have every : ∀ opcode, ∀ form ∈ forms opcode, form.operand = .byte →
      form.map (fun _ => OperandSize.byte) = form :=
    forall_opcode (by decide +kernel)
  rw [← every opcode form member bytes]
  cases form <;> rfl

theorem ne_operandSizeByte_of_mem {opcode : UInt8} (neutral : opcode.toNat ∈ neutralOpcodes) :
    opcode ≠ operandSizeByte := by
  rintro rfl
  exact absurd neutral (by decide)

end OpcodeMap

/-! ## Readings -/

namespace Reading

/-- The reading of some code with one byte in front of it that takes no part. -/
def behindByte : Reading → Reading
  | .halt length => .halt (length + 1)
  | .unknownOpcode opcode => .unknownOpcode opcode
  | .unknownExtension opcode extension => .unknownExtension opcode extension
  | .decoded instruction length => .decoded instruction (length + 1)

/-- An operand-size byte takes no part in front of an opcode without full operands. -/
theorem ofCode_of_neutral {code : Code} (first : code.byte 0 = OpcodeMap.operandSizeByte)
    (neutral : (code.byte 1).toNat ∈ OpcodeMap.neutralOpcodes) (registers : Registers) :
    ofCode registers code = (ofCode registers (code.drop 1)).behindByte := by
  have opening : code.opening = { opcode := code.byte 1, position := 1, full := .word } :=
    if_pos first
  have openingBehind :
      (code.drop 1).opening = { opcode := code.byte 1, position := 0, full := .dword } :=
    if_neg (OpcodeMap.ne_operandSizeByte_of_mem neutral)
  have operands : code.operands = (code.drop 1).operands := by
    rw [Code.operands, Code.operands, opening, openingBehind]
    simp only [Code.drop, ← Nat.add_assoc]
  unfold ofCode
  dsimp only
  rw [opening, openingBehind, operands]
  by_cases halting : code.byte 1 = OpcodeMap.halt
  · simp only [halting, if_true, behindByte]
  rw [if_neg halting, if_neg halting]
  rcases (OpcodeMap.mem_neutralOpcodes_iff _).mp neutral with halts | ⟨known, bytes⟩
  · exact absurd halts halting
  rw [if_neg (mt List.isEmpty_iff.mp known), if_neg (mt List.isEmpty_iff.mp known)]
  cases selected : OpcodeMap.selected? (code.byte 1) (code.drop 1).operands.extension with
  | none => rfl
  | some form =>
      have member := (OpcodeMap.selected?_eq_some_iff.mp selected).1
      dsimp only
      rw [OpcodeMap.resolve_of_operand_eq_byte member (bytes form member) .word .dword]
      cases (form.resolve .dword).decode (code.byte 1) registers (code.drop 1).operands with
      | instruction instruction length =>
          simp only [behindByte, Nat.zero_add, Nat.add_right_comm]
      | declined extension length => rfl

end Reading

namespace Machine

/-! ## Steps -/

/-- The machine with the instruction pointer behind the next byte. -/
def behindByte (machine : Machine) : Machine :=
  { machine with cpu := { machine.cpu with eip := machine.cpu.eip + 1 } }

theorem code_behindByte (machine : Machine) : machine.behindByte.code = machine.code.drop 1 :=
  Code.codeAt_add machine.memory machine.cpu.eip 1

/-- A reading from the second byte comes to the same behind the first one. -/
theorem follow_behindByte (machine : Machine) (reading : Reading) :
    let ahead := machine.follow reading.behindByte
    let behind := machine.behindByte.follow reading
    AnswersAlike machine.cpu.eip machine.behindByte.cpu.eip ahead.1 behind.1 ∧
      (∀ step, ahead.1 = .ok step → ahead.2 = behind.2) ∧
      ∀ error, ahead.1 = .error error → ahead.2 = machine ∧ behind.2 = machine.behindByte := by
  cases reading with
  | halt length =>
      refine ⟨.step .halted, fun step _ => ?same, fun error failed => ?fails⟩
      case same => simp only [follow, Reading.behindByte, behindByte, add_one_add_ofNat]
      case fails => cases failed
  | unknownOpcode opcode =>
      refine ⟨.unknownOpcode opcode, fun step executed => ?_, fun _ _ => ⟨rfl, rfl⟩⟩
      cases executed
  | unknownExtension opcode extension =>
      refine ⟨.unknownExtension opcode extension, fun step executed => ?_,
        fun _ _ => ⟨rfl, rfl⟩⟩
      cases executed
  | decoded instruction length =>
      refine ⟨.step (.executed instruction.mnemonic), fun step _ => ?same,
        fun error failed => ?fails⟩
      case same => simp only [follow, Reading.behindByte, behindByte, add_one_add_ofNat]
      case fails => cases failed

/-- An operand-size byte does nothing in front of an opcode without full operands. A step at the
byte and a step behind it carry out the same instruction or both halt, and lead to the same
machine; or they fail in the same way, each with the address where it started, and leave the
machines as they are. -/
theorem step_behind_operandSizeByte (machine : Machine) (running : machine.halted = false)
    (first : machine.code.byte 0 = OpcodeMap.operandSizeByte)
    (neutral : (machine.code.byte 1).toNat ∈ OpcodeMap.neutralOpcodes) :
    let behind := machine.behindByte
    AnswersAlike machine.cpu.eip (machine.cpu.eip + 1) machine.step.result behind.step.result ∧
      (∀ step, machine.step.result = .ok step → machine.step.machine = behind.step.machine) ∧
      ∀ error, machine.step.result = .error error →
        machine.step.machine = machine ∧ behind.step.machine = behind := by
  intro behind
  have reading : machine.reading = behind.reading.behindByte := by
    rw [Machine.reading, Machine.reading, code_behindByte]
    exact Reading.ofCode_of_neutral first neutral _
  have behindRunning : behind.halted = false := running
  rw [result_step running, machine_step running, result_step behindRunning,
    machine_step behindRunning, reading]
  exact machine.follow_behindByte behind.reading

/-- The negation of `ah`, the end of a program, and an extension that no operation of the
immediate group has. -/
theorem step_behind_operandSizeByte_bytes :
    let negation := withMemory {} { bytes := #[0x66, 0xF6, 0xDC] }
    let halt := withMemory {} { bytes := #[0x66, 0xF4] }
    let refused := withMemory {} { bytes := #[0x66, 0x80, 0xD0] }
    negation.step.machine = negation.behindByte.step.machine ∧
      halt.step.machine = halt.behindByte.step.machine ∧
      AnswersAlike 0 1 refused.step.result refused.behindByte.step.result ∧
      refused.step.machine = refused ∧ refused.behindByte.step.machine = refused.behindByte := by
  intro negation halt refused
  have negates := step_behind_operandSizeByte negation rfl (by decide) (by decide)
  have halts := step_behind_operandSizeByte halt rfl (by decide) (by decide)
  have refuses := step_behind_operandSizeByte refused rfl (by decide) (by decide)
  have negated : negation.step.result = .ok (.executed .neg) :=
    (step_result_iff rfl _).mpr ((Answers.executed_iff _).mpr (by decide))
  have halted : halt.step.result = .ok .halted :=
    (step_result_iff rfl _).mpr (Answers.halted_iff.mpr (by decide))
  have answer : refused.step.result = .error (.decode (.unknownExtension 0x80 2 0)) :=
    (step_result_iff rfl _).mpr ((Answers.unknownExtension_iff _ _ _).mpr (by decide))
  have unchanged := refuses.2.2 _ answer
  exact ⟨negates.2.1 _ negated, halts.2.1 _ halted, refuses.1, unchanged.1, unchanged.2⟩

end Machine

end Ia32
