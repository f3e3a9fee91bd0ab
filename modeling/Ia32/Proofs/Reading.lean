import Ia32.Machine
import Ia32.Proofs.OpcodeMap

/-!
# Reading code once

What some code is to a machine, read in one pass: the opcode and the extension behind it
select a form, and that form alone decodes the operands. A reading knows nothing of where
the code lies. It tells what a step finds there and which processor and memory it leaves.
-/

namespace Ia32

/-- What stands in front of the operands: the opcode, its position behind an operand-size
byte or without one, and the width of full operands. -/
structure Opening where
  opcode : UInt8
  position : Nat
  full : Width
  deriving DecidableEq, Repr

namespace Code

/-- The code from a position onwards. -/
def drop (code : Code) (count : Nat) : Code :=
  { byte := fun position => code.byte (count + position) }

def opening (code : Code) : Opening :=
  if code.byte 0 = OpcodeMap.operandSizeByte then
    { opcode := code.byte 1, position := 1, full := .word }
  else
    { opcode := code.byte 0, position := 0, full := .dword }

/-- The code behind the opcode. -/
def operands (code : Code) : Code :=
  code.drop (code.opening.position + 1)

theorem codeAt_add (memory : Memory) (address : UInt32) (count : Nat) :
    memory.codeAt (address + UInt32.ofNat count) = (memory.codeAt address).drop count := by
  simp only [Memory.codeAt, drop, UInt32.ofNat_add, UInt32.add_assoc]

end Code

/-- What some code is to a machine. -/
inductive Reading where
  | halt (length : Nat)
  | unknownOpcode (opcode : UInt8)
  | unknownExtension (opcode : UInt8) (extension : Extension)
  | decoded (instruction : Instruction) (length : Nat)
  deriving DecidableEq, Repr

namespace Reading

/-- Read some code by the form that its opcode and its extension select. -/
def ofCode (registers : Registers) (code : Code) : Reading :=
  let opening := code.opening
  let extension := code.operands.extension
  if opening.opcode = OpcodeMap.halt then
    .halt (opening.position + 1)
  else if (OpcodeMap.forms opening.opcode).isEmpty then
    .unknownOpcode opening.opcode
  else
    match OpcodeMap.selected? opening.opcode extension with
    | none => .unknownExtension opening.opcode extension
    | some form =>
        match (form.resolve opening.full).decode opening.opcode registers code.operands with
        | .instruction instruction length =>
            .decoded instruction (opening.position + 1 + length)
        | .declined extension _ => .unknownExtension opening.opcode extension

/-- The ways in which code can be read, each with what it finds out about the code. -/
inductive Reads (registers : Registers) (code : Code) : Reading → Prop where
  | halt (halting : code.opening.opcode = OpcodeMap.halt) :
      Reads registers code (.halt (code.opening.position + 1))
  | unknownOpcode (running : code.opening.opcode ≠ OpcodeMap.halt)
      (unknown : OpcodeMap.forms code.opening.opcode = []) :
      Reads registers code (.unknownOpcode code.opening.opcode)
  | unknownExtension (running : code.opening.opcode ≠ OpcodeMap.halt)
      (known : OpcodeMap.forms code.opening.opcode ≠ [])
      (unselected :
        OpcodeMap.selected? code.opening.opcode code.operands.extension = none) :
      Reads registers code
        (.unknownExtension code.opening.opcode code.operands.extension)
  | decoded {form : Form OperandSize} {instruction : Instruction} {length : Nat}
      (running : code.opening.opcode ≠ OpcodeMap.halt)
      (selected :
        OpcodeMap.selected? code.opening.opcode code.operands.extension = some form)
      (decoded : (form.resolve code.opening.full).decode code.opening.opcode registers
        code.operands = .instruction instruction length)
      (named : instruction.mnemonic = form.mnemonic) :
      Reads registers code (.decoded instruction (code.opening.position + 1 + length))

/-- Code is read in one of these ways. The selected form never declines. -/
theorem reads_ofCode (registers : Registers) (code : Code) :
    Reads registers code (ofCode registers code) := by
  unfold ofCode
  by_cases halting : code.opening.opcode = OpcodeMap.halt
  · rw [if_pos halting]
    exact .halt halting
  rw [if_neg halting]
  by_cases unknown : OpcodeMap.forms code.opening.opcode = []
  · rw [if_pos (List.isEmpty_iff.mpr unknown)]
    exact .unknownOpcode halting unknown
  rw [if_neg (mt List.isEmpty_iff.mp unknown)]
  cases selected : OpcodeMap.selected? code.opening.opcode code.operands.extension with
  | none => exact .unknownExtension halting unknown selected
  | some form =>
      rcases OpcodeMap.decode_of_selected selected code.opening.full registers with
        ⟨instruction, length, decoded, named⟩
      simp only [decoded]
      exact .decoded halting selected decoded named

/-- What a step finds in code that starts at an address. -/
def finding (start : UInt32) : Reading → Exec.Finding
  | .halt _ => .halt
  | .unknownOpcode opcode => .undecodable (.unknownOpcode opcode start)
  | .unknownExtension opcode extension =>
      .undecodable (.unknownExtension opcode extension start)
  | .decoded instruction _ => .executed instruction.mnemonic

/-- The processor and the memory after a step. -/
def after (cpu : Cpu) (memory : Memory) : Reading → Cpu × Memory
  | .halt length => ({ cpu with eip := cpu.eip + UInt32.ofNat length }, memory)
  | .unknownOpcode _ => (cpu, memory)
  | .unknownExtension _ _ => (cpu, memory)
  | .decoded instruction length =>
      let behind := { cpu with eip := cpu.eip + UInt32.ofNat length }
      let effect := instruction.effect behind memory
      (effect.cpu, effect.memory)

end Reading

end Ia32
