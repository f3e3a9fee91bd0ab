import Ia32.Text

/-!
# Errors

What can go wrong, from the processor to the machine. A fault is a request that has no answer:
more memory than a block of bytes can have, a register write of a length that is no operand
width, an immediate value wider than its operand, or a form that declines its bytes and leaves
the instruction pointer behind them. A program may be too long for the memory that it is loaded
into, bytes may be no instruction, and a machine may use up its steps.
-/

namespace Ia32

/-! ## Faults -/

/-- A request outside what the machine defines. -/
inductive Fault where
  /-- A memory with more bytes than a block can have. -/
  | capacityOverflow
  | registerWriteLength (length : Nat)
  | immediateTooWide
  /-- A form that declined its bytes, with the address that it answered, the instruction pointer
  that it left, and the address of the bytes, where both should have been. -/
  | pointerNotRestored (form : String) (opcode : UInt8) (answered reached operands : UInt32)
  deriving DecidableEq, Repr

def Fault.message : Fault → String
  | .capacityOverflow => "capacity overflow"
  | .registerWriteLength length => s!"invalid register write of {length} bytes"
  | .immediateTooWide => "assertion failed: imm_width.bytes() <= width.bytes()"
  | .pointerNotRestored form opcode answered reached operands =>
      s!"assertion `left == right` failed: {form} declined opcode " ++
        Text.Hexadecimal.byte opcode ++ " without restoring eip\n" ++
        s!"  left: ({answered}, {reached})\n right: ({operands}, {operands})"

/-! ## Programs that do not fit -/

/-- An image that reaches beyond the memory it is loaded into. -/
structure LoadError where
  length : Nat
  address : UInt32
  size : Nat
  deriving DecidableEq, Repr

def LoadError.message (error : LoadError) : String :=
  s!"image of {error.length} bytes at " ++ Text.Hexadecimal.word error.address ++
    s!" does not fit in {error.size} bytes of memory"

/-! ## Bytes that are no instruction -/

/-- The three-bit field that selects an operation among those sharing an opcode. -/
abbrev Extension := Fin 8

/-- Why the bytes at the instruction pointer are no instruction. The address is that of the
first byte, an operand-size byte in front of the opcode included. -/
inductive DecodeError where
  /-- The opcode stands for no operation. -/
  | unknownOpcode (opcode : UInt8) (eip : UInt32)
  /-- The opcode is shared by several operations, none of which has the extension. -/
  | unknownExtension (opcode : UInt8) (extension : Extension) (eip : UInt32)
  deriving DecidableEq, Repr

namespace DecodeError

/-- The address of the bytes that could not be decoded. -/
def eip : DecodeError → UInt32
  | .unknownOpcode _ eip => eip
  | .unknownExtension _ _ eip => eip

def message : DecodeError → String
  | .unknownOpcode opcode eip =>
      "unknown opcode " ++ Text.Hexadecimal.byte opcode ++ " at " ++ Text.Hexadecimal.word eip
  | .unknownExtension opcode extension eip =>
      "no handler for opcode " ++ Text.Hexadecimal.byte opcode ++ s!" /{extension.val} at " ++
        Text.Hexadecimal.word eip

end DecodeError

/-! ## Machines -/

namespace Machine

/-- Why a machine could not be built, or could not go on. -/
inductive Error where
  /-- The program does not fit in the memory. -/
  | load (cause : LoadError)
  /-- The bytes at the instruction pointer are no instruction. -/
  | decode (cause : DecodeError)
  /-- The machine was still running when its last step was used up. -/
  | budget (maxSteps : UInt64) (eip : UInt32)
  /-- The memory cannot be had, or an instruction form broke its rules. -/
  | fault (cause : Fault)
  deriving DecidableEq, Repr

def Error.message : Error → String
  | .load cause => cause.message
  | .decode cause => cause.message
  | .budget maxSteps eip =>
      s!"step budget of {maxSteps} instructions exhausted at eip=" ++ Text.Hexadecimal.word eip
  | .fault cause => cause.message

end Machine

end Ia32
