import Ia32.Addressing
import Ia32.Operation

/-!
# Instructions

A decoded instruction names its operation and its operands; the effective addresses are
already worked out. Its text, which shows the values that moved, is written once the
instruction has been carried out.
-/

namespace Ia32

/-- The second operand of an instruction: a place, or a value in the code. -/
inductive Source where
  | operand (operand : Operand)
  | immediate (width : Width) (value : UInt32)
  deriving DecidableEq, Repr

/-- A decoded instruction. -/
inductive Instruction where
  /-- Copy the source to the destination. -/
  | move (destination : Operand) (source : Source)
  /-- Copy the bytes at an address to the accumulator. -/
  | loadAccumulator (width : Width) (address : UInt32)
  /-- Copy the accumulator to the bytes at an address. -/
  | storeAccumulator (width : Width) (address : UInt32)
  /-- Combine the destination with the source, the destination being the left operand. -/
  | binary (op : BinaryOp) (destination : Operand) (source : Source)
  /-- Add or subtract with the source as the left operand. -/
  | reversed (op : ArithmeticOp) (destination source : Operand)
  /-- Apply an operation to the operand in place. -/
  | unary (op : UnaryOp) (operand : Operand)
  /-- Go on at a signed distance from the next instruction. -/
  | jump (width : Width) (displacement : UInt32)
  deriving DecidableEq, Repr

/-- The text of a source: an operand, or the width and the value of an immediate. -/
def Source.render : Source → String
  | .operand place => place.render
  | .immediate width value => s!"imm{width.bits}(" ++ Text.Hexadecimal.short value ++ ")"

namespace Instruction

/-- Combine a register with a place and store the result in the register. The additive
operations have the place as their left operand, as when the result goes to the place; the
bitwise ones have the register, which is their destination. -/
def toRegister (op : BinaryOp) (register place : Operand) : Instruction :=
  match op with
  | .arithmetic op => .reversed op register place
  | .bitwise op => .binary (.bitwise op) register (.operand place)

def mnemonic : Instruction → Mnemonic
  | .move .. => .mov
  | .loadAccumulator .. => .mov
  | .storeAccumulator .. => .mov
  | .binary op .. => op.mnemonic
  | .reversed op .. => op.mnemonic
  | .unary op .. => op.mnemonic
  | .jump .. => .jmp

theorem mnemonic_toRegister (op : BinaryOp) (register place : Operand) :
    (toRegister op register place).mnemonic = op.mnemonic := by
  cases op <;> rfl

/-- The text of a direct memory address with its width. -/
def renderOffset (width : Width) (address : UInt32) : String :=
  s!"moffs{width.bits}[" ++ Text.Hexadecimal.word address ++ "]"

/-- The text of a distance, which always shows its sign. -/
def renderDistance (distance : Int) : String :=
  if 0 ≤ distance then s!"+{distance}" else s!"{distance}"

/-- The operands of an instruction that gave `word`: the value that was moved, the result
of the operation, or the address where execution goes on. -/
def renderOperands (instruction : Instruction) (word : UInt32) : String :=
  let moved := "(" ++ Text.Hexadecimal.short word ++ ")"
  match instruction with
  | .move destination (.operand source) =>
      destination.render ++ ", " ++ source.render ++ moved
  | .move destination source => destination.render ++ ", " ++ source.render
  | .loadAccumulator width address =>
      (Operand.accumulator width).render ++ ", " ++ renderOffset width address ++ moved
  | .storeAccumulator width address =>
      renderOffset width address ++ ", " ++ (Operand.accumulator width).render ++ moved
  | .binary _ destination source => destination.render ++ ", " ++ source.render
  | .reversed _ destination source => destination.render ++ ", " ++ source.render
  | .unary _ operand => operand.render
  | .jump width displacement =>
      s!"rel{width.bits}(" ++ renderDistance (width.toSigned displacement.toNat) ++ ") -> " ++
        Text.Hexadecimal.word word

/-- The text of an instruction that gave `word`. -/
def render (instruction : Instruction) (word : UInt32) : String :=
  instruction.mnemonic.name ++ " " ++ instruction.renderOperands word

end Instruction

end Ia32
