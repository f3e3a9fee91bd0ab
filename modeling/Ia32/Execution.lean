import Ia32.Alu
import Ia32.Core
import Ia32.Decoding

/-!
# Execution

Carrying out decoded instructions. Operands are read before anything is written, the flags
are set before the result is stored, and the instruction is noted last. The instruction
pointer moves over the code that a form has looked at. A form that declines puts it back,
so that the same code can be offered to another form.
-/

namespace Ia32

namespace Instruction

/-- Combine two values, set the flags, and store the result unless the operation only
compares. -/
def combine (op : BinaryOp) (destination : Operand) (left right : UInt32) : Exec UInt32 := do
  let result := op.evaluate destination.width left right (← Exec.flags)
  Exec.setFlags result.flags
  if op.writesBack then
    destination.write result.value
  return result.value

/-- Carry out an instruction. The answer is the value that was moved, the result of the
operation, or the address where execution goes on. -/
def perform : Instruction → Exec UInt32
  | .move destination source => do
      let value ←
        match source with
        | .operand place => place.read
        | .immediate _ value => pure value
      destination.write value
      return value
  | .loadAccumulator width address => do
      let value ← Exec.readMemory address width
      Exec.writeRegister .accumulator width value
      return value
  | .storeAccumulator width address => do
      let value ← Exec.readRegister .accumulator width
      Exec.writeMemory address width value
      return value
  | .binary op destination source => do
      let left ← destination.read
      let right ←
        match source with
        | .operand place => place.read
        | .immediate width value => pure (op.widenImmediate destination.width width value)
      combine op destination left right
  | .reversed op destination source => do
      let left ← source.read
      let right ← destination.read
      combine (.arithmetic op) destination left right
  | .unary op operand => do
      let value ← operand.read
      let result := op.evaluate operand.width value (← Exec.flags)
      Exec.setFlags result.flags
      operand.write result.value
      return result.value
  | .jump width displacement => do
      let next ← Exec.eip
      let target := UInt32.ofInt (next.toNat + width.toSigned displacement.toNat)
      Exec.setEip target
      return target

end Instruction

/-- What became of the code that was offered to a form. -/
inductive Outcome where
  /-- It was carried out as an instruction. -/
  | executed (mnemonic : Mnemonic)
  /-- It is another instruction, and the instruction pointer is at `eip` as before. -/
  | declined (eip : UInt32)
  deriving DecidableEq, Repr

namespace Exec

/-- The operands named at the instruction pointer, which moves behind them. -/
def fetchOperands (width : Width) : Exec AddressedOperands := do
  let core ← get
  let operands := AddressedOperands.ofCode core.cpu.registers core.code width
  touch operands.length
  advance operands.length
  return operands

end Exec

namespace Form

/-- Decode the code behind an opcode and carry out the instruction. -/
def execute (form : Form Width) (opcode : UInt8) : Exec Outcome := do
  let core ← get
  let start := core.cpu.eip
  let decoded := form.decode opcode core.cpu.registers core.code
  Exec.touch decoded.length
  Exec.advance decoded.length
  match decoded with
  | .instruction instruction _ =>
      let word ← instruction.perform
      Exec.note (.executed instruction word)
      return .executed instruction.mnemonic
  | .declined extension _ =>
      Exec.note (.declined form.mnemonic extension start)
      Exec.setEip start
      return .declined start

/-- Carry out a form whose immediate value fits its operand. Any other form is a fault, and
nothing happens. -/
def attempt (form : Form Width) (opcode : UInt8) : Exec (Except Fault Outcome) :=
  if form.ImmediateFits then do
    return .ok (← form.execute opcode)
  else
    return .error .immediateTooWide

end Form

end Ia32
