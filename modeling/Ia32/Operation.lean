import Ia32.Registers

/-!
# Operations

The operations that instructions perform, their mnemonics, and the three-bit extension that
tells operations apart when they share an opcode. Additions and subtractions and the bitwise
operations take two operands; comparison and test only set flags.
-/

namespace Ia32

/-- The name of an instruction in its textual form. -/
inductive Mnemonic where
  | mov
  | add
  | sub
  | cmp
  | and
  | or
  | xor
  | test
  | neg
  | not
  | jmp
  deriving DecidableEq, Repr

namespace Mnemonic

def name : Mnemonic → String
  | .mov => "mov"
  | .add => "add"
  | .sub => "sub"
  | .cmp => "cmp"
  | .and => "and"
  | .or => "or"
  | .xor => "xor"
  | .test => "test"
  | .neg => "neg"
  | .not => "not"
  | .jmp => "jmp"

/-- The name that stands for the operation in the text of a form. -/
def title : Mnemonic → String
  | .mov => "Mov"
  | .add => "Add"
  | .sub => "Sub"
  | .cmp => "Cmp"
  | .and => "And"
  | .or => "Or"
  | .xor => "Xor"
  | .test => "Test"
  | .neg => "Neg"
  | .not => "Not"
  | .jmp => "Jmp"

end Mnemonic

/-- The extension of the move of an immediate value. -/
def moveExtension : Extension := 0

/-- The additive operations; a comparison is a subtraction that keeps only the flags. -/
inductive ArithmeticOp where
  | add
  | sub
  | cmp
  deriving DecidableEq, Repr

namespace ArithmeticOp

def all : List ArithmeticOp :=
  [.add, .sub, .cmp]

def mnemonic : ArithmeticOp → Mnemonic
  | .add => .add
  | .sub => .sub
  | .cmp => .cmp

def extension : ArithmeticOp → Extension
  | .add => 0
  | .sub => 5
  | .cmp => 7

def subtracts : ArithmeticOp → Bool
  | .add => false
  | .sub => true
  | .cmp => true

/-- Whether the result is stored in the destination. -/
def writesBack : ArithmeticOp → Bool
  | .add => true
  | .sub => true
  | .cmp => false

end ArithmeticOp

/-- The bitwise operations; a test is a conjunction that keeps only the flags. -/
inductive BitwiseOp where
  | and
  | or
  | xor
  | test
  deriving DecidableEq, Repr

namespace BitwiseOp

def all : List BitwiseOp :=
  [.and, .or, .xor, .test]

def mnemonic : BitwiseOp → Mnemonic
  | .and => .and
  | .or => .or
  | .xor => .xor
  | .test => .test

def extension : BitwiseOp → Extension
  | .and => 4
  | .or => 1
  | .xor => 6
  | .test => 0

/-- Whether the result is stored in the destination. -/
def writesBack : BitwiseOp → Bool
  | .and => true
  | .or => true
  | .xor => true
  | .test => false

/-- The operation on two bits. -/
def applyBit : BitwiseOp → Bool → Bool → Bool
  | .and, left, right => left && right
  | .or, left, right => left || right
  | .xor, left, right => left ^^ right
  | .test, left, right => left && right

/-- The operation on every bit of two words. -/
def apply : BitwiseOp → UInt32 → UInt32 → UInt32
  | .and, left, right => left &&& right
  | .or, left, right => left ||| right
  | .xor, left, right => left ^^^ right
  | .test, left, right => left &&& right

/-- Each bit of the result is that of the operation on the bits at its place. -/
theorem testBit_apply (op : BitwiseOp) (left right : UInt32) (index : Nat) :
    (op.apply left right).toNat.testBit index =
      op.applyBit (left.toNat.testBit index) (right.toNat.testBit index) := by
  cases op with
  | and | test => rw [apply, UInt32.toNat_and, Nat.testBit_and, applyBit]
  | or => rw [apply, UInt32.toNat_or, Nat.testBit_or, applyBit]
  | xor => rw [apply, UInt32.toNat_xor, Nat.testBit_xor, applyBit]

end BitwiseOp

/-- The operations on a single operand. -/
inductive UnaryOp where
  | not
  | neg
  deriving DecidableEq, Repr

namespace UnaryOp

def all : List UnaryOp :=
  [.not, .neg]

def mnemonic : UnaryOp → Mnemonic
  | .not => .not
  | .neg => .neg

def extension : UnaryOp → Extension
  | .not => 2
  | .neg => 3

end UnaryOp

/-- The operations on two operands. -/
inductive BinaryOp where
  | arithmetic (op : ArithmeticOp)
  | bitwise (op : BitwiseOp)
  deriving DecidableEq, Repr

namespace BinaryOp

def mnemonic : BinaryOp → Mnemonic
  | .arithmetic op => op.mnemonic
  | .bitwise op => op.mnemonic

/-- The name of the operations of the same kind in the text of a form. -/
def family : BinaryOp → String
  | .arithmetic _ => "Arith"
  | .bitwise _ => "Bitwise"

def extension : BinaryOp → Extension
  | .arithmetic op => op.extension
  | .bitwise op => op.extension

/-- Whether the result is stored in the destination. -/
def writesBack : BinaryOp → Bool
  | .arithmetic op => op.writesBack
  | .bitwise op => op.writesBack

/-- Widen an immediate value to the width of the other operand: the additive operations
repeat its sign bit, the bitwise ones put zeros above it. -/
def widenImmediate (op : BinaryOp) (width immediateWidth : Width) (value : UInt32) : UInt32 :=
  match op with
  | .arithmetic _ => UInt32.ofNat (width.signExtend immediateWidth value.toNat)
  | .bitwise _ => value

/-- The binary operations that share an opcode with an immediate operand, in ascending
order of their extension. The same number selects the operation in the low opcodes. -/
def immediateGroup : List BinaryOp :=
  [.arithmetic .add, .bitwise .or, .bitwise .and, .arithmetic .sub, .bitwise .xor,
    .arithmetic .cmp]

/-- The operation of the immediate group with the given extension. -/
def ofExtension? (extension : Extension) : Option BinaryOp :=
  immediateGroup.find? (·.extension = extension)

end BinaryOp

end Ia32
