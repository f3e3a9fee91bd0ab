/-!
# Numbers as text

Numbers are written in hexadecimal with upper-case digits, most significant first: a byte with
two digits, an address with eight, and an immediate value without leading zeros.

A count on the command line is read from a decimal numeral, which is an optional plus sign and
one or more digits that spell a number of sixty-four bits. The digits are read from the left,
and the first thing that goes wrong names the error: a character that is no digit, or a number
that has grown too large.
-/

namespace Ia32.Text

namespace Hexadecimal

/-- The upper-case digit of a number below sixteen. -/
def digit (value : Nat) : Char :=
  Char.ofNat (if value < 10 then 0x30 + value else 0x37 + value)

/-- The lowest `count` hexadecimal digits of a number. -/
def padded : (count : Nat) → (value : Nat) → List Char
  | 0, _ => []
  | count + 1, value => padded count (value / 16) ++ [digit (value % 16)]

/-- The digits of a number below `16 ^ count` without leading zeros; zero itself keeps one. -/
def trimmed (count value : Nat) : List Char :=
  match (padded count value).dropWhile (· == '0') with
  | [] => ['0']
  | digits => digits

/-- A byte, as two digits. -/
def byte (value : UInt8) : String :=
  "0x" ++ String.ofList (padded 2 value.toNat)

/-- An address or a whole register, as eight digits. -/
def word (value : UInt32) : String :=
  "0x" ++ String.ofList (padded 8 value.toNat)

/-- A value, with as many digits as it needs. -/
def short (value : UInt32) : String :=
  "0x" ++ String.ofList (trimmed 8 value.toNat)

@[simp] theorem length_padded (count value : Nat) : (padded count value).length = count := by
  induction count generalizing value with
  | zero => rfl
  | succ count ih => simp [padded, ih]

end Hexadecimal

/-- Why a text is not a numeral. -/
inductive NumeralError where
  | empty
  | invalidDigit
  | tooLarge
  deriving DecidableEq, Repr

namespace NumeralError

def message : NumeralError → String
  | .empty => "cannot parse integer from empty string"
  | .invalidDigit => "invalid digit found in string"
  | .tooLarge => "number too large to fit in target type"

end NumeralError

namespace Numeral

/-- The value of an ASCII decimal digit. -/
def digitValue? (char : Char) : Option Nat :=
  if '0' ≤ char ∧ char ≤ '9' then some (char.toNat - 0x30) else none

/-- Extend the number read so far by the digits that follow. A character that is no
digit is reported before the size of the number it would belong to. -/
def readDigits (value : Nat) : List Char → Except NumeralError UInt64
  | [] => .ok (UInt64.ofNat value)
  | char :: rest =>
      match digitValue? char with
      | none => .error .invalidDigit
      | some digit =>
          if 10 * value + digit < UInt64.size then readDigits (10 * value + digit) rest
          else .error .tooLarge

/-- Read a numeral. A lone sign has no digit where one is due. -/
def read : List Char → Except NumeralError UInt64
  | [] => .error .empty
  | ['+'] => .error .invalidDigit
  | '+' :: digits => readDigits 0 digits
  | digits => readDigits 0 digits

end Numeral

end Ia32.Text
