/-!
# Status flags

The processor keeps four status flags. As a word they sit at the positions carry 0,
zero 6, sign 7 and overflow 11; every other bit of the word reads as zero and is lost
when a word is loaded.
-/

namespace Ia32

/-- One of the four status flags. -/
inductive Flag where
  | carry
  | zero
  | sign
  | overflow
  deriving DecidableEq, Repr

namespace Flag

/-- The flags in the order in which they are listed. -/
def all : List Flag :=
  [.carry, .zero, .sign, .overflow]

/-- The bit of the flag in the flags word. -/
def bit : Flag → UInt32
  | .carry => 0x1
  | .zero => 0x40
  | .sign => 0x80
  | .overflow => 0x800

def name : Flag → String
  | .carry => "CF"
  | .zero => "ZF"
  | .sign => "SF"
  | .overflow => "OF"

end Flag

/-- The values of the four status flags. -/
structure Flags where
  carry : Bool
  zero : Bool
  sign : Bool
  overflow : Bool
  deriving DecidableEq, Repr

namespace Flags

def clear : Flags :=
  { carry := false, zero := false, sign := false, overflow := false }

def get (flags : Flags) : Flag → Bool
  | .carry => flags.carry
  | .zero => flags.zero
  | .sign => flags.sign
  | .overflow => flags.overflow

def set (flags : Flags) (flag : Flag) (value : Bool) : Flags :=
  match flag with
  | .carry => { flags with carry := value }
  | .zero => { flags with zero := value }
  | .sign => { flags with sign := value }
  | .overflow => { flags with overflow := value }

/-- The flags as one word. -/
def toWord (flags : Flags) : UInt32 :=
  Flag.all.foldl (fun word flag => if flags.get flag then word ||| flag.bit else word) 0

/-- The flags held by a word; its other bits are dropped. -/
def ofWord (word : UInt32) : Flags :=
  { carry := word &&& Flag.carry.bit != 0
    zero := word &&& Flag.zero.bit != 0
    sign := word &&& Flag.sign.bit != 0
    overflow := word &&& Flag.overflow.bit != 0 }

/-- Set or clear the bit of a flag in a flags word. -/
def setBit (word : UInt32) (flag : Flag) (value : Bool) : UInt32 :=
  if value then word ||| flag.bit else word &&& ~~~flag.bit

@[simp] theorem get_set (flags : Flags) (flag other : Flag) (value : Bool) :
    (flags.set flag value).get other = if other = flag then value else flags.get other := by
  cases flag <;> cases other <;> rfl

theorem toWord_clear : clear.toWord = 0 := rfl

theorem ofWord_toWord (flags : Flags) : ofWord flags.toWord = flags := by
  obtain ⟨carry, zero, sign, overflow⟩ := flags
  cases carry <;> cases zero <;> cases sign <;> cases overflow <;> decide

/-! ## Flags as bits of their word -/

/-- A flag is what its bit of a word tells. -/
theorem get_ofWord (word : UInt32) (flag : Flag) :
    (ofWord word).get flag = (word &&& flag.bit != 0) := by
  cases flag <;> rfl

/-- A flag is set exactly when its bit of the flags word is. -/
theorem get_eq (flags : Flags) (flag : Flag) :
    flags.get flag = (flags.toWord &&& flag.bit != 0) := by
  rw [← get_ofWord, ofWord_toWord]

/-- Setting a flag sets or clears its bit of the flags word, and no other bit. -/
theorem toWord_set (flags : Flags) (flag : Flag) (value : Bool) :
    (flags.set flag value).toWord = setBit flags.toWord flag value := by
  obtain ⟨carry, zero, sign, overflow⟩ := flags
  cases flag <;> cases value <;> cases carry <;> cases zero <;> cases sign <;> cases overflow <;>
    decide

end Flags

end Ia32
