import Ia32.Instruction

/-!
# Events

What a machine reports while it works. Every event has a level of severity and a message,
and a threshold selects the events that are severe enough to be kept.
-/

namespace Ia32

/-- How severe an event is, the most severe first. -/
inductive Level where
  | error
  | warn
  | info
  | debug
  | trace
  deriving DecidableEq, Repr

namespace Level

/-- The rank of a level; less severe levels rank higher. -/
def rank : Level → Nat
  | .error => 1
  | .warn => 2
  | .info => 3
  | .debug => 4
  | .trace => 5

def label : Level → String
  | .error => "ERROR"
  | .warn => "WARN"
  | .info => "INFO"
  | .debug => "DEBUG"
  | .trace => "TRACE"

end Level

/-- The least severe level to keep, or nothing to keep no event at all. -/
abbrev Threshold := Option Level

/-- Whether a threshold keeps events of a level. -/
def Threshold.keeps (threshold : Threshold) (level : Level) : Bool :=
  match threshold with
  | none => false
  | some least => decide (level.rank ≤ least.rank)

/-- Something that a machine reports. -/
inductive Event where
  /-- A byte above the memory was read as zero. -/
  | unmappedRead (address : UInt32)
  /-- A write of a byte above the memory had no effect. -/
  | droppedWrite (address : UInt32) (value : UInt8)
  /-- The bytes at `start` carry another extension than the operation that was tried. -/
  | declined (mnemonic : Mnemonic) (extension : Extension) (start : UInt32)
  /-- An instruction was carried out and gave a word. -/
  | executed (instruction : Instruction) (word : UInt32)
  /-- The machine stopped at `start`. -/
  | halted (start : UInt32) (steps : Nat)
  /-- The bytes at the instruction pointer are no instruction. -/
  | undecodable (cause : DecodeError)
  /-- A program was loaded. -/
  | loaded (length : Nat) (address : UInt32) (memorySize : Nat)
  deriving DecidableEq, Repr

namespace Event

def level : Event → Level
  | .unmappedRead .. => .warn
  | .droppedWrite .. => .warn
  | .declined .. => .trace
  | .executed .. => .debug
  | .halted .. => .info
  | .undecodable .. => .error
  | .loaded .. => .info

def message : Event → String
  | .unmappedRead address => "read from unmapped address " ++ Text.Hexadecimal.word address
  | .droppedWrite address value =>
      "dropped write of " ++ Text.Hexadecimal.byte value ++ " to unmapped address " ++
        Text.Hexadecimal.word address
  | .declined mnemonic extension start =>
      s!"not {mnemonic.name} (extension /{extension.val}) at " ++ Text.Hexadecimal.word start ++
        ", rolling back"
  | .executed instruction word => instruction.render word
  | .halted start steps =>
      "hlt at " ++ Text.Hexadecimal.word start ++ s!" after {steps} instructions"
  | .undecodable cause => cause.message
  | .loaded length address memorySize =>
      s!"loaded {length} bytes at " ++ Text.Hexadecimal.word address ++
        s!" ({memorySize} bytes of memory)"

/-- The line of an event in a log. -/
def line (event : Event) : String :=
  event.level.label ++ " " ++ event.message

end Event

/-- The events that a threshold keeps, in order. -/
def Threshold.select (threshold : Threshold) (events : Array Event) : Array Event :=
  events.filter fun event => threshold.keeps event.level

end Ia32
