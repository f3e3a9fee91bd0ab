import Ia32.Addressing
import Ia32.Event
import Ia32.Flags

/-!
# The processor and its memory

A processor holds the general registers, the instruction pointer and the flags. Together
with a memory and a journal of events it is the state on which instructions work. This
module holds the elementary actions on that state. Every byte of data goes through
`readByte` or `writeByte`, which note each access above the memory in the journal, and
`touch` does the same for code that has been looked at as a whole.
-/

namespace Ia32

/-- The state of the processor. -/
structure Cpu where
  registers : Registers
  eip : UInt32
  flags : Flags
  deriving DecidableEq, Repr

/-- A processor with everything cleared. -/
def Cpu.reset : Cpu :=
  { registers := .zero, eip := 0, flags := .clear }

/-- A processor, its memory, and the events noted so far. -/
structure Core where
  cpu : Cpu
  memory : Memory
  journal : Array Event

namespace Core

/-- A processor and its memory with an empty journal. -/
def start (cpu : Cpu) (memory : Memory) : Core :=
  { cpu, memory, journal := #[] }

/-- The code at the instruction pointer. -/
def code (core : Core) : Code :=
  core.memory.codeAt core.cpu.eip

end Core

/-- An action on a processor and its memory. -/
abbrev Exec := StateM Core

namespace Exec

/-- The answer of an action, and the state after it. -/
def run {α : Type} (action : Exec α) (core : Core) : α × Core :=
  StateT.run action core

/-- Note an event in the journal. -/
def note (event : Event) : Exec Unit :=
  modify fun core => { core with journal := core.journal.push event }

def eip : Exec UInt32 := do
  return (← get).cpu.eip

def setEip (eip : UInt32) : Exec Unit :=
  modify fun core => { core with cpu := { core.cpu with eip } }

def flags : Exec Flags := do
  return (← get).cpu.flags

def setFlags (flags : Flags) : Exec Unit :=
  modify fun core => { core with cpu := { core.cpu with flags } }

/-- The part of a register that an operand of the given width sees. -/
def readRegister (code : RegisterCode) (width : Width) : Exec UInt32 := do
  return (← get).cpu.registers.read code width

def writeRegister (code : RegisterCode) (width : Width) (value : UInt32) : Exec Unit :=
  modify fun core =>
    { core with
      cpu := { core.cpu with registers := core.cpu.registers.write code width value } }

/-- The bytes of the part of a register that an operand of the given width sees. -/
def loadRegister (code : RegisterCode) (width : Width) : Exec (List UInt8) := do
  return (← get).cpu.registers.load code width

/-- Store a list of bytes in the part of a register that its length chooses. Where there is no
such part, nothing happens. -/
def storeRegister (code : RegisterCode) (bytes : List UInt8) : Exec (Except Fault Unit) := do
  let core ← get
  match core.cpu.registers.store code bytes with
  | .ok registers =>
      set { core with cpu := { core.cpu with registers } }
      return .ok ()
  | .error fault => return .error fault

/-- The byte at an address. A read above the memory gives zero and is noted. -/
def readByte (address : UInt32) : Exec UInt8 := do
  let core ← get
  unless core.memory.Maps address do
    note (.unmappedRead address)
  return core.memory.readByte address

/-- Store a byte at an address. A write above the memory is dropped and noted. -/
def writeByte (address : UInt32) (value : UInt8) : Exec Unit := do
  if (← get).memory.Maps address then
    modify fun core => { core with memory := core.memory.writeByte address value }
  else
    note (.droppedWrite address value)

/-- The bytes at `count` consecutive addresses, read in ascending order. -/
def readBytes (address : UInt32) : (count : Nat) → Exec (List UInt8)
  | 0 => return []
  | count + 1 => do
      let byte ← readByte address
      let bytes ← readBytes (address + 1) count
      return byte :: bytes

/-- Store bytes at consecutive addresses, in ascending order. -/
def writeBytes (address : UInt32) : List UInt8 → Exec Unit
  | [] => return
  | byte :: bytes => do
      writeByte address byte
      writeBytes (address + 1) bytes

/-- The little-endian number at an address. -/
def readMemory (address : UInt32) (width : Width) : Exec UInt32 := do
  return UInt32.ofNat (LittleEndian.ofBytes (← readBytes address width.bytes))

/-- Store the low part of a number, little-endian. -/
def writeMemory (address : UInt32) (width : Width) (value : UInt32) : Exec Unit :=
  writeBytes address (LittleEndian.toBytes width.bytes value.toNat)

/-- Move the instruction pointer over `length` bytes. -/
def advance (length : Nat) : Exec Unit := do
  setEip ((← eip) + UInt32.ofNat length)

/-- Read `length` bytes of code, for the sake of noting those above the memory. -/
def touch (length : Nat) : Exec Unit := do
  let _ ← readBytes (← eip) length

/-- The byte at the instruction pointer, which moves behind it. -/
def fetchByte : Exec UInt8 := do
  let byte ← readByte (← eip)
  advance 1
  return byte

/-- The little-endian number at the instruction pointer, which moves behind it. -/
def fetch (width : Width) : Exec UInt32 := do
  let value ← readMemory (← eip) width
  advance width.bytes
  return value

/-! ## What the actions do -/

section Run

variable {α β : Type} (core : Core)

@[simp] theorem run_pure (value : α) : run (pure value) core = (value, core) := rfl

@[simp] theorem run_bind (action : Exec α) (next : α → Exec β) :
    run (action >>= next) core = (next (action.run core).1).run (action.run core).2 := rfl

@[simp] theorem run_map (f : α → β) (action : Exec α) :
    run (f <$> action) core = (f (action.run core).1, (action.run core).2) := rfl

@[simp] theorem run_get : run get core = (core, core) := rfl

@[simp] theorem run_modify (f : Core → Core) : run (modify f) core = ((), f core) := rfl

@[simp] theorem run_note (event : Event) :
    (note event).run core = ((), { core with journal := core.journal.push event }) := rfl

@[simp] theorem run_eip : eip.run core = (core.cpu.eip, core) := rfl

@[simp] theorem run_setEip (address : UInt32) :
    (setEip address).run core = ((), { core with cpu := { core.cpu with eip := address } }) :=
  rfl

@[simp] theorem run_flags : flags.run core = (core.cpu.flags, core) := rfl

@[simp] theorem run_setFlags (flags : Flags) :
    (setFlags flags).run core = ((), { core with cpu := { core.cpu with flags } }) := rfl

@[simp] theorem run_readRegister (code : RegisterCode) (width : Width) :
    (readRegister code width).run core = (core.cpu.registers.read code width, core) := rfl

@[simp] theorem run_writeRegister (code : RegisterCode) (width : Width) (value : UInt32) :
    (writeRegister code width value).run core =
      ((), { core with
        cpu := { core.cpu with registers := core.cpu.registers.write code width value } }) :=
  rfl

@[simp] theorem run_loadRegister (code : RegisterCode) (width : Width) :
    (loadRegister code width).run core = (core.cpu.registers.load code width, core) := rfl

theorem run_storeRegister_of_ok {code : RegisterCode} {bytes : List UInt8}
    {registers : Registers} (stored : core.cpu.registers.store code bytes = .ok registers) :
    (storeRegister code bytes).run core =
      (.ok (), { core with cpu := { core.cpu with registers } }) := by
  simp only [storeRegister, run_bind, run_get, stored]
  rfl

theorem run_storeRegister_of_error {code : RegisterCode} {bytes : List UInt8} {fault : Fault}
    (refused : core.cpu.registers.store code bytes = .error fault) :
    (storeRegister code bytes).run core = (.error fault, core) := by
  simp only [storeRegister, run_bind, run_get, refused]
  rfl

theorem run_readByte (address : UInt32) :
    (readByte address).run core =
      (core.memory.readByte address,
        if core.memory.Maps address then core
        else { core with journal := core.journal.push (.unmappedRead address) }) := by
  by_cases mapped : core.memory.Maps address <;> simp [readByte, mapped]

theorem run_writeByte (address : UInt32) (value : UInt8) :
    (writeByte address value).run core =
      ((), if core.memory.Maps address then
          { core with memory := core.memory.writeByte address value }
        else { core with journal := core.journal.push (.droppedWrite address value) }) := by
  by_cases mapped : core.memory.Maps address <;> simp [writeByte, mapped]

end Run

end Exec

namespace Operand

/-- The value of an operand. -/
def read (operand : Operand) : Exec UInt32 :=
  match operand.location with
  | .register code => Exec.readRegister code operand.width
  | .memory address => Exec.readMemory address operand.width

/-- Store the low part of a value in an operand. -/
def write (operand : Operand) (value : UInt32) : Exec Unit :=
  match operand.location with
  | .register code => Exec.writeRegister code operand.width value
  | .memory address => Exec.writeMemory address operand.width value

end Operand

end Ia32
