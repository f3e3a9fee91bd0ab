import Ia32.Execution

/-!
# Effects of instructions

Actions on the processor and the memory add to the journal and never look at it. This module
describes what an instruction does in terms of the processor and the memory alone: its word,
the state after it, and the accesses to single bytes that it makes on the way. Carrying out
the instruction has exactly this effect, and its part of the journal follows from the
accesses and the size of the memory.
-/

namespace Ia32

/-- An access to a single byte of memory. -/
inductive Access where
  | read (address : UInt32)
  | write (address : UInt32) (value : UInt8)
  deriving DecidableEq, Repr

namespace Access

/-- The event that notes an access to a memory of the given size; there is one only above
the memory. -/
def event? (size : Nat) : Access → Option Event
  | .read address =>
      if address.toNat < size then none else some (.unmappedRead address)
  | .write address value =>
      if address.toNat < size then none else some (.droppedWrite address value)

/-- The events that note a sequence of accesses. -/
def events (size : Nat) (accesses : List Access) : Array Event :=
  (accesses.filterMap (event? size)).toArray

/-- The accesses of reading `count` consecutive bytes. -/
def reads (address : UInt32) : (count : Nat) → List Access
  | 0 => []
  | count + 1 => .read address :: reads (address + 1) count

/-- The accesses of storing consecutive bytes. -/
def writes (address : UInt32) : List UInt8 → List Access
  | [] => []
  | value :: values => .write address value :: writes (address + 1) values

/-- Reading some bytes and then those behind them is reading them all. -/
theorem reads_add (address : UInt32) (first second : Nat) :
    reads address (first + second) =
      reads address first ++ reads (address + UInt32.ofNat first) second := by
  induction first generalizing address with
  | zero =>
      rw [Nat.zero_add, add_ofNat_zero]
      rfl
  | succ first ih =>
      rw [Nat.succ_add, ← add_one_add_ofNat]
      exact congrArg _ (ih (address + 1))

@[simp] theorem events_nil (size : Nat) : events size [] = #[] := rfl

@[simp] theorem events_append (size : Nat) (first second : List Access) :
    events size (first ++ second) = events size first ++ events size second := by
  simp [events]

end Access

namespace Core

/-- Note a sequence of accesses in the journal. -/
def record (core : Core) (accesses : List Access) : Core :=
  { core with journal := core.journal ++ Access.events core.memory.size accesses }

@[simp] theorem cpu_record (core : Core) (accesses : List Access) :
    (core.record accesses).cpu = core.cpu := rfl

@[simp] theorem memory_record (core : Core) (accesses : List Access) :
    (core.record accesses).memory = core.memory := rfl

@[simp] theorem record_nil (core : Core) : core.record [] = core := by
  simp [record]

theorem record_append (core : Core) (first second : List Access) :
    core.record (first ++ second) = (core.record first).record second := by
  simp [record, Array.append_assoc]

/-- The state after reading `count` bytes of code and moving over them. -/
def past (core : Core) (count : Nat) : Core :=
  { core.record (Access.reads core.cpu.eip count) with
    cpu := { core.cpu with eip := core.cpu.eip + UInt32.ofNat count } }

theorem past_past (core : Core) (first second : Nat) :
    (core.past first).past second = core.past (first + second) := by
  have noted := congrArg Core.journal (core.record_append (Access.reads core.cpu.eip first)
    (Access.reads (core.cpu.eip + UInt32.ofNat first) second))
  rw [← Access.reads_add] at noted
  simp only [past, UInt32.ofNat_add, ← UInt32.add_assoc, noted]
  rfl

/-- Note an event in the journal. -/
def push (core : Core) (event : Event) : Core :=
  { core with journal := core.journal.push event }

end Core

namespace Exec

theorem run_readByte_record (address : UInt32) (core : Core) :
    (readByte address).run core =
      (core.memory.readByte address, core.record [.read address]) := by
  rw [run_readByte]
  by_cases mapped : core.memory.Maps address
  · have inside : address.toNat < core.memory.size := mapped
    simp [mapped, Core.record, Access.events, Access.event?, inside]
  · have outside : ¬address.toNat < core.memory.size := mapped
    simp [mapped, Core.record, Access.events, Access.event?, outside]

theorem run_writeByte_record (address : UInt32) (value : UInt8) (core : Core) :
    (writeByte address value).run core =
      ((), { core.record [.write address value] with
        memory := core.memory.writeByte address value }) := by
  rw [run_writeByte]
  by_cases mapped : core.memory.Maps address
  · have inside : address.toNat < core.memory.size := mapped
    simp [mapped, Core.record, Access.events, Access.event?, inside]
  · have outside : ¬address.toNat < core.memory.size := mapped
    simp [mapped, Core.record, Access.events, Access.event?, outside,
      Memory.writeByte_of_not_maps mapped]

/-- Reading bytes gives the bytes of the memory and notes the reads. -/
@[simp] theorem run_readBytes (address : UInt32) (count : Nat) (core : Core) :
    (readBytes address count).run core =
      (core.memory.readBytes address count, core.record (Access.reads address count)) := by
  induction count generalizing address core with
  | zero => simp [readBytes, Memory.readBytes, Access.reads]
  | succ count ih =>
      have split : Access.reads address (count + 1) =
          [.read address] ++ Access.reads (address + 1) count := rfl
      simp only [readBytes, run_bind, run_pure, run_readByte_record, ih, split,
        Core.record_append, Core.memory_record, Memory.readBytes]

/-- Storing bytes stores them in the memory and notes the writes. -/
@[simp] theorem run_writeBytes (address : UInt32) (bytes : List UInt8) (core : Core) :
    (writeBytes address bytes).run core =
      ((), { core.record (Access.writes address bytes) with
        memory := core.memory.writeBytes address bytes }) := by
  induction bytes generalizing address core with
  | nil => simp [writeBytes, Memory.writeBytes, Access.writes]
  | cons byte bytes ih =>
      have split : Access.writes address (byte :: bytes) =
          [.write address byte] ++ Access.writes (address + 1) bytes := rfl
      simp only [writeBytes, run_bind, run_writeByte_record, ih, split, Core.record_append,
        Memory.writeBytes]
      simp [Core.record]

@[simp] theorem run_readMemory (address : UInt32) (width : Width) (core : Core) :
    (readMemory address width).run core =
      (core.memory.read address width, core.record (Access.reads address width.bytes)) := by
  simp [readMemory, Memory.read]

@[simp] theorem run_writeMemory (address : UInt32) (width : Width) (value : UInt32)
    (core : Core) :
    (writeMemory address width value).run core =
      ((), { core.record
          (Access.writes address (LittleEndian.toBytes width.bytes value.toNat)) with
        memory := core.memory.write address width value }) := by
  simp [writeMemory, Memory.write]

@[simp] theorem run_advance (length : Nat) (core : Core) :
    (advance length).run core =
      ((), { core with
        cpu := { core.cpu with eip := core.cpu.eip + UInt32.ofNat length } }) := rfl

@[simp] theorem run_touch (length : Nat) (core : Core) :
    (touch length).run core = ((), core.record (Access.reads core.cpu.eip length)) := by
  simp [touch]

/-- Looking at some code and then moving over it. -/
theorem run_advance_touch (length : Nat) (core : Core) :
    (advance length).run ((touch length).run core).2 = ((), core.past length) := by
  rw [run_touch, run_advance]
  rfl

end Exec

/-- What an instruction comes to: its word, the processor and the memory after it, and the
accesses that it made. -/
structure Effect where
  word : UInt32
  cpu : Cpu
  memory : Memory
  accesses : List Access

namespace Effect

/-- The same effect after some accesses that changed nothing. -/
def after (effect : Effect) (accesses : List Access) : Effect :=
  { effect with accesses := accesses ++ effect.accesses }

@[simp] theorem word_after (effect : Effect) (accesses : List Access) :
    (effect.after accesses).word = effect.word := rfl

@[simp] theorem after_nil (effect : Effect) : effect.after [] = effect := rfl

@[simp] theorem after_after (effect : Effect) (first second : List Access) :
    (effect.after second).after first = effect.after (first ++ second) := by
  simp [after]

end Effect

namespace Core

/-- The state after an effect. The journal goes on with the accesses of the effect. -/
def apply (core : Core) (effect : Effect) : Core :=
  { core.record effect.accesses with cpu := effect.cpu, memory := effect.memory }

@[simp] theorem apply_record (core : Core) (accesses : List Access) (effect : Effect) :
    (core.record accesses).apply effect = core.apply (effect.after accesses) := by
  simp only [apply, Effect.after, record_append]

end Core

namespace Operand

/-- The value of an operand in the given registers and memory. -/
def value (operand : Operand) (registers : Registers) (memory : Memory) : UInt32 :=
  match operand.location with
  | .register code => registers.read code operand.width
  | .memory address => memory.read address operand.width

/-- The accesses that get the value of an operand. -/
def reads (operand : Operand) : List Access :=
  match operand.location with
  | .register _ => []
  | .memory address => Access.reads address operand.width.bytes

/-- The effect of storing a value in an operand. -/
def store (operand : Operand) (value : UInt32) (cpu : Cpu) (memory : Memory) : Effect :=
  match operand.location with
  | .register code =>
      { word := value
        cpu := { cpu with registers := cpu.registers.write code operand.width value }
        memory
        accesses := [] }
  | .memory address =>
      { word := value
        cpu
        memory := memory.write address operand.width value
        accesses :=
          Access.writes address (LittleEndian.toBytes operand.width.bytes value.toNat) }

@[simp] theorem word_store (operand : Operand) (value : UInt32) (cpu : Cpu)
    (memory : Memory) : (operand.store value cpu memory).word = value := by
  cases operand with
  | mk location width => cases location <;> rfl

@[simp] theorem run_read (operand : Operand) (core : Core) :
    operand.read.run core =
      (operand.value core.cpu.registers core.memory, core.record operand.reads) := by
  cases operand with
  | mk location width =>
      cases location with
      | register code => simp [read, value, reads]
      | memory address => simp [read, value, reads]

@[simp] theorem run_write (operand : Operand) (value : UInt32) (core : Core) :
    (operand.write value).run core =
      ((), core.apply (operand.store value core.cpu core.memory)) := by
  cases operand with
  | mk location width =>
      cases location with
      | register code => simp [write, store, Core.apply]
      | memory address =>
          simp only [write, Exec.run_writeMemory, store, Core.apply]
          rfl

end Operand

namespace Source

/-- The value of a source; `widen` brings an immediate value to the width of the other
operand. -/
def value (source : Source) (widen : Width → UInt32 → UInt32) (registers : Registers)
    (memory : Memory) : UInt32 :=
  match source with
  | .operand place => place.value registers memory
  | .immediate width value => widen width value

/-- The accesses that get the value of a source. -/
def reads : Source → List Access
  | .operand place => place.reads
  | .immediate .. => []

end Source

namespace Instruction

/-- The effect of combining two values. -/
def combineEffect (op : BinaryOp) (destination : Operand) (left right : UInt32) (cpu : Cpu)
    (memory : Memory) : Effect :=
  let result := op.evaluate destination.width left right cpu.flags
  let cpu := { cpu with flags := result.flags }
  if op.writesBack then
    destination.store result.value cpu memory
  else
    { word := result.value, cpu, memory, accesses := [] }

/-- The effect of an instruction on a processor whose pointer is behind it. -/
def effect (instruction : Instruction) (cpu : Cpu) (memory : Memory) : Effect :=
  match instruction with
  | .move destination source =>
      let value := source.value (fun _ value => value) cpu.registers memory
      (destination.store value cpu memory).after source.reads
  | .loadAccumulator width address =>
      ((Operand.accumulator width).store (memory.read address width) cpu memory).after
        (Access.reads address width.bytes)
  | .storeAccumulator width address =>
      (Operand.memory address width).store (cpu.registers.read .accumulator width) cpu memory
  | .binary op destination source =>
      let left := destination.value cpu.registers memory
      let right :=
        source.value (op.widenImmediate destination.width) cpu.registers memory
      (combineEffect op destination left right cpu memory).after
        (destination.reads ++ source.reads)
  | .reversed op destination source =>
      let left := source.value cpu.registers memory
      let right := destination.value cpu.registers memory
      (combineEffect (.arithmetic op) destination left right cpu memory).after
        (source.reads ++ destination.reads)
  | .unary op operand =>
      let result := op.evaluate operand.width (operand.value cpu.registers memory) cpu.flags
      (operand.store result.value { cpu with flags := result.flags } memory).after
        operand.reads
  | .jump width displacement =>
      let target := UInt32.ofInt (cpu.eip.toNat + width.toSigned displacement.toNat)
      { word := target, cpu := { cpu with eip := target }, memory, accesses := [] }

@[simp] theorem run_combine (op : BinaryOp) (destination : Operand) (left right : UInt32)
    (core : Core) :
    (combine op destination left right).run core =
      ((combineEffect op destination left right core.cpu core.memory).word,
        core.apply (combineEffect op destination left right core.cpu core.memory)) := by
  cases stored : op.writesBack with
  | true =>
      simp only [combine, combineEffect, stored, if_true, Exec.run_bind, Exec.run_flags,
        Exec.run_setFlags, Operand.run_write, Operand.word_store, Exec.run_pure]
      rfl
  | false => simp [combine, combineEffect, stored, Core.apply]

/-- Carrying out an instruction has the effect of the instruction and no other. -/
theorem run_perform (instruction : Instruction) (core : Core) :
    instruction.perform.run core =
      ((instruction.effect core.cpu core.memory).word,
        core.apply (instruction.effect core.cpu core.memory)) := by
  cases instruction with
  | move destination source =>
      cases source with
      | operand place => simp [perform, effect, Source.value, Source.reads]
      | immediate width value => simp [perform, effect, Source.value, Source.reads]
  | loadAccumulator width address =>
      simp [perform, effect, Operand.accumulator, Operand.register, Operand.store, Core.apply,
        Effect.after, Core.record]
  | storeAccumulator width address =>
      simp [perform, effect, Operand.memory, Operand.store, Core.apply, Core.record]
  | binary op destination source =>
      cases source with
      | operand place => simp [perform, effect, Source.value, Source.reads]
      | immediate width value => simp [perform, effect, Source.value, Source.reads]
  | reversed op destination source => simp [perform, effect]
  | unary op operand =>
      simp only [perform, effect, Exec.run_bind, Operand.run_read, Exec.run_flags,
        Exec.run_setFlags, Operand.run_write, Exec.run_pure, Effect.word_after,
        Operand.word_store, ← Core.apply_record]
      rfl
  | jump width displacement => simp [perform, effect, Core.apply]

end Instruction

end Ia32
