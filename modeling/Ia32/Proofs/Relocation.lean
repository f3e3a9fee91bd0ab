import Ia32.Proofs.Frame
import Ia32.Proofs.Locality

/-!
# What a step depends on

A step looks at the code at the instruction pointer, at the general registers and the flags,
and at the bytes of the memory operand, if there is one. Two machines that agree on these
answer alike and change alike, wherever the code lies and whatever else the memories hold.
-/

namespace Ia32

/-! ## Operands -/

namespace Operand

/-- The address of an operand in memory. -/
def address? (operand : Operand) : Option UInt32 :=
  match operand.location with
  | .register _ => none
  | .memory address => some address

/-- Whether a byte of the memory belongs to an operand. -/
def Covers (operand : Operand) (index : Nat) : Prop :=
  ∃ address, operand.address? = some address ∧ Memory.InBlock address operand.width.bytes index

variable {left right : Memory}

/-- The value of an operand is told by the registers and its own bytes. -/
theorem value_congr {operand : Operand} {registers : Registers}
    (agree : ∀ index, operand.Covers index → right.bytes[index]? = left.bytes[index]?) :
    operand.value registers right = operand.value registers left := by
  cases operand with
  | mk location width =>
      cases location with
      | register code => rfl
      | memory address =>
          exact Memory.read_congr fun index inside => agree index ⟨address, rfl, inside⟩

/-- Storing a value in an operand changes no other bytes. -/
theorem put_of_not_covers {operand : Operand} {index : Nat} (outside : ¬operand.Covers index)
    (value : UInt32) (registers : Registers) (memory : Memory) :
    (operand.put value registers memory).2.bytes[index]? = memory.bytes[index]? := by
  cases operand with
  | mk location width =>
      cases location with
      | register code => rfl
      | memory address =>
          exact memory.write_sameOutside address width value index fun inside =>
            outside ⟨address, rfl, inside⟩

/-- Storing a value leaves the same registers with every memory. -/
theorem put_registers_congr (operand : Operand) (value : UInt32) (registers : Registers)
    (left right : Memory) :
    (operand.put value registers right).1 = (operand.put value registers left).1 := by
  cases operand with
  | mk location width => cases location <;> rfl

/-- Storing a value leaves a byte equal in two memories where it was equal before. -/
theorem put_memory_congr {index : Nat} (same : right.bytes[index]? = left.bytes[index]?)
    (operand : Operand) (value : UInt32) (registers : Registers) :
    (operand.put value registers right).2.bytes[index]? =
      (operand.put value registers left).2.bytes[index]? := by
  cases operand with
  | mk location width =>
      cases location with
      | register code => exact same
      | memory address => exact Memory.getElem?_writeBytes_congr same _ _

end Operand

/-- The operands that a source stands for. -/
def Source.operands : Source → List Operand
  | .operand place => [place]
  | .immediate .. => []

theorem Source.value_congr {source : Source} {registers : Registers} {left right : Memory}
    (same : ∀ operand ∈ source.operands,
      operand.value registers right = operand.value registers left)
    (widen : Width → UInt32 → UInt32) :
    source.value widen registers right = source.value widen registers left := by
  cases source with
  | operand place => exact same place (List.mem_singleton.mpr rfl)
  | immediate width value => rfl

namespace Instruction

/-- The operands of an instruction, those that it only writes included. -/
def operands : Instruction → List Operand
  | .move destination source => destination :: source.operands
  | .loadAccumulator width address => [.accumulator width, .memory address width]
  | .storeAccumulator width address => [.memory address width, .accumulator width]
  | .binary _ destination source => destination :: source.operands
  | .reversed _ destination source => [destination, source]
  | .unary _ operand => [operand]
  | .jump .. => []

theorem operands_toRegister (op : BinaryOp) (register place : Operand) :
    (toRegister op register place).operands = [register, place] := by
  cases op <;> rfl

/-- The operand that lies in memory. -/
def memoryOperand? (instruction : Instruction) : Option Operand :=
  instruction.operands.find? (·.address?.isSome)

theorem target?_mem_operands {instruction : Instruction} {place : Operand}
    (target : instruction.target? = some place) : place ∈ instruction.operands := by
  cases instruction with
  | move | loadAccumulator | storeAccumulator | unary =>
      cases target
      exact List.mem_cons_self
  | binary op destination | reversed op destination =>
      simp only [target?, Option.ite_none_right_eq_some] at target
      cases target.2
      exact List.mem_cons_self
  | jump => cases target

/-- Whether a byte of the memory belongs to an operand of an instruction. -/
def Covers (instruction : Instruction) (index : Nat) : Prop :=
  ∃ operand ∈ instruction.operands, operand.Covers index

/-- Two operands that both lie in memory are one and the same. -/
def NamesMemoryOnce (instruction : Instruction) : Prop :=
  ∀ first ∈ instruction.operands, ∀ second ∈ instruction.operands,
    first.address?.isSome → second.address?.isSome → first = second

/-- The bytes of such an instruction are those of its memory operand. -/
theorem covers_iff {instruction : Instruction} (once : instruction.NamesMemoryOnce)
    (index : Nat) :
    instruction.Covers index ↔
      ∃ operand, instruction.memoryOperand? = some operand ∧ operand.Covers index := by
  constructor
  · rintro ⟨operand, member, address, located, inside⟩
    have inMemory : operand.address?.isSome := Option.isSome_iff_exists.mpr ⟨address, located⟩
    cases found : instruction.memoryOperand? with
    | none => exact absurd inMemory (List.find?_eq_none.mp found operand member)
    | some other =>
        have otherInMemory := List.find?_some found
        have same : operand = other :=
          once operand member other (List.mem_of_find?_eq_some found) inMemory otherInMemory
        subst same
        exact ⟨operand, rfl, address, located, inside⟩
  · rintro ⟨operand, found, covered⟩
    exact ⟨operand, List.mem_of_find?_eq_some found, covered⟩

end Instruction

@[simp] theorem Operand.address?_register (code : RegisterCode) (width : Width) :
    (register code width).address? = none := rfl

@[simp] theorem Operand.address?_accumulator (width : Width) :
    (accumulator width).address? = none := rfl

/-- What a form reads names memory at most once: besides a register an addressing byte names a
single place. -/
theorem Form.namesMemoryOnce_of_decode {form : Form Width} {opcode : UInt8}
    {registers : Registers} {code : Code} {instruction : Instruction} {length : Nat}
    (decoded : form.decode opcode registers code = .instruction instruction length) :
    instruction.NamesMemoryOnce := by
  cases form with
  | moveRegisterImmediate | movePlaceRegister | moveRegisterPlace | loadAccumulator
  | storeAccumulator | binaryAccumulatorImmediate | binaryPlaceRegister | jump =>
      cases decoded
      simp [Instruction.NamesMemoryOnce, Instruction.operands, Source.operands, immediate]
  | binaryRegisterPlace =>
      cases decoded
      simp [Instruction.NamesMemoryOnce, Instruction.operands_toRegister]
  | movePlaceImmediate | binaryPlaceImmediate | unary =>
      rcases of_decodeGroup decoded with ⟨rfl, rfl⟩
      simp [Instruction.NamesMemoryOnce, Instruction.operands, Source.operands, immediate]

/-! ## Effects -/

namespace Instruction

/-- Storing the same word leaves the same registers, and a byte that was equal in two memories
stays equal. -/
theorem putWord_congr {instruction : Instruction} {word other : UInt32}
    (same : ∀ place, instruction.target? = some place → other = word) (registers : Registers)
    (left right : Memory) :
    let leftAfter := instruction.putWord word registers left
    let rightAfter := instruction.putWord other registers right
    rightAfter.1 = leftAfter.1 ∧
      ∀ index : Nat, right.bytes[index]? = left.bytes[index]? →
        rightAfter.2.bytes[index]? = leftAfter.2.bytes[index]? := by
  unfold putWord
  cases target : instruction.target? with
  | none => exact ⟨rfl, fun _ equal => equal⟩
  | some place =>
      rw [same place target]
      exact ⟨place.put_registers_congr .., fun _ equal => Operand.put_memory_congr equal ..⟩

section

variable {instruction : Instruction} {cpu : Cpu} {left right : Memory}

/-- The values of the operands tell the flags and the word that is stored. Only a jump looks
at the instruction pointer, and it stores nothing. -/
theorem flags_word_effect_congr
    (same : ∀ operand ∈ instruction.operands,
      operand.value cpu.registers right = operand.value cpu.registers left) (eip : UInt32) :
    let leftEffect := instruction.effect cpu left
    let rightEffect := instruction.effect { cpu with eip } right
    rightEffect.cpu.flags = leftEffect.cpu.flags ∧
      ∀ place, instruction.target? = some place → rightEffect.word = leftEffect.word := by
  cases instruction with
  | move destination source =>
      have value := Source.value_congr fun operand member =>
        same operand (List.mem_cons_of_mem _ member)
      simp only [effect, Effect.cpu_after, Effect.word_after, Operand.flags_store,
        Operand.word_store, value, implies_true, and_self]
  | loadAccumulator width address =>
      have value : right.read address width = left.read address width :=
        same (.memory address width) (by simp [operands])
      simp only [effect, Effect.cpu_after, Effect.word_after, Operand.flags_store,
        Operand.word_store, value, implies_true, and_self]
  | storeAccumulator =>
      simp only [effect, Operand.flags_store, Operand.word_store, implies_true, and_self]
  | binary op destination source =>
      have first := same destination List.mem_cons_self
      have second := Source.value_congr fun operand member =>
        same operand (List.mem_cons_of_mem _ member)
      simp only [effect, Effect.cpu_after, Effect.word_after, flags_combineEffect,
        word_combineEffect, first, second, implies_true, and_self]
  | reversed op destination source =>
      have first := same destination List.mem_cons_self
      have second := same source (List.mem_cons_of_mem _ List.mem_cons_self)
      simp only [effect, Effect.cpu_after, Effect.word_after, flags_combineEffect,
        word_combineEffect, first, second, implies_true, and_self]
  | unary op operand =>
      have value := same operand List.mem_cons_self
      simp only [effect, Effect.cpu_after, Effect.word_after, Operand.flags_store,
        Operand.word_store, value, implies_true, and_self]
  | jump =>
      refine ⟨rfl, fun place target => ?_⟩
      cases target

/-- The operands tell what an instruction does to the registers, the flags and the bytes of
its operands. A byte that is equal in two memories stays equal. -/
theorem effect_congr
    (agree : ∀ index, instruction.Covers index → right.bytes[index]? = left.bytes[index]?)
    (eip : UInt32) :
    let leftEffect := instruction.effect cpu left
    let rightEffect := instruction.effect { cpu with eip } right
    rightEffect.cpu.registers = leftEffect.cpu.registers ∧
      rightEffect.cpu.flags = leftEffect.cpu.flags ∧
      ∀ index : Nat, right.bytes[index]? = left.bytes[index]? →
        rightEffect.memory.bytes[index]? = leftEffect.memory.bytes[index]? := by
  intro leftEffect rightEffect
  have values : ∀ operand ∈ instruction.operands,
      operand.value cpu.registers right = operand.value cpu.registers left :=
    fun operand member =>
      Operand.value_congr fun index covered => agree index ⟨operand, member, covered⟩
  have told : rightEffect.cpu.flags = leftEffect.cpu.flags ∧
      ∀ place, instruction.target? = some place → rightEffect.word = leftEffect.word :=
    flags_word_effect_congr values eip
  have stored := putWord_congr told.2 cpu.registers left right
  have leftRegisters : leftEffect.cpu.registers = _ := instruction.registers_effect ..
  have rightRegisters : rightEffect.cpu.registers = _ := instruction.registers_effect ..
  have leftMemory : leftEffect.memory = _ := instruction.memory_effect ..
  have rightMemory : rightEffect.memory = _ := instruction.memory_effect ..
  rw [leftRegisters, rightRegisters, leftMemory, rightMemory]
  exact ⟨stored.1, told.1, stored.2⟩

end

/-- Away from its operands an instruction changes no byte of the memory. -/
theorem bytes_effect_of_not_covers {instruction : Instruction} {index : Nat}
    (outside : ¬instruction.Covers index) (cpu : Cpu) (memory : Memory) :
    (instruction.effect cpu memory).memory.bytes[index]? = memory.bytes[index]? := by
  rw [instruction.memory_effect]
  unfold putWord
  cases target : instruction.target? with
  | none => rfl
  | some place =>
      exact Operand.put_of_not_covers
        (fun covered => outside ⟨place, target?_mem_operands target, covered⟩) ..

end Instruction

/-! ## Readings -/

namespace Reading

/-- The memory operand of the instruction that was read. -/
def memoryOperand? : Reading → Option Operand
  | .decoded instruction _ => instruction.memoryOperand?
  | _ => none

/-- Whether a byte of the memory belongs to an operand of the instruction that was read. -/
def Covers (reading : Reading) (index : Nat) : Prop :=
  match reading with
  | .decoded instruction _ => instruction.Covers index
  | _ => False

/-- How far execution moves on. -/
def advance : Reading → UInt32
  | .halt length => UInt32.ofNat length
  | .unknownOpcode _ => 0
  | .unknownExtension .. => 0
  | .decoded instruction length => UInt32.ofNat length + UInt32.ofInt instruction.distance

theorem Reads.covers_iff {registers : Registers} {code : Code} {reading : Reading}
    (reads : Reads registers code reading) (index : Nat) :
    reading.Covers index ↔
      ∃ operand, reading.memoryOperand? = some operand ∧ operand.Covers index := by
  cases reads with
  | halt | unknownOpcode | unknownExtension => simp [Covers, memoryOperand?]
  | decoded running selected decoded =>
      exact Instruction.covers_iff (Form.namesMemoryOnce_of_decode decoded) index

end Reading

namespace Machine

/-! ## Steps -/

/-- Two answers of the same kind. An error is about the address its own step started from. -/
inductive AnswersAlike (left right : UInt32) :
    Except Error Step → Except Error Step → Prop where
  | step (step : Step) : AnswersAlike left right (.ok step) (.ok step)
  | unknownOpcode (opcode : UInt8) :
      AnswersAlike left right (.error (.decode (.unknownOpcode opcode left)))
        (.error (.decode (.unknownOpcode opcode right)))
  | unknownExtension (opcode : UInt8) (extension : Extension) :
      AnswersAlike left right (.error (.decode (.unknownExtension opcode extension left)))
        (.error (.decode (.unknownExtension opcode extension right)))

/-- The operand of the next instruction that lies in memory. -/
def memoryOperand? (machine : Machine) : Option Operand :=
  machine.reading.memoryOperand?

/-- Whether a byte of the memory belongs to the memory operand of the next instruction. -/
def Addresses (machine : Machine) (index : Nat) : Prop :=
  ∃ operand, machine.memoryOperand? = some operand ∧ operand.Covers index

/-- Two machines that go on and agree on all that the next step depends on: the registers, the
flags, eleven bytes of code, each at its own instruction pointer, and the bytes of the memory
operand. -/
structure Relocated (left right : Machine) : Prop where
  leftRunning : left.halted = false
  rightRunning : right.halted = false
  registers : right.cpu.registers = left.cpu.registers
  flags : right.cpu.flags = left.cpu.flags
  code : ∀ position < 11, right.code.byte position = left.code.byte position
  operand : ∀ index, left.Addresses index →
    right.memory.bytes[index]? = left.memory.bytes[index]?

theorem addresses_iff (machine : Machine) (index : Nat) :
    machine.Addresses index ↔ machine.reading.Covers index :=
  ((Reading.reads_ofCode machine.cpu.registers machine.code).covers_iff index).symm

theorem answersAlike_follow (left right : Machine) (reading : Reading) :
    AnswersAlike left.cpu.eip right.cpu.eip (left.follow reading).1 (right.follow reading).1 := by
  cases reading with
  | halt => exact .step .halted
  | unknownOpcode opcode => exact .unknownOpcode opcode
  | unknownExtension opcode extension => exact .unknownExtension opcode extension
  | decoded instruction => exact .step (.executed instruction.mnemonic)

theorem eip_follow (machine : Machine) (reading : Reading) :
    (machine.follow reading).2.cpu.eip = machine.cpu.eip + reading.advance := by
  cases reading with
  | halt => rfl
  | unknownOpcode | unknownExtension => exact (add_ofNat_zero _).symm
  | decoded instruction length =>
      change (instruction.effect _ machine.memory).cpu.eip = _
      rw [instruction.eip_effect, UInt32.ofInt_add, ofInt_toNat, UInt32.add_assoc]
      rfl

theorem bytes_follow_of_not_covers (machine : Machine) {reading : Reading} {index : Nat}
    (outside : ¬reading.Covers index) :
    (machine.follow reading).2.memory.bytes[index]? = machine.memory.bytes[index]? := by
  cases reading with
  | halt | unknownOpcode | unknownExtension => rfl
  | decoded => exact Instruction.bytes_effect_of_not_covers outside ..

/-- A reading does the same to the registers, the flags and the bytes of the operands of every
machine that agrees on these. -/
theorem follow_congr {left right : Machine} {reading : Reading}
    (registers : right.cpu.registers = left.cpu.registers)
    (flags : right.cpu.flags = left.cpu.flags)
    (agree : ∀ index, reading.Covers index →
      right.memory.bytes[index]? = left.memory.bytes[index]?) :
    let leftAfter := (left.follow reading).2
    let rightAfter := (right.follow reading).2
    rightAfter.cpu.registers = leftAfter.cpu.registers ∧
      rightAfter.cpu.flags = leftAfter.cpu.flags ∧
      ∀ index : Nat, right.memory.bytes[index]? = left.memory.bytes[index]? →
        rightAfter.memory.bytes[index]? = leftAfter.memory.bytes[index]? := by
  cases reading with
  | halt | unknownOpcode | unknownExtension => exact ⟨registers, flags, fun _ same => same⟩
  | decoded instruction length =>
      let leftBehind := { left.cpu with eip := left.cpu.eip + UInt32.ofNat length }
      let rightBehind := { right.cpu with eip := right.cpu.eip + UInt32.ofNat length }
      -- Behind the instruction the processors differ in nothing but the pointer.
      have moved : rightBehind = { leftBehind with eip := rightBehind.eip } := by
        simp only [rightBehind, leftBehind, registers, flags]
      change (instruction.effect rightBehind right.memory).cpu.registers = _ ∧
        (instruction.effect rightBehind right.memory).cpu.flags = _ ∧
        ∀ index : Nat, _ →
          (instruction.effect rightBehind right.memory).memory.bytes[index]? = _
      rw [moved]
      exact Instruction.effect_congr agree rightBehind.eip

/-- A step depends on the code at the instruction pointer, the registers, the flags and the
bytes of the memory operand, and on nothing else. Machines that agree on these name the same
memory operand and get answers of the same kind, the same registers and flags, and instruction
pointers that have moved equally far. Each memory stays as it was outside the operand, and the
bytes of the operand are the same in both. -/
theorem step_relocated (left right : Machine) (relocated : left.Relocated right) :
    let leftAfter := left.step.machine
    let rightAfter := right.step.machine
    AnswersAlike left.cpu.eip right.cpu.eip left.step.result right.step.result ∧
      rightAfter.cpu.registers = leftAfter.cpu.registers ∧
      rightAfter.cpu.flags = leftAfter.cpu.flags ∧
      rightAfter.cpu.eip - right.cpu.eip = leftAfter.cpu.eip - left.cpu.eip ∧
      right.memoryOperand? = left.memoryOperand? ∧
      (∀ index, ¬left.Addresses index →
        leftAfter.memory.bytes[index]? = left.memory.bytes[index]? ∧
          rightAfter.memory.bytes[index]? = right.memory.bytes[index]?) ∧
      ∀ index, left.Addresses index →
        rightAfter.memory.bytes[index]? = leftAfter.memory.bytes[index]? := by
  intro leftAfter rightAfter
  have reading : right.reading = left.reading := by
    rw [Machine.reading, relocated.registers]
    exact Reading.ofCode_congr relocated.code
  have leftOutcome := outcome_step relocated.leftRunning
  have rightOutcome := outcome_step relocated.rightRunning
  rw [reading] at rightOutcome
  have leftResult : left.step.result = (left.follow left.reading).1 :=
    congrArg Prod.fst leftOutcome
  have rightResult : right.step.result = (right.follow left.reading).1 :=
    congrArg Prod.fst rightOutcome
  have leftMachine : leftAfter = (left.follow left.reading).2 := congrArg Prod.snd leftOutcome
  have rightMachine : rightAfter = (right.follow left.reading).2 := congrArg Prod.snd rightOutcome
  have told := follow_congr relocated.registers relocated.flags fun index covered =>
    relocated.operand index ((left.addresses_iff index).mpr covered)
  rw [leftResult, rightResult, leftMachine, rightMachine]
  refine ⟨answersAlike_follow .., told.1, told.2.1, ?moved, ?operand, ?outside, ?inside⟩
  case moved =>
    rw [eip_follow, eip_follow, UInt32.add_comm, UInt32.add_sub_cancel, UInt32.add_comm,
      UInt32.add_sub_cancel]
  case operand => rw [memoryOperand?, memoryOperand?, reading]
  case outside =>
    intro index outside
    rw [left.addresses_iff] at outside
    exact ⟨bytes_follow_of_not_covers left outside, bytes_follow_of_not_covers right outside⟩
  case inside =>
    intro index addressed
    exact told.2.2 index (relocated.operand index addressed)

/-- An addition to a doubleword in memory, at the start of one memory and further up in another
one, with different code and data around it. -/
theorem step_relocated_addition :
    let left := withMemory {}
      { bytes := #[0x01, 0x05, 0x18, 0, 0, 0, 0xF4, 0xF4, 0xF4, 0xF4, 0xF4, 1, 2, 3, 4, 5, 6, 7, 8,
        9, 10, 11, 12, 13, 0xFE, 0xFF, 0xFF, 0xFF] }
    let right := withMemory { loadAddress := 12 }
      { bytes := #[9, 9, 9, 9, 9, 9, 9, 9, 9, 9, 9, 9, 0x01, 0x05, 0x18, 0, 0, 0, 0xF4, 0xF4, 0xF4,
        0xF4, 0xF4, 9, 0xFE, 0xFF, 0xFF, 0xFF] }
    left.Relocated right ∧
      AnswersAlike 0 12 left.step.result right.step.result ∧
      right.step.machine.cpu.eip - 12 = left.step.machine.cpu.eip - 0 := by
  intro left right
  have operand : left.memoryOperand? = some (.memory 24 .dword) := by decide
  have agree : ∀ offset < 4, right.memory.bytes[(24 + UInt32.ofNat offset).toNat]? =
      left.memory.bytes[(24 + UInt32.ofNat offset).toNat]? := by decide
  have relocated : left.Relocated right := by
    refine ⟨rfl, rfl, rfl, rfl, by decide, ?_⟩
    rintro index ⟨place, named, address, located, offset, inside, rfl⟩
    cases operand.symm.trans named
    cases located
    exact agree offset inside
  have same := step_relocated left right relocated
  exact ⟨relocated, same.1, same.2.2.2.1⟩

end Machine

end Ia32
