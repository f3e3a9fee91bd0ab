import Ia32.Execution

/-!
# Machines

A machine is a processor with its memory, the number of instructions it has carried out,
and the number it may carry out at most. It is built from a configuration and either a
program, which is loaded into a cleared memory, or a memory that is already filled.

A step reads an opcode, with an operand-size byte in front of it or without, and offers the
bytes behind it to the forms of the opcode, one after the other, until one of them accepts.
When none does, or there is none, the step fails and the instruction pointer is back at the
first byte. A machine that has halted stays as it is.

A run repeats single steps until the machine halts or a step fails. It looks at the counter
before each step, and fails when the machine has carried out its last permitted instruction.
-/

namespace Ia32

/-- How a machine is set up. -/
structure Config where
  memorySize : UInt64 := 0x100000
  /-- Where the program is loaded and where execution starts. -/
  loadAddress : UInt32 := 0
  /-- The initial stack pointer; without one it is the end of the memory. -/
  stackPointer : Option UInt32 := none
  maxSteps : UInt64 := 1000000
  deriving DecidableEq, Repr

/-- The value of the stack pointer at the start. A memory that fills the address space has
no address at its end, so the last address takes its place. -/
def Config.initialStackPointer (config : Config) : UInt32 :=
  config.stackPointer.getD (UInt32.ofNat (min config.memorySize.toNat 0xFFFFFFFF))

/-- A processor at work on a program. The counter is a natural number here; that it stays a machine
word is a part of `Machine.InRange`. -/
structure Machine where
  cpu : Cpu
  memory : Memory
  maxSteps : UInt64
  halted : Bool
  steps : Nat
  deriving DecidableEq

namespace Machine

/-- A machine about to start on what is in the memory. -/
def withMemory (config : Config) (memory : Memory) : Machine :=
  let registers := Registers.zero.write .stackPointer .dword config.initialStackPointer
  { cpu := { registers, eip := config.loadAddress, flags := .clear }
    memory
    maxSteps := config.maxSteps
    halted := false
    steps := 0 }

/-- A machine about to start on a program loaded into a cleared memory. -/
def ofProgram (config : Config) (program : Array UInt8) : Except Error Machine :=
  match Memory.zeroed config.memorySize with
  | .error cause => .error (.fault cause)
  | .ok cleared =>
      match cleared.load config.loadAddress program with
      | .error cause => .error (.load cause)
      | .ok memory => .ok (withMemory config memory)

/-- What is reported when a program has been loaded. -/
def loadedEvent (config : Config) (program : Array UInt8) : Event :=
  .loaded program.size config.loadAddress config.memorySize.toNat

end Machine

/-! ## Steps -/

namespace Exec

/-- The opcode at the instruction pointer and the width of its full operands. An
operand-size byte makes them a word wide. -/
def fetchOpcode : Exec (UInt8 × Width) := do
  let first ← fetchByte
  if first = OpcodeMap.operandSizeByte then
    return (← fetchByte, .word)
  else
    return (first, .dword)

/-- Offer the bytes at `operands` to each form in turn. The answer is the mnemonic of the
instruction that was carried out, if some form accepted. A form that declines must leave the
instruction pointer at `operands`. -/
def tryForms (opcode : UInt8) (full : Width) (operands : UInt32) :
    List (Form OperandSize) → Exec (Except Fault (Option Mnemonic))
  | [] => return .ok none
  | form :: forms => do
      match ← (form.resolve full).attempt opcode with
      | .error fault => return .error fault
      | .ok (.executed mnemonic) => return .ok (some mnemonic)
      | .ok (.declined answered) =>
          let reached ← Exec.eip
          if answered = operands ∧ reached = operands then
            tryForms opcode full operands forms
          else
            return .error (.pointerNotRestored form.render opcode answered reached operands)

/-- The extension in the byte at an address. -/
def readExtension (address : UInt32) : Exec Extension := do
  return (ByteFields.ofByte (← readByte address)).middle

/-- What the bytes at the instruction pointer turned out to be. -/
inductive Finding where
  | halt
  | executed (mnemonic : Mnemonic)
  | undecodable (cause : DecodeError)
  | fault (cause : Fault)
  deriving DecidableEq, Repr

/-- Read and carry out the instruction at the instruction pointer, with the forms that a
table lists for its opcode. -/
def executeNext (table : UInt8 → List (Form OperandSize)) : Exec Finding := do
  let start ← eip
  let (opcode, full) ← fetchOpcode
  if opcode = OpcodeMap.halt then
    return .halt
  match table opcode with
  | [] =>
      setEip start
      return .undecodable (.unknownOpcode opcode start)
  | forms =>
      let operands ← eip
      match ← tryForms opcode full operands forms with
      | .error fault => return .fault fault
      | .ok (some mnemonic) => return .executed mnemonic
      | .ok none =>
          let extension ← readExtension operands
          setEip start
          return .undecodable (.unknownExtension opcode extension start)

end Exec

namespace Machine

/-- What a step did. -/
inductive Step where
  | executed (mnemonic : Mnemonic)
  | halted
  deriving DecidableEq, Repr

/-- The answer of an action on a machine, the machine after it, and what was reported. -/
structure Transition (α : Type) where
  result : Except Error α
  machine : Machine
  events : Array Event

/-- Make a step by an action that reads and carries out one instruction. -/
def stepBy (action : Exec Exec.Finding) (machine : Machine) : Transition Step :=
  if machine.halted then
    { result := .ok .halted, machine, events := #[] }
  else
    let start := machine.cpu.eip
    let (finding, core) := action.run (.start machine.cpu machine.memory)
    let after := { machine with cpu := core.cpu, memory := core.memory }
    match finding with
    | .halt =>
        { result := .ok .halted
          machine := { after with halted := true }
          events := core.journal.push (.halted start machine.steps) }
    | .executed mnemonic =>
        { result := .ok (.executed mnemonic)
          machine := { after with steps := machine.steps + 1 }
          events := core.journal }
    | .undecodable cause =>
        { result := .error (.decode cause)
          machine := after
          events := core.journal.push (.undecodable cause) }
    | .fault cause =>
        { result := .error (.fault cause)
          machine := after
          events := core.journal }

/-- Carry out one instruction, with the forms that a table lists for each opcode. -/
def stepWith (table : UInt8 → List (Form OperandSize)) (machine : Machine) : Transition Step :=
  machine.stepBy (Exec.executeNext table)

/-- Carry out one instruction of the opcode map. -/
def step (machine : Machine) : Transition Step :=
  machine.stepWith OpcodeMap.forms

/-! ## Runs -/

/-- The number of steps that a run of the machine can make before it ends, and one more for
the look at the counter that ends it. -/
def remaining (machine : Machine) : Nat :=
  if machine.halted then 0 else machine.maxSteps.toNat - machine.steps + 1

/-- A step that succeeds halts the machine or counts an instruction. -/
theorem remaining_stepBy_lt {machine : Machine} {action : Exec Exec.Finding} {did : Step}
    (running : ¬machine.halted = true) (left : ¬machine.maxSteps.toNat ≤ machine.steps)
    (answer : (machine.stepBy action).result = .ok did) :
    (machine.stepBy action).machine.remaining < machine.remaining := by
  simp only [stepBy, running, if_false, Bool.false_eq_true] at answer ⊢
  generalize action.run (.start machine.cpu machine.memory) = ran at answer ⊢
  rcases ran with ⟨finding, core⟩
  cases finding with
  | halt => simp [remaining, running]
  | executed mnemonic =>
      simp only [remaining, running, if_false, Bool.false_eq_true]
      omega
  | undecodable cause | fault cause => cases answer

/-- Step until the machine has halted. Of the events that are reported on the way, those that
the threshold keeps are added to `events`. -/
def runFrom (threshold : Threshold) (machine : Machine) (events : Array Event) :
    Transition Unit :=
  if machine.halted then
    { result := .ok (), machine, events }
  else if machine.maxSteps.toNat ≤ machine.steps then
    { result := .error (.budget machine.maxSteps machine.cpu.eip), machine, events }
  else
    let transition := machine.step
    let events := events ++ threshold.select transition.events
    match _answer : transition.result with
    | .ok _ => runFrom threshold transition.machine events
    | .error error => { result := .error error, machine := transition.machine, events }
termination_by machine.remaining
decreasing_by exact remaining_stepBy_lt ‹_› ‹_› _answer

section

variable (threshold : Threshold) {machine : Machine} (events : Array Event)

theorem runFrom_of_halted (halted : machine.halted = true) :
    machine.runFrom threshold events = { result := .ok (), machine, events } := by
  unfold runFrom
  rw [if_pos halted]

variable (running : machine.halted = false)

include running

theorem runFrom_of_exhausted (exhausted : machine.maxSteps.toNat ≤ machine.steps) :
    machine.runFrom threshold events =
      { result := .error (.budget machine.maxSteps machine.cpu.eip), machine, events } := by
  unfold runFrom
  rw [if_neg (Bool.eq_false_iff.mp running), if_pos exhausted]

variable (left : machine.steps < machine.maxSteps.toNat)

include left

/-- A run goes on behind a step that succeeds. -/
theorem runFrom_of_ok {did : Step} (answer : machine.step.result = .ok did) :
    machine.runFrom threshold events =
      machine.step.machine.runFrom threshold
        (events ++ threshold.select machine.step.events) := by
  conv => lhs; unfold runFrom
  rw [if_neg (Bool.eq_false_iff.mp running), if_neg (Nat.not_le.mpr left)]
  dsimp only
  split
  · rfl
  next failed => cases answer.symm.trans failed

/-- A run ends with a step that fails. -/
theorem runFrom_of_error {error : Error} (answer : machine.step.result = .error error) :
    machine.runFrom threshold events =
      { result := .error error
        machine := machine.step.machine
        events := events ++ threshold.select machine.step.events } := by
  unfold runFrom
  rw [if_neg (Bool.eq_false_iff.mp running), if_neg (Nat.not_le.mpr left)]
  dsimp only
  split
  next succeeded => cases answer.symm.trans succeeded
  next failed => rw [Except.error.inj (answer.symm.trans failed)]

end

/-- Step until the machine has halted, within the steps that it has left. -/
def run (threshold : Threshold) (machine : Machine) : Transition Unit :=
  machine.runFrom threshold #[]

/-- Load a program and run it. The machine is missing when it cannot be built. -/
def runProgram (threshold : Threshold) (config : Config) (program : Array UInt8) :
    Except Error (Transition Unit) := do
  let machine ← ofProgram config program
  return machine.runFrom threshold (threshold.select #[loadedEvent config program])

end Machine

end Ia32
