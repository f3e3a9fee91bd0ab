import Ia32.Machine
import Ia32.Proofs.Dispatch

/-!
# What a step answers

The opcode, the extension behind it and the address of the first byte decide what a step
answers, and the listing of the opcode map tells the answer. A step that fails leaves the
machine as it was, so another step and a run meet the same error.
-/

namespace Ia32.Machine

open OpcodeMap (Listed Lists Unassigned)

/-! ## The bytes that decide -/

/-- Where the opcode lies: at the instruction pointer, or behind an operand-size byte. -/
def opcodeAddress (machine : Machine) : UInt32 :=
  if machine.memory.readByte machine.cpu.eip = OpcodeMap.operandSizeByte then
    machine.cpu.eip + 1
  else
    machine.cpu.eip

def opcode (machine : Machine) : UInt8 :=
  machine.memory.readByte machine.opcodeAddress

/-- The extension in the byte behind the opcode. -/
def extension (machine : Machine) : Extension :=
  (ByteFields.ofByte (machine.memory.readByte (machine.opcodeAddress + 1))).middle

theorem byte_code (machine : Machine) (position : Nat) :
    machine.code.byte position =
      machine.memory.readByte (machine.cpu.eip + UInt32.ofNat position) := rfl

theorem opcodeAddress_eq (machine : Machine) :
    machine.opcodeAddress = machine.cpu.eip + UInt32.ofNat machine.code.opening.position := by
  unfold opcodeAddress Code.opening
  rw [byte_code, add_ofNat_zero]
  split
  · rfl
  · exact (add_ofNat_zero _).symm

theorem opening_opcode (machine : Machine) : machine.code.opening.opcode = machine.opcode := by
  rw [opcode, opcodeAddress_eq, ← byte_code]
  unfold Code.opening
  split <;> rfl

theorem opcodeAddress_add_one (machine : Machine) :
    machine.opcodeAddress + 1 =
      machine.cpu.eip + UInt32.ofNat (machine.code.opening.position + 1) := by
  rw [opcodeAddress_eq, UInt32.ofNat_add, ← UInt32.add_assoc]
  rfl

theorem operands_extension (machine : Machine) :
    machine.code.operands.extension = machine.extension := by
  rw [extension, opcodeAddress_add_one, ← Code.extension_codeAt, Code.codeAt_add]
  rfl

/-! ## Answers -/

/-- The answers that the listing of the opcode map allows. -/
inductive Answers (opcode : UInt8) (extension : Extension) (eip : UInt32) :
    Except Error Step → Prop where
  | halted (halting : opcode = OpcodeMap.halt) : Answers opcode extension eip (.ok .halted)
  | unknownOpcode (running : opcode ≠ OpcodeMap.halt) (unlisted : ¬Listed opcode) :
      Answers opcode extension eip (.error (.decode (.unknownOpcode opcode eip)))
  | unknownExtension (unassigned : Unassigned opcode extension) :
      Answers opcode extension eip (.error (.decode (.unknownExtension opcode extension eip)))
  | executed {mnemonic : Mnemonic} (lists : Lists opcode extension mnemonic) :
      Answers opcode extension eip (.ok (.executed mnemonic))

namespace Answers

variable {opcode : UInt8} {extension : Extension} {eip : UInt32}

theorem halted_iff : Answers opcode extension eip (.ok .halted) ↔ opcode = OpcodeMap.halt := by
  constructor
  · intro answers
    cases answers with
    | halted halting => exact halting
  · exact .halted

theorem unknownOpcode_iff (found : UInt8) (address : UInt32) :
    Answers opcode extension eip (.error (.decode (.unknownOpcode found address))) ↔
      found = opcode ∧ address = eip ∧ opcode ≠ OpcodeMap.halt ∧ ¬Listed opcode := by
  constructor
  · intro answers
    cases answers with
    | unknownOpcode running unlisted => exact ⟨rfl, rfl, running, unlisted⟩
  · rintro ⟨rfl, rfl, running, unlisted⟩
    exact .unknownOpcode running unlisted

theorem unknownExtension_iff (found : UInt8) (carried : Extension) (address : UInt32) :
    Answers opcode extension eip (.error (.decode (.unknownExtension found carried address))) ↔
      found = opcode ∧ carried = extension ∧ address = eip ∧ Unassigned opcode extension := by
  constructor
  · intro answers
    cases answers with
    | unknownExtension unassigned => exact ⟨rfl, rfl, rfl, unassigned⟩
  · rintro ⟨rfl, rfl, rfl, unassigned⟩
    exact .unknownExtension unassigned

theorem executed_iff (mnemonic : Mnemonic) :
    Answers opcode extension eip (.ok (.executed mnemonic)) ↔
      Lists opcode extension mnemonic := by
  constructor
  · intro answers
    cases answers with
    | executed lists => exact lists
  · exact .executed

/-- An opcode of the listing is carried out, unless its extension stands for nothing. -/
theorem exists_executed {answer : Except Error Step}
    (answers : Answers opcode extension eip answer) (moving : opcode ≠ OpcodeMap.halt)
    (listed : Listed opcode) (assigned : ¬Unassigned opcode extension) :
    ∃ mnemonic, answer = .ok (.executed mnemonic) := by
  cases answers with
  | halted halting => exact absurd halting moving
  | unknownOpcode _ unlisted => exact absurd listed unlisted
  | unknownExtension unassigned => exact absurd unassigned assigned
  | executed lists => exact ⟨_, rfl⟩

/-- An error is never about a zero byte: zero is the opcode of an addition. -/
theorem opcode_ne_zero {error : Error}
    (answers : Answers opcode extension eip (.error error)) : opcode ≠ 0 := by
  cases answers with
  | unknownOpcode running unlisted =>
      rintro rfl
      exact unlisted OpcodeMap.listed_zero
  | unknownExtension unassigned => exact (OpcodeMap.ne_zero_of_unassigned unassigned).1

end Answers

/-- The listing allows one answer only. -/
theorem Answers.unique {opcode : UInt8} {extension : Extension} {eip : UInt32}
    {left right : Except Error Step} (first : Answers opcode extension eip left)
    (second : Answers opcode extension eip right) : left = right := by
  cases first with
  | halted halting =>
      subst halting
      cases second with
      | halted => rfl
      | unknownOpcode running => exact absurd rfl running
      | unknownExtension unassigned =>
          exact absurd (OpcodeMap.listed_of_unassigned unassigned) OpcodeMap.not_listed_halt
      | executed lists =>
          exact absurd (OpcodeMap.listed_of_lists lists) OpcodeMap.not_listed_halt
  | unknownOpcode running unlisted =>
      cases second with
      | halted halting => exact absurd halting running
      | unknownOpcode => rfl
      | unknownExtension unassigned =>
          exact absurd (OpcodeMap.listed_of_unassigned unassigned) unlisted
      | executed lists => exact absurd (OpcodeMap.listed_of_lists lists) unlisted
  | unknownExtension unassigned =>
      cases second with
      | halted halting =>
          subst halting
          exact absurd (OpcodeMap.listed_of_unassigned unassigned) OpcodeMap.not_listed_halt
      | unknownOpcode _ unlisted =>
          exact absurd (OpcodeMap.listed_of_unassigned unassigned) unlisted
      | unknownExtension => rfl
      | executed lists => exact absurd lists (OpcodeMap.not_lists_of_unassigned unassigned _)
  | executed lists =>
      cases second with
      | halted halting =>
          subst halting
          exact absurd (OpcodeMap.listed_of_lists lists) OpcodeMap.not_listed_halt
      | unknownOpcode _ unlisted => exact absurd (OpcodeMap.listed_of_lists lists) unlisted
      | unknownExtension unassigned =>
          exact absurd lists (OpcodeMap.not_lists_of_unassigned unassigned _)
      | executed other => rw [OpcodeMap.lists_unique lists other]

/-- What the reading of a machine comes to is an answer that the listing allows. -/
theorem answers_reading (machine : Machine) :
    Answers machine.opcode machine.extension machine.cpu.eip
      (machine.follow machine.reading).1 := by
  have reads := Reading.reads_ofCode machine.cpu.registers machine.code
  rw [← opening_opcode, ← operands_extension, reading]
  generalize Reading.ofCode machine.cpu.registers machine.code = reading at reads
  cases reads with
  | halt halting => exact .halted halting
  | unknownOpcode running unknown =>
      apply Answers.unknownOpcode running
      intro listed
      exact (OpcodeMap.listed_iff _).mp listed unknown
  | unknownExtension running known unselected =>
      exact .unknownExtension ((OpcodeMap.unassigned_iff _ _).mpr ⟨known, unselected⟩)
  | decoded running selected decoded named =>
      exact .executed ((OpcodeMap.lists_iff _ _ _).mpr ⟨_, selected, named.symm⟩)

/-- A step answers what the listing allows and nothing else. -/
theorem step_result_iff {machine : Machine} (running : machine.halted = false)
    (answer : Except Error Step) :
    machine.step.result = answer ↔
      Answers machine.opcode machine.extension machine.cpu.eip answer := by
  rw [result_step running]
  constructor
  · intro same
    subst same
    exact machine.answers_reading
  · exact machine.answers_reading.unique

/-- A byte that is not zero lies inside the memory. -/
theorem maps_of_readByte_ne_zero {memory : Memory} {address : UInt32}
    (present : memory.readByte address ≠ 0) : memory.Maps address :=
  Decidable.byContradiction fun unmapped => present (Memory.readByte_of_not_maps unmapped)

/-- An error of a step is about an opcode inside the memory. -/
theorem maps_opcodeAddress_of_error {machine : Machine} (running : machine.halted = false)
    {error : Error} (failed : machine.step.result = .error error) :
    machine.memory.Maps machine.opcodeAddress :=
  maps_of_readByte_ne_zero ((step_result_iff running _).mp failed).opcode_ne_zero

/-- An extension that stands for nothing lies inside the memory, too. -/
theorem maps_extension_of_unassigned {machine : Machine}
    (unassigned : Unassigned machine.opcode machine.extension) :
    machine.memory.Maps (machine.opcodeAddress + 1) := by
  apply maps_of_readByte_ne_zero
  intro zero
  have cleared : machine.extension = 0 := by
    rw [extension, zero]
    rfl
  exact (OpcodeMap.ne_zero_of_unassigned unassigned).2 cleared

/-- The opcode and the extension behind it decide what a step answers: the machine halts at
`F4`, an opcode that the listing lacks is unknown, an unassigned extension is reported with
its opcode, and everything else is carried out under the mnemonic that the listing gives.
Machines that agree on both and on the instruction pointer get the same answer. What an
error reports lies inside the memory. -/
theorem step_result_listing (machine : Machine) (running : machine.halted = false) :
    let result := machine.step.result
    let opcode := machine.opcode
    let extension := machine.extension
    let eip := machine.cpu.eip
    (result = .ok .halted ↔ opcode = 0xF4) ∧
      (∀ found address, result = .error (.decode (.unknownOpcode found address)) ↔
        found = opcode ∧ address = eip ∧ opcode ≠ 0xF4 ∧ ¬Listed opcode) ∧
      (∀ found carried address,
        result = .error (.decode (.unknownExtension found carried address)) ↔
          found = opcode ∧ carried = extension ∧ address = eip ∧
            Unassigned opcode extension) ∧
      (∀ mnemonic, result = .ok (.executed mnemonic) ↔ Lists opcode extension mnemonic) ∧
      (opcode ≠ 0xF4 → Listed opcode → ¬Unassigned opcode extension →
        ∃ mnemonic, result = .ok (.executed mnemonic)) ∧
      (opcode = 0x66 → result = .error (.decode (.unknownOpcode 0x66 eip))) ∧
      (∀ other : Machine, other.halted = false → other.cpu.eip = eip →
        other.opcode = opcode → other.extension = extension →
          other.step.result = result) ∧
      (∀ error, result = .error error → machine.memory.Maps machine.opcodeAddress) ∧
      (∀ found carried address,
        result = .error (.decode (.unknownExtension found carried address)) →
          machine.memory.Maps (machine.opcodeAddress + 1)) := by
  intro result opcode extension eip
  have allowed := fun answer => step_result_iff running answer
  refine ⟨?halted, ?unknown, ?unassigned, ?executed, ?known, ?twice, ?same, ?mapped, ?behind⟩
  case halted => exact (allowed _).trans Answers.halted_iff
  case unknown =>
    intro found address
    exact (allowed _).trans (Answers.unknownOpcode_iff found address)
  case unassigned =>
    intro found carried address
    exact (allowed _).trans (Answers.unknownExtension_iff found carried address)
  case executed =>
    intro mnemonic
    exact (allowed _).trans (Answers.executed_iff mnemonic)
  case known =>
    intro moving listed assigned
    exact ((allowed result).mp rfl).exists_executed moving listed assigned
  case twice =>
    intro second
    apply (allowed _).mpr
    rw [show machine.opcode = 0x66 from second]
    exact .unknownOpcode (by decide) (by decide)
  case same =>
    intro other otherRunning sameEip sameOpcode sameExtension
    apply (step_result_iff otherRunning _).mpr
    rw [sameEip, sameOpcode, sameExtension]
    exact (allowed result).mp rfl
  case mapped =>
    intro error failed
    exact maps_opcodeAddress_of_error running failed
  case behind =>
    intro found carried address failed
    have unassigned := ((Answers.unknownExtension_iff found carried address).mp
      ((allowed _).mp failed)).2.2.2
    exact maps_extension_of_unassigned unassigned

/-- An unassigned extension in the last byte of a memory, with an operand-size byte in front
of the opcode. -/
theorem step_result_at_end :
    let machine := withMemory {} { bytes := #[0x66, 0x83, 0xD0] }
    machine.halted = false ∧
      machine.step.result = .error (.decode (.unknownExtension 0x83 2 0)) := by
  intro machine
  have running : machine.halted = false := rfl
  have listing := step_result_listing machine running
  exact ⟨running, (listing.2.2.1 0x83 2 0).mpr (by decide)⟩

/-! ## Steps that fail -/

/-- What a reading comes to when it is an error leaves the machine as it was. -/
theorem follow_of_error {machine : Machine} {reading : Reading} {error : Error}
    (failed : (machine.follow reading).1 = .error error) :
    (machine.follow reading).2 = machine ∧
      ∃ cause, error = .decode cause ∧ cause.eip = machine.cpu.eip := by
  cases reading with
  | halt length => cases failed
  | unknownOpcode opcode =>
      cases failed
      exact ⟨rfl, _, rfl, rfl⟩
  | unknownExtension opcode extension =>
      cases failed
      exact ⟨rfl, _, rfl, rfl⟩
  | decoded instruction length => cases failed

theorem halted_of_error {machine : Machine} {error : Error}
    (failed : machine.step.result = .error error) : machine.halted = false := by
  apply running_of_result_ne
  intro halts
  cases failed.symm.trans halts

/-- A step that fails leaves the machine as it was and reports the address it started from. -/
theorem step_of_error {machine : Machine} {error : Error}
    (failed : machine.step.result = .error error) :
    machine.step.machine = machine ∧
      ∃ cause, error = .decode cause ∧ cause.eip = machine.cpu.eip := by
  have running := halted_of_error failed
  rw [machine_step running]
  rw [result_step running] at failed
  exact follow_of_error failed

/-- A run that starts with a step that fails ends there. -/
theorem run_of_error {machine : Machine} {error : Error}
    (failed : machine.step.result = .error error)
    (left : machine.steps < machine.maxSteps.toNat) (threshold : Threshold) :
    (machine.run threshold).outcome = (.error error, machine) := by
  rw [run, runFrom_of_error threshold _ (halted_of_error failed) left failed,
    (step_of_error failed).1, Transition.outcome]

/-- A step that fails is undone as a whole. The machine is as it was, the error carries the
address it started from, and another step or a run meets the same error. -/
theorem failed_step_atomic (machine : Machine) (error : Error)
    (failed : machine.step.result = .error error) :
    machine.step.machine = machine ∧
      (∃ cause, error = .decode cause ∧ cause.eip = machine.cpu.eip) ∧
      machine.step.machine.step.outcome = (.error error, machine) ∧
      (machine.steps < machine.maxSteps.toNat → ∀ threshold,
        (machine.step.machine.run threshold).outcome = (.error error, machine)) := by
  rcases step_of_error failed with ⟨unchanged, cause, decoding, start⟩
  rw [unchanged]
  refine ⟨rfl, ⟨cause, decoding, start⟩, ?again, ?run⟩
  case again => rw [Transition.outcome, failed, unchanged]
  case run => exact run_of_error failed

/-- An immediate group with an extension that none of its forms has, behind an operand-size
byte. -/
theorem failed_step_atomic_at_group :
    let machine := withMemory {} { bytes := #[0x66, 0x80, 0xD0, 0x01] }
    let error := Error.decode (.unknownExtension 0x80 2 0)
    machine.step.result = .error error ∧
      (machine.step.machine.run none).outcome = (.error error, machine) := by
  intro machine error
  have failed : machine.step.result = .error error :=
    (step_result_iff rfl _).mpr ((Answers.unknownExtension_iff _ _ _).mpr (by decide))
  exact ⟨failed, (failed_step_atomic machine error failed).2.2.2 (by decide) none⟩

end Ia32.Machine
