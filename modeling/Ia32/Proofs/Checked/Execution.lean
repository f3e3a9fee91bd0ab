import Ia32.Proofs.Checked.Decoding
import Ia32.Proofs.Dispatch

/-!
# Steps in machine words

Instructions, steps and runs with all of their arithmetic done in machine words. A form that breaks
its rules stops everything, too, as does a form that declines and leaves the instruction pointer
behind the code it has looked at. No form of the opcode map does either, and a machine whose
counter has room for one more instruction makes the step that it makes without bounds.
-/

namespace Ia32

theorem Memory.length_readBytes (memory : Memory) (address : UInt32) (count : Nat) :
    (memory.readBytes address count).length = count := by
  induction count generalizing address with
  | zero => rfl
  | succ count ih => rw [readBytes, List.length_cons, ih]

/-- An answer, with faults as reasons to stop. -/
def Checked.ofAnswer {α : Type} : Except Fault α → Checked α
  | .ok value => .ok value
  | .error cause => .error (.fault cause)

/-- An action in machine words, on a processor and its memory. -/
abbrev CheckedExec := ExceptT Panic Exec

namespace CheckedExec

/-- The answer of an action or the reason why it stopped, and the state after it. -/
def run {α : Type} (action : CheckedExec α) (core : Core) : Except Panic α × Core :=
  Exec.run (ExceptT.run action) core

section

variable {α β : Type} (core : Core)

theorem ext_run {left right : CheckedExec α} (same : ∀ core, left.run core = right.run core) :
    left = right :=
  funext same

@[simp] theorem run_pure (value : α) : run (pure value) core = (.ok value, core) := rfl

@[simp] theorem run_lift (action : Exec α) :
    run (liftM action) core = (.ok (action.run core).1, (action.run core).2) := rfl

/-- What comes behind a lifted action goes on from the state after it. -/
theorem run_bind_lift (action : Exec α) (next : α → CheckedExec β) :
    run (liftM action >>= next) core =
      (next (action.run core).1).run (action.run core).2 := rfl

/-- What comes behind an action goes on from the state after it, unless the action stopped. -/
theorem run_bind (action : CheckedExec α) (next : α → CheckedExec β) :
    run (action >>= next) core =
      match action.run core with
      | (.ok value, after) => (next value).run after
      | (.error panic, after) => (.error panic, after) := by
  have continued : run (action >>= next) core =
      Exec.run (ExceptT.bindCont next (action.run core).1) (action.run core).2 := rfl
  rw [continued]
  rcases action.run core with ⟨answer, after⟩
  cases answer <;> rfl

end

def readRegister (code : RegisterCode) (width : Width) : CheckedExec UInt32 := do
  (← get).cpu.registers.checkedRead code width

def writeRegister (code : RegisterCode) (width : Width) (value : UInt32) : CheckedExec Unit := do
  let registers ← (← get).cpu.registers.checkedWrite code width value
  modify fun core => { core with cpu := { core.cpu with registers } }

def readMemory (address : UInt32) (width : Width) : CheckedExec UInt32 := do
  let bytes ← Exec.readBytes address width.bytes
  return UInt32.ofNat (← LittleEndian.checkedJoin bytes 0 0)

def writeMemory (address : UInt32) (width : Width) (value : UInt32) : CheckedExec Unit := do
  let bytes ← LittleEndian.checkedCut value.toNat width.bytes 0
  Exec.writeBytes address bytes

@[simp] theorem readRegister_eq (code : RegisterCode) (width : Width) :
    readRegister code width = liftM (Exec.readRegister code width) := by
  simp only [readRegister, Registers.checkedRead_eq, liftM_pure]
  rfl

@[simp] theorem writeRegister_eq (code : RegisterCode) (width : Width) (value : UInt32) :
    writeRegister code width value = liftM (Exec.writeRegister code width value) := by
  simp only [writeRegister, Registers.checkedWrite_eq, liftM_pure, pure_bind]
  rfl

/-- The bytes of an operand are as many as its width says. -/
@[simp] theorem readMemory_eq (address : UInt32) (width : Width) :
    readMemory address width = liftM (Exec.readMemory address width) := by
  apply ext_run
  intro core
  have counted := core.memory.length_readBytes address width.bytes
  simp only [readMemory, run_bind_lift, run_lift, Exec.run_readBytes, Exec.run_readMemory,
    LittleEndian.checkedJoin_start counted, liftM_pure, pure_bind, run_pure, Memory.read]

@[simp] theorem writeMemory_eq (address : UInt32) (width : Width) (value : UInt32) :
    writeMemory address width value = liftM (Exec.writeMemory address width value) := by
  simp only [writeMemory, LittleEndian.checkedCut_start, liftM_pure, pure_bind, Exec.writeMemory]

end CheckedExec

/-! ## Instructions -/

namespace Operand

def checkedRead (operand : Operand) : CheckedExec UInt32 :=
  match operand.location with
  | .register code => CheckedExec.readRegister code operand.width
  | .memory address => CheckedExec.readMemory address operand.width

def checkedWrite (operand : Operand) (value : UInt32) : CheckedExec Unit :=
  match operand.location with
  | .register code => CheckedExec.writeRegister code operand.width value
  | .memory address => CheckedExec.writeMemory address operand.width value

@[simp] theorem checkedRead_eq (operand : Operand) :
    operand.checkedRead = liftM operand.read := by
  obtain ⟨location, width⟩ := operand
  cases location with
  | register code => exact CheckedExec.readRegister_eq code width
  | memory address => exact CheckedExec.readMemory_eq address width

@[simp] theorem checkedWrite_eq (operand : Operand) (value : UInt32) :
    operand.checkedWrite value = liftM (operand.write value) := by
  obtain ⟨location, width⟩ := operand
  cases location with
  | register code => exact CheckedExec.writeRegister_eq code width value
  | memory address => exact CheckedExec.writeMemory_eq address width value

end Operand

namespace Instruction

def checkedCombine (op : BinaryOp) (destination : Operand) (left right : UInt32) :
    CheckedExec UInt32 := do
  let result ← op.checkedEvaluate destination.width left right (← Exec.flags)
  Exec.setFlags result.flags
  if op.writesBack then
    destination.checkedWrite result.value
  return result.value

def checkedPerform : Instruction → CheckedExec UInt32
  | .move destination (.operand place) => do
      let value ← place.checkedRead
      destination.checkedWrite value
      return value
  | .move destination (.immediate _ value) => do
      destination.checkedWrite value
      return value
  | .loadAccumulator width address => do
      let value ← CheckedExec.readMemory address width
      CheckedExec.writeRegister .accumulator width value
      return value
  | .storeAccumulator width address => do
      let value ← CheckedExec.readRegister .accumulator width
      CheckedExec.writeMemory address width value
      return value
  | .binary op destination (.operand place) => do
      let left ← destination.checkedRead
      let right ← place.checkedRead
      checkedCombine op destination left right
  | .binary op destination (.immediate width value) => do
      let left ← destination.checkedRead
      let right ← op.checkedWidenImmediate destination.width width value
      checkedCombine op destination left right
  | .reversed op destination source => do
      let left ← source.checkedRead
      let right ← destination.checkedRead
      checkedCombine (.arithmetic op) destination left right
  | .unary op operand => do
      let value ← operand.checkedRead
      let result ← op.checkedEvaluate operand.width value (← Exec.flags)
      Exec.setFlags result.flags
      operand.checkedWrite result.value
      return result.value
  | .jump width displacement => do
      let next ← Exec.eip
      let distance ← width.checkedToSigned displacement.toNat
      let target := UInt32.ofInt (next.toNat + distance)
      Exec.setEip target
      return target

@[simp] theorem checkedCombine_eq (op : BinaryOp) (destination : Operand)
    (left right : UInt32) :
    checkedCombine op destination left right = liftM (combine op destination left right) := by
  simp only [checkedCombine, combine, BinaryOp.checkedEvaluate_eq, Operand.checkedWrite_eq,
    liftM_pure, pure_bind, liftM_bind]
  cases op.writesBack <;> simp

/-- Carrying out an instruction in machine words never stops. -/
@[simp] theorem checkedPerform_eq (instruction : Instruction) :
    instruction.checkedPerform = liftM instruction.perform := by
  cases instruction with
  | move destination source =>
      cases source with
      | operand place =>
          simp only [checkedPerform, perform, Operand.checkedRead_eq, Operand.checkedWrite_eq,
            liftM_bind, liftM_pure]
      | immediate width value =>
          simp only [checkedPerform, perform, Operand.checkedWrite_eq, liftM_bind, liftM_pure,
            pure_bind]
  | loadAccumulator width address =>
      simp only [checkedPerform, perform, CheckedExec.readMemory_eq,
        CheckedExec.writeRegister_eq, liftM_bind, liftM_pure]
  | storeAccumulator width address =>
      simp only [checkedPerform, perform, CheckedExec.readRegister_eq,
        CheckedExec.writeMemory_eq, liftM_bind, liftM_pure]
  | binary op destination source =>
      cases source with
      | operand place =>
          simp only [checkedPerform, perform, Operand.checkedRead_eq, checkedCombine_eq,
            liftM_bind]
      | immediate width value =>
          simp only [checkedPerform, perform, Operand.checkedRead_eq,
            BinaryOp.checkedWidenImmediate_eq, checkedCombine_eq, liftM_bind, liftM_pure,
            pure_bind]
  | reversed op destination source =>
      simp only [checkedPerform, perform, Operand.checkedRead_eq, checkedCombine_eq, liftM_bind]
  | unary op operand =>
      simp only [checkedPerform, perform, Operand.checkedRead_eq, UnaryOp.checkedEvaluate_eq,
        Operand.checkedWrite_eq, liftM_bind, liftM_pure, pure_bind]
  | jump width displacement =>
      simp only [checkedPerform, perform, Width.checkedToSigned_eq, liftM_bind, liftM_pure,
        pure_bind]

end Instruction

/-! ## Forms -/

namespace Form

variable (form : Form Width) (opcode : UInt8)

def checkedExecute : CheckedExec Outcome := do
  let core ← get
  let start := core.cpu.eip
  let decoded ← form.checkedDecode opcode core.cpu.registers core.code
  Exec.touch decoded.length
  Exec.advance decoded.length
  match decoded with
  | .instruction instruction _ =>
      let word ← instruction.checkedPerform
      Exec.note (.executed instruction word)
      return .executed instruction.mnemonic
  | .declined extension _ =>
      Exec.note (.declined form.mnemonic extension start)
      Exec.setEip start
      return .declined start

/-- A form with an immediate value that is wider than its operand stops before anything else. -/
def checkedAttempt : CheckedExec Outcome := do
  if ¬form.ImmediateFits then
    throw (.fault .immediateTooWide)
  form.checkedExecute opcode

@[simp] theorem checkedExecute_eq : form.checkedExecute opcode = liftM (form.execute opcode) := by
  simp only [checkedExecute, execute, checkedDecode_eq, Instruction.checkedPerform_eq, liftM_pure,
    pure_bind, liftM_bind]
  refine bind_congr fun core => bind_congr fun _ => bind_congr fun _ => ?_
  cases form.decode opcode core.cpu.registers core.code with
  | instruction instruction length => simp only [liftM_bind, liftM_pure]
  | declined extension length => simp only [liftM_bind, liftM_pure]

variable {form}

theorem run_checkedAttempt_of_fits (fits : form.ImmediateFits) (core : Core) :
    (form.checkedAttempt opcode).run core =
      (.ok ((form.execute opcode).run core).1, ((form.execute opcode).run core).2) := by
  simp only [checkedAttempt, fits, not_true, if_false, checkedExecute_eq]
  rfl

theorem run_checkedAttempt_of_not_fits (wide : ¬form.ImmediateFits) (core : Core) :
    (form.checkedAttempt opcode).run core = (.error (.fault .immediateTooWide), core) := by
  simp only [checkedAttempt, wide, not_false_iff, if_true]
  rfl

variable (form)

/-- An attempt does what it does without bounds, with the fault of a form as the reason to stop. -/
theorem run_checkedAttempt (core : Core) :
    (form.checkedAttempt opcode).run core =
      (Checked.ofAnswer ((form.attempt opcode).run core).1,
        ((form.attempt opcode).run core).2) := by
  by_cases fits : form.ImmediateFits
  · rw [run_checkedAttempt_of_fits opcode fits, run_attempt fits]
    rfl
  · rw [run_checkedAttempt_of_not_fits opcode fits, attempt, if_neg fits]
    rfl

/-- The forms that break the rule about immediate values. -/
theorem not_immediateFits_resolve_iff (form : Form OperandSize) (full : Width) :
    ¬(form.resolve full).ImmediateFits ↔
      ∃ op operand immediate, form = .binaryPlaceImmediate op operand immediate ∧
        (operand.resolve full).bytes < (immediate.resolve full).bytes := by
  constructor
  · intro wide
    cases form with
    | binaryPlaceImmediate op operand immediate =>
        exact ⟨op, operand, immediate, rfl, Nat.lt_of_not_le wide⟩
    | _ => exact absurd trivial wide
  · rintro ⟨op, operand, immediate, rfl, wide⟩
    exact Nat.not_le_of_lt wide

variable {form}

/-- The instruction pointer is where it was behind a form that declines. -/
theorem restores_of_declined {core : Core} {eip : UInt32}
    (declined : ((form.attempt opcode).run core).1 = .ok (.declined eip)) :
    eip = core.cpu.eip ∧ ((form.attempt opcode).run core).2.cpu = core.cpu := by
  by_cases fits : form.ImmediateFits
  · by_cases accepted : form.Accepts core.code.extension
    · rw [attempt_of_accepts fits opcode accepted] at declined
      cases declined
    · rw [run_attempt_of_not_accepts fits opcode accepted] at declined ⊢
      cases declined
      exact ⟨rfl, rfl⟩
  · rw [attempt, if_neg fits] at declined
    cases declined

end Form

/-! ## Steps -/

namespace CheckedExec

/-- Offer the code to each form in turn. A form that declines and leaves the instruction pointer
elsewhere stops everything. -/
def tryForms (opcode : UInt8) (full : Width) (operands : UInt32) :
    List (Form OperandSize) → CheckedExec (Option Mnemonic)
  | [] => return none
  | form :: forms => do
      match ← (form.resolve full).checkedAttempt opcode with
      | .executed mnemonic => return some mnemonic
      | .declined answered =>
          let reached ← Exec.eip
          if answered = operands ∧ reached = operands then
            tryForms opcode full operands forms
          else
            throw (.fault (.pointerNotRestored form.render opcode answered reached operands))

def readExtension (address : UInt32) : CheckedExec Extension := do
  let fields ← ByteFields.checkedOfByte (← Exec.readByte address)
  return fields.middle

def executeNext (table : UInt8 → List (Form OperandSize)) : CheckedExec Exec.Finding := do
  let start ← Exec.eip
  let (opcode, full) ← Exec.fetchOpcode
  if opcode = OpcodeMap.halt then
    return .halt
  match table opcode with
  | [] =>
      Exec.setEip start
      return .undecodable (.unknownOpcode opcode start)
  | forms =>
      let operands ← Exec.eip
      match ← tryForms opcode full operands forms with
      | some mnemonic => return .executed mnemonic
      | none =>
          let extension ← readExtension operands
          Exec.setEip start
          return .undecodable (.unknownExtension opcode extension start)

@[simp] theorem readExtension_eq (address : UInt32) :
    readExtension address = liftM (Exec.readExtension address) := by
  simp only [readExtension, ByteFields.checkedOfByte_eq, liftM_pure, pure_bind,
    Exec.readExtension, liftM_bind]

/-- Offering the code to forms does what it does without bounds, with faults as reasons to stop. -/
theorem run_tryForms (opcode : UInt8) (full : Width) (operands : UInt32)
    (forms : List (Form OperandSize)) (core : Core) :
    (tryForms opcode full operands forms).run core =
      (Checked.ofAnswer ((Exec.tryForms opcode full operands forms).run core).1,
        ((Exec.tryForms opcode full operands forms).run core).2) := by
  induction forms generalizing core with
  | nil => rfl
  | cons form forms ih =>
      simp only [tryForms, Exec.tryForms, run_bind, Exec.run_bind,
        (form.resolve full).run_checkedAttempt opcode]
      rcases ((form.resolve full).attempt opcode).run core with ⟨answer, after⟩
      cases answer with
      | error fault => rfl
      | ok outcome =>
          cases outcome with
          | executed mnemonic => rfl
          | declined answered =>
              simp only [Checked.ofAnswer, run_bind, run_lift, Exec.run_bind, Exec.run_eip]
              by_cases restored : answered = operands ∧ after.cpu.eip = operands
              · simp only [eq_true restored, if_true]
                exact ih after
              · simp only [restored, if_false]
                rfl

/-- What carrying out an instruction found, with faults as reasons to stop. -/
def ofFinding : Exec.Finding → Except Panic Exec.Finding
  | .halt => .ok .halt
  | .executed mnemonic => .ok (.executed mnemonic)
  | .undecodable cause => .ok (.undecodable cause)
  | .fault cause => .error (.fault cause)

theorem run_executeNext (table : UInt8 → List (Form OperandSize)) (core : Core) :
    (executeNext table).run core =
      (ofFinding ((Exec.executeNext table).run core).1, ((Exec.executeNext table).run core).2) := by
  simp only [executeNext, Exec.executeNext, run_bind_lift, Exec.run_bind, Exec.run_eip,
    Exec.run_fetchOpcode]
  by_cases halting : core.code.opening.opcode = OpcodeMap.halt
  · simp only [halting, if_true]
    rfl
  cases listed : table core.code.opening.opcode with
  | nil =>
      simp only [halting, if_false]
      rfl
  | cons form forms =>
      simp only [halting, if_false, run_bind_lift, Exec.run_bind, Exec.run_eip]
      have tried := run_tryForms core.code.opening.opcode core.code.opening.full
        (Exec.behindOpcode core).cpu.eip (form :: forms) (Exec.behindOpcode core)
      generalize (Exec.tryForms _ _ _ _).run (Exec.behindOpcode core) = answer at tried
      obtain ⟨answer, after⟩ := answer
      cases answer with
      | error fault =>
          rw [run_bind, tried]
          rfl
      | ok found =>
          rw [run_bind, tried]
          cases found with
          | some mnemonic => rfl
          | none =>
              simp only [Checked.ofAnswer, readExtension_eq]
              rfl

end CheckedExec

end Ia32
