import Ia32.Proofs.Budget

/-!
# Cycles

A machine that comes back to its contents by carrying out instructions goes round for ever, so
every run of it uses up its steps and stops wherever it is in the cycle at that time. The
shortest cycle is a jump onto its own first byte.
-/

namespace Ia32

namespace Machine

/-- A number of steps that all carry out an instruction and lead back to the same processor and
the same memory. -/
structure Cycle (machine : Machine) (length : Nat) : Prop where
  positive : 0 < length
  executes : machine.ExecutesFor length
  cpu : (machine.after length).cpu = machine.cpu
  memory : (machine.after length).memory = machine.memory

theorem after_add (machine : Machine) (first second : Nat) :
    machine.after (first + second) = (machine.after first).after second := by
  induction second with
  | zero => rfl
  | succ second ih =>
      rw [← Nat.add_assoc]
      simp only [after, ih]

namespace Cycle

variable {machine : Machine} {length : Nat}

theorem running (cycle : machine.Cycle length) : machine.halted = false :=
  (cycle.executes 0 cycle.positive).counts.1

/-- Once round the cycle the contents are the same again. -/
theorem sameContents (cycle : machine.Cycle length) :
    machine.SameContents (machine.after length) :=
  ⟨cycle.cpu, cycle.memory, (cycle.executes.halted_after cycle.running).trans cycle.running.symm⟩

theorem sameContents_rounds (cycle : machine.Cycle length) (rounds : Nat) :
    machine.SameContents (machine.after (length * rounds)) := by
  induction rounds with
  | zero => exact ⟨rfl, rfl, rfl⟩
  | succ rounds ih =>
      -- One more round, from the contents that the rounds before have led back to.
      have round := (ih.after length).1
      rw [← after_add] at round
      have start := cycle.sameContents
      exact ⟨round.cpu.trans start.cpu, round.memory.trans start.memory,
        round.halted.trans start.halted⟩

/-- The place in the cycle tells the contents, however many rounds have been made. -/
theorem sameContents_mod (cycle : machine.Cycle length) (count : Nat) :
    (machine.after (count % length)).SameContents (machine.after count) := by
  have place := ((cycle.sameContents_rounds (count / length)).after (count % length)).1
  rwa [← after_add, Nat.div_add_mod] at place

/-- A cycle never stops. -/
theorem executesFor (cycle : machine.Cycle length) (count : Nat) : machine.ExecutesFor count := by
  intro index _
  rcases cycle.executes (index % length) (Nat.mod_lt index cycle.positive) with
    ⟨mnemonic, executed⟩
  exact ⟨mnemonic, (cycle.sameContents_mod index).step.1.trans executed⟩

end Cycle

end Machine

/-! ## Jumps -/

/-- A jump moves the instruction pointer and does nothing else. -/
theorem Instruction.effect_of_jmp {instruction : Instruction}
    (jumps : instruction.mnemonic = .jmp) (cpu : Cpu) (memory : Memory) :
    (instruction.effect cpu memory).cpu =
        { cpu with eip := UInt32.ofInt (cpu.eip.toNat + instruction.distance) } ∧
      (instruction.effect cpu memory).memory = memory := by
  cases instruction with
  | jump width displacement => exact ⟨rfl, rfl⟩
  | move | loadAccumulator | storeAccumulator => cases jumps
  | binary op => exact absurd jumps op.mnemonic_ne_jmp
  | reversed op => exact absurd jumps (BinaryOp.arithmetic op).mnemonic_ne_jmp
  | unary op => exact absurd jumps op.mnemonic_ne_jmp

namespace Machine

/-- In front of a jump whose target is its own first byte. -/
def JumpsToItself (machine : Machine) : Prop :=
  (machine.opcode = 0xEB ∨ machine.opcode = 0xE9) ∧
    (machine.cpu.eip.toNat + machine.code.encodedLength + machine.code.distance) % 0x100000000 =
      machine.cpu.eip.toNat

theorem executed_of_jump {machine : Machine} (running : machine.halted = false)
    (jump : machine.opcode = 0xEB ∨ machine.opcode = 0xE9) :
    machine.step.result = .ok (.executed .jmp) := by
  rw [step_result_iff running, Answers.executed_iff]
  refine ⟨{ mnemonic := .jmp, opcodes := [0xEB, 0xE9] }, ?_, ⟨?_, .inl rfl⟩, rfl⟩
  · simp [OpcodeMap.listing]
  · rcases jump with jump | jump
    · simp [jump]
    · simp [jump]

/-- A jump onto its own first byte is a cycle of a single step. -/
theorem cycle_of_jumpsToItself {machine : Machine} (running : machine.halted = false)
    (jumps : machine.JumpsToItself) : machine.Cycle 1 := by
  have executed := executed_of_jump running jumps.1
  rcases exists_carriesOut executed with ⟨form, instruction, carried, named⟩
  have effect := Instruction.effect_of_jmp named machine.behind machine.memory
  have distance : instruction.distance = machine.code.distance := by
    rw [carried.distance, if_pos named]
  have target : UInt32.ofInt (machine.behind.eip.toNat + instruction.distance) =
      machine.cpu.eip := by
    have behind : machine.behind.eip.toNat =
        (machine.cpu.eip.toNat + machine.code.encodedLength) % 0x100000000 := by
      simp only [Machine.behind, UInt32.toNat_add, UInt32.toNat_ofNat']
      omega
    have back := jumps.2
    have reached := toNat_ofInt (machine.behind.eip.toNat + instruction.distance)
    apply UInt32.toNat.inj
    rw [distance] at reached ⊢
    omega
  have cpu : machine.step.machine.cpu = machine.cpu := by
    rw [carried.step_machine]
    simp only [effect.1, target]
    rfl
  have memory : machine.step.machine.memory = machine.memory := by
    rw [carried.step_machine]
    exact effect.2
  have executes : machine.ExecutesFor 1 := by
    intro index small
    rcases Nat.lt_one_iff.mp small with rfl
    exact ⟨.jmp, executed⟩
  exact ⟨Nat.one_pos, executes, cpu, memory⟩

/-! ## Runs -/

/-- A run of a machine in a cycle uses up its steps, with the contents of the place in the cycle
that the number of steps leads to. A jump onto its own first byte is such a cycle, of a single
step. -/
theorem run_of_cycle (machine : Machine) (threshold : Threshold) :
    (∀ length, machine.Cycle length → machine.steps ≤ machine.maxSteps.toNat →
      let run := machine.run threshold
      let reached := machine.after ((machine.maxSteps.toNat - machine.steps) % length)
      run.result = .error (.budget machine.maxSteps reached.cpu.eip) ∧
        run.machine.steps = machine.maxSteps.toNat ∧
        run.machine.halted = false ∧
        run.machine.cpu = reached.cpu ∧
        run.machine.memory = reached.memory) ∧
      (machine.halted = false → machine.JumpsToItself → machine.Cycle 1) := by
  refine ⟨?cycle, cycle_of_jumpsToItself⟩
  case cycle =>
    intro length cycle within run reached
    have all := cycle.executesFor (machine.maxSteps.toNat - machine.steps)
    have place := cycle.sameContents_mod (machine.maxSteps.toNat - machine.steps)
    have counted := all.steps_after
    rw [show run = _ from run_of_executesFor cycle.running all threshold]
    refine ⟨?_, ?_, all.halted_after cycle.running, place.cpu, place.memory⟩
    · rw [place.cpu]
    · dsimp only
      omega

/-- Two jumps that lead to each other, left after an odd number of steps, and a jump onto its own
operand-size byte. -/
theorem run_of_cycle_two_jumps :
    let pair := withMemory { maxSteps := 5 } { bytes := #[0xEB, 0x00, 0xEB, 0xFC] }
    let single := withMemory { loadAddress := 1 } { bytes := #[0xF4, 0x66, 0xE9, 0xFC, 0xFF] }
    pair.Cycle 2 ∧ (pair.run none).result = .error (.budget 5 2) ∧
      single.JumpsToItself ∧ single.Cycle 1 := by
  intro pair single
  have executes : pair.ExecutesFor 2 := by
    intro index small
    refine ⟨.jmp, ?_⟩
    rcases Nat.lt_succ_iff_lt_or_eq.mp small with first | rfl
    · rcases Nat.lt_one_iff.mp first with rfl
      exact executed_of_jump rfl (.inl (by decide))
    · exact executed_of_jump (by decide +kernel) (.inl (by decide +kernel))
  have cycle : pair.Cycle 2 := ⟨by decide, executes, by decide +kernel, by decide +kernel⟩
  have exhausted := ((run_of_cycle pair none).1 2 cycle (by decide)).1
  have place : (pair.maxSteps.toNat - pair.steps) % 2 = 1 := by decide
  have second : (pair.after 1).cpu.eip = 2 := by decide +kernel
  rw [place, second] at exhausted
  have jumps : single.JumpsToItself := ⟨.inr (by decide), by decide⟩
  exact ⟨cycle, exhausted, jumps, (run_of_cycle single none).2 rfl jumps⟩

end Machine

end Ia32
