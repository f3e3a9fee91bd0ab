import Ia32.Proofs.Frame
import Ia32.Proofs.Run

/-!
# Execution above the memory

Above the memory every byte reads as zero, and two zeros are an instruction: they add the low byte
of the accumulator to the byte that the accumulator addresses. A machine that has run off the end
of its memory goes on in this way until the addresses wrap around. It does not stop, and where the
accumulator points into the memory it changes the same byte over and over.
-/

namespace Ia32

/-! ## Additions to a byte -/

namespace Memory

/-- Add to the byte at an address; above the block nothing happens. -/
def addByte (memory : Memory) (address : UInt32) (value : UInt8) : Memory :=
  memory.writeByte address (memory.readByte address + value)

variable (memory : Memory) (address : UInt32)

theorem getElem?_addByte (value : UInt8) (index : Nat) :
    (memory.addByte address value).bytes[index]? =
      if address.toNat = index then memory.bytes[index]?.map (· + value)
      else memory.bytes[index]? := by
  rw [addByte, getElem?_writeByte]
  by_cases same : address.toNat = index
  · subst same
    cases found : memory.bytes[address.toNat]? with
    | none => rfl
    | some byte => simp [readByte, found]
  · simp only [same, if_false]

/-- Additions to the same byte add up. -/
theorem addByte_addByte (first second : UInt8) :
    (memory.addByte address first).addByte address second =
      memory.addByte address (first + second) := by
  apply ext_bytes
  intro index
  simp only [getElem?_addByte]
  split
  · simp only [Option.map_map, Function.comp_def, UInt8.add_assoc]
  · rfl

theorem addByte_zero : memory.addByte address 0 = memory := by
  apply ext_bytes
  intro index
  simp only [getElem?_addByte, UInt8.add_zero, Option.map_id', ite_self]

end Memory

/-! ## Zeros as an instruction -/

/-- The low byte of the accumulator. -/
def Registers.lowByte (registers : Registers) : UInt8 :=
  UInt8.ofNat (registers.read .accumulator .byte).toNat

namespace Instruction

/-- The addition of the low byte of the accumulator to the byte at an address. -/
def addToByte (address : UInt32) : Instruction :=
  .binary (.arithmetic .add) (.memory address .byte) (.operand (.accumulator .byte))

theorem memory_addToByte (address : UInt32) (cpu : Cpu) (memory : Memory) :
    ((addToByte address).effect cpu memory).memory =
      memory.addByte address cpu.registers.lowByte := by
  let left := memory.read address .byte
  let right := cpu.registers.read .accumulator .byte
  let sum := ArithmeticOp.evaluate .add .byte left right cpu.flags
  have byte : UInt8.ofNat left.toNat = memory.readByte address := by
    have small := (memory.readByte address).toNat_lt
    apply UInt8.toNat.inj
    simp only [left, Memory.read, Memory.readBytes, Width.bytes, LittleEndian.ofBytes,
      UInt32.toNat_ofNat', UInt8.toNat_ofNat']
    omega
  have value : UInt8.ofNat sum.value.toNat = UInt8.ofNat left.toNat + UInt8.ofNat right.toNat := by
    apply UInt8.toNat.inj
    simp [sum, ArithmeticOp.evaluate, ArithmeticOp.subtracts, Width.mask, Width.modulus]
  rw [byte] at value
  calc ((addToByte address).effect cpu memory).memory
      = memory.writeByte address (UInt8.ofNat sum.value.toNat) := rfl
    _ = memory.addByte address cpu.registers.lowByte := by rw [value]; rfl

end Instruction

theorem Reading.ofCode_of_zeros {code : Code} (first : code.byte 0 = 0)
    (second : code.byte 1 = 0) (registers : Registers) :
    ofCode registers code = .decoded (.addToByte (registers.word .accumulator)) 2 := by
  have opening : code.opening = { opcode := 0, position := 0, full := .dword } := by
    rw [Code.opening, first]
    rfl
  have behind : code.operands.byte 0 = 0 := by
    rw [Code.operands, opening]
    exact second
  have fields : ByteFields.ofByte 0 = { top := 0, middle := 0, bottom := 0 } := by decide
  let form : Form OperandSize := .binaryPlaceRegister (.arithmetic .add) .byte
  have selected : OpcodeMap.selected? 0 code.operands.extension = some form := rfl
  have decoded : (form.resolve .dword).decode 0 registers code.operands =
      .instruction (.addToByte (registers.word .accumulator)) 1 := by
    simp [form, Form.resolve, Form.map, OperandSize.resolve, Form.decode,
      AddressedOperands.ofCode, behind, fields, Addressing.address, Addressing.base,
      Addressing.displacement, Instruction.addToByte, RegisterCode.accumulator,
      Operand.accumulator]
  simp only [ofCode, opening, selected, decoded]
  rfl

namespace Machine

/-! ## Steps above the memory -/

/-- A machine and a later one that has added the low byte of the accumulator to the byte at the
accumulator a number of times, by an instruction of two bytes each time. -/
structure Added (machine : Machine) (count : Nat) (later : Machine) : Prop where
  registers : later.cpu.registers = machine.cpu.registers
  carry : later.cpu.flags.carry = machine.cpu.flags.carry
  eip : later.cpu.eip = machine.cpu.eip + UInt32.ofNat (2 * count)
  memory : later.memory =
    machine.memory.addByte (machine.cpu.registers.word .accumulator)
      (UInt8.ofNat count * machine.cpu.registers.lowByte)

namespace Added

variable {machine later : Machine} {count : Nat}

theorem zero (machine : Machine) : machine.Added 0 machine where
  registers := rfl
  carry := rfl
  eip := (add_ofNat_zero _).symm
  memory := by
    have none : UInt8.ofNat 0 * machine.cpu.registers.lowByte = 0 := UInt8.zero_mul
    rw [none, Memory.addByte_zero]

theorem trans {last : Machine} {more : Nat} (first : machine.Added count later)
    (second : later.Added more last) : machine.Added (count + more) last where
  registers := second.registers.trans first.registers
  carry := second.carry.trans first.carry
  eip := by
    rw [second.eip, first.eip, UInt32.add_assoc, ← UInt32.ofNat_add, ← Nat.mul_add]
  memory := by
    rw [second.memory, first.memory, first.registers, Memory.addByte_addByte, ← UInt8.add_mul,
      ← UInt8.ofNat_add]

theorem size (added : machine.Added count later) : later.memory.size = machine.memory.size := by
  rw [added.memory]
  exact Memory.size_writeByte ..

end Added

/-- A step above the memory finds two zeros and makes one addition. -/
theorem step_of_unmapped {machine : Machine} (running : machine.halted = false)
    (above : machine.memory.size ≤ machine.cpu.eip.toNat)
    (within : machine.cpu.eip.toNat + 2 ≤ 0x100000000) :
    machine.step.result = .ok (.executed .add) ∧ machine.Added 1 machine.step.machine := by
  have zeros : ∀ position < 2, machine.code.byte position = 0 := by
    intro position small
    apply Memory.readByte_of_not_maps
    simp only [Memory.Maps, UInt32.toNat_add, UInt32.toNat_ofNat']
    omega
  have reading : machine.reading =
      .decoded (.addToByte (machine.cpu.registers.word .accumulator)) 2 :=
    Reading.ofCode_of_zeros (zeros 0 (by decide)) (zeros 1 (by decide)) _
  rw [result_step running, machine_step running, reading]
  refine ⟨rfl, rfl, rfl, rfl, ?_⟩
  have once : UInt8.ofNat 1 * machine.cpu.registers.lowByte = machine.cpu.registers.lowByte :=
    UInt8.one_mul _
  rw [once]
  exact Instruction.memory_addToByte ..

/-- As long as the addresses do not wrap around, every step above the memory makes one addition,
whatever the additions before have done to the memory. -/
theorem added_after {machine : Machine} (running : machine.halted = false)
    (above : machine.memory.size ≤ machine.cpu.eip.toNat) {count : Nat}
    (within : machine.cpu.eip.toNat + 2 * count ≤ 0x100000000) :
    (∀ index < count, (machine.after index).step.result = .ok (.executed .add)) ∧
      machine.Added count (machine.after count) := by
  induction count with
  | zero => exact ⟨nofun, .zero machine⟩
  | succ count ih =>
      obtain ⟨earlier, added⟩ := ih (by omega)
      have executes : machine.ExecutesFor count := fun index small => ⟨.add, earlier index small⟩
      have eip : (machine.after count).cpu.eip.toNat = machine.cpu.eip.toNat + 2 * count := by
        rw [added.eip, UInt32.toNat_add, UInt32.toNat_ofNat']
        omega
      obtain ⟨last, one⟩ := step_of_unmapped (executes.halted_after running)
        (by rw [added.size]; omega) (by omega)
      refine ⟨fun index small => ?_, added.trans one⟩
      rcases Nat.lt_succ_iff_lt_or_eq.mp small with small | rfl
      · exact earlier index small
      · exact last

/-- A machine that has run off the end of its memory goes on until the addresses wrap around. Each
of its steps is an addition, which takes it two addresses further and keeps the registers and the
carry flag. Where the accumulator addresses a byte of the memory, the low byte of the accumulator
is added to this byte again and again and all other bytes stay; elsewhere the whole memory
stays. -/
theorem after_unmapped (machine : Machine) (running : machine.halted = false)
    (above : machine.memory.size ≤ machine.cpu.eip.toNat) (count : Nat)
    (within : machine.cpu.eip.toNat + 2 * count ≤ 0x100000000) :
    let address := machine.cpu.registers.word .accumulator
    let addend := (machine.cpu.registers.read .accumulator .byte).toNat
    let final := machine.after count
    (∀ index < count, (machine.after index).step.result = .ok (.executed .add)) ∧
      final.halted = false ∧
      final.cpu.eip.toNat = (machine.cpu.eip.toNat + 2 * count) % 0x100000000 ∧
      final.steps = machine.steps + count ∧
      final.cpu.registers = machine.cpu.registers ∧
      final.cpu.flags.carry = machine.cpu.flags.carry ∧
      final.memory.size = machine.memory.size ∧
      (machine.memory.Maps address →
        (final.memory.readByte address).toNat =
            ((machine.memory.readByte address).toNat + count * addend) % 0x100 ∧
          ∀ index ≠ address.toNat, final.memory.bytes[index]? = machine.memory.bytes[index]?) ∧
      (¬machine.memory.Maps address → final.memory = machine.memory) := by
  intro address addend final
  obtain ⟨answers, added⟩ := added_after running above within
  have executes : machine.ExecutesFor count := fun index small => ⟨.add, answers index small⟩
  have memory : final.memory = machine.memory.addByte address _ := added.memory
  refine ⟨answers, executes.halted_after running, ?eip, executes.steps_after, added.registers,
    added.carry, added.size, ?mapped, ?unmapped⟩
  case eip =>
    have eip : final.cpu.eip = _ := added.eip
    rw [eip, UInt32.toNat_add, UInt32.toNat_ofNat', Nat.add_mod_mod]
  case mapped =>
    intro mapped
    rw [memory]
    refine ⟨?byte, fun index other => ?others⟩
    case byte =>
      rw [Memory.addByte, Memory.readByte_writeByte, if_pos ⟨rfl, mapped⟩]
      simp [Registers.lowByte, addend]
    case others => rw [Memory.getElem?_addByte, if_neg (Ne.symm other)]
  case unmapped =>
    intro unmapped
    rw [memory]
    exact Memory.writeByte_of_not_maps unmapped _

/-- A thousand additions of two to the byte at the address two, up to the end of the address
space. -/
theorem after_unmapped_thousand :
    let start := withMemory { loadAddress := 0xFFFFF830 } { bytes := #[0xF4, 0xF4, 2, 0xF4] }
    let registers := start.cpu.registers.setWord .accumulator 2
    let machine := { start with cpu := { start.cpu with registers } }
    machine.memory.size ≤ machine.cpu.eip.toNat ∧
      machine.cpu.eip.toNat + 2 * 1000 ≤ 0x100000000 ∧
      (machine.after 1000).halted = false ∧
      (machine.after 1000).cpu.eip.toNat = 0 ∧
      (machine.after 1000).steps = 1000 ∧
      ((machine.after 1000).memory.readByte 2).toNat = 0xD2 := by
  intro start registers machine
  have above : machine.memory.size ≤ machine.cpu.eip.toNat := by decide
  have within : machine.cpu.eip.toNat + 2 * 1000 ≤ 0x100000000 := by decide
  obtain ⟨_, halted, eip, steps, _, _, _, mapped, _⟩ :=
    after_unmapped machine rfl above 1000 within
  exact ⟨above, within, halted, eip.trans (by decide), steps.trans (by decide),
    (mapped (by decide)).1.trans (by decide)⟩

end Machine

end Ia32
