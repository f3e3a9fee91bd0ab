import Ia32.Machine
import Ia32.Proofs.Effect
import Ia32.Proofs.Storage

/-!
# Loading and building

A program comes into the memory in one of two ways: it is copied as a whole, which is refused when
it does not fit, or its bytes are stored one after the other, which wraps around at the end of the
address space and drops what lies above the memory. Where the image fits and does not wrap both
lay the image over the memory, and that determines every byte. A machine that is built from a
program is the one that starts on the memory with the program laid over zeros. There is none when
the program does not fit, nor when the memory would have more bytes than a block can have.
-/

namespace Ia32

namespace Memory

variable {memory loaded : Memory} {address : UInt32} {image : Array UInt8}

/-! ## Images -/

/-- A memory in which an image lies from some position onwards, and which is otherwise as it
was. -/
structure Overlays (memory : Memory) (start : Nat) (image : Array UInt8) (loaded : Memory) :
    Prop where
  size : loaded.size = memory.size
  inside : ∀ index < image.size, loaded.bytes[start + index]? = image[index]?
  outside : ∀ index, ¬(start ≤ index ∧ index < start + image.size) →
    loaded.bytes[index]? = memory.bytes[index]?

/-- An image can be laid over a memory in one way only. -/
theorem Overlays.unique {start : Nat} {left right : Memory}
    (first : memory.Overlays start image left) (second : memory.Overlays start image right) :
    left = right := by
  apply ext_bytes
  intro index
  by_cases covered : start ≤ index ∧ index < start + image.size
  · have place : start + (index - start) = index := by omega
    have within : index - start < image.size := by omega
    have both := (first.inside _ within).trans (second.inside _ within).symm
    rwa [place] at both
  · exact (first.outside index covered).trans (second.outside index covered).symm

/-! ## Copying as a whole -/

/-- The memory after an image was loaded or refused. -/
def afterLoad (memory : Memory) (address : UInt32) (image : Array UInt8) : Memory :=
  match memory.load address image with
  | .ok loaded => loaded
  | .error _ => memory

theorem load_of_fits (fits : address.toNat + image.size ≤ memory.size) :
    memory.load address image = .ok (memory.afterLoad address image) := by
  simp only [afterLoad, load, fits, if_true]

theorem load_of_not_fits (large : memory.size < address.toNat + image.size) :
    memory.load address image =
      .error { length := image.size, address, size := memory.size } := by
  simp only [load, Nat.not_le.mpr large, if_false]

theorem afterLoad_of_not_fits (large : memory.size < address.toNat + image.size) :
    memory.afterLoad address image = memory := by
  rw [afterLoad, load_of_not_fits large]

/-- An image that fits is laid over the memory. -/
theorem overlays_afterLoad (fits : address.toNat + image.size ≤ memory.size) :
    memory.Overlays address.toNat image (memory.afterLoad address image) := by
  have copied : memory.afterLoad address image =
      { bytes := memory.bytes.extract 0 address.toNat ++ image ++
          memory.bytes.extract (address.toNat + image.size) } := by
    simp only [afterLoad, load, fits, if_true]
  have front : (memory.bytes.extract 0 address.toNat).size = address.toNat := by
    simp only [size, Array.size_extract] at fits ⊢
    omega
  rw [copied]
  refine ⟨?size, ?inside, ?outside⟩
  case size =>
    simp only [size, Array.size_append, Array.size_extract] at fits ⊢
    omega
  case inside =>
    intro index within
    rw [Array.append_assoc, Array.getElem?_append_right (by omega), front,
      Nat.add_sub_cancel_left, Array.getElem?_append_left within]
  case outside =>
    intro index apart
    rw [Array.append_assoc]
    by_cases before : index < address.toNat
    · rw [Array.getElem?_append_left (by omega), Array.getElem?_extract, Nat.zero_add,
        if_pos (by unfold size at fits; omega)]
    · rw [Array.getElem?_append_right (by omega), front, Array.getElem?_append_right (by omega),
        Array.getElem?_extract]
      split
      · congr 1
        omega
      · rw [Array.getElem?_eq_none (by omega)]

/-! ## Storing byte by byte -/

/-- The addresses of a block that does not wrap around. -/
theorem toNat_add_ofNat {start : UInt32} {offset : Nat}
    (below : start.toNat + offset < 0x100000000) :
    (start + UInt32.ofNat offset).toNat = start.toNat + offset := by
  rw [UInt32.toNat_add, UInt32.toNat_ofNat']
  omega

theorem inBlock_iff {start : UInt32} {count index : Nat}
    (below : start.toNat + count ≤ 0x100000000) :
    InBlock start count index ↔ start.toNat ≤ index ∧ index < start.toNat + count := by
  constructor
  · rintro ⟨offset, small, rfl⟩
    rw [toNat_add_ofNat (by omega)]
    omega
  · rintro ⟨first, last⟩
    refine ⟨index - start.toNat, by omega, ?_⟩
    rw [toNat_add_ofNat (by omega)]
    omega

/-- Where a block fits and does not wrap around, the bytes stored in it are found there. -/
theorem getElem?_writeBytes (memory : Memory) {start : UInt32} {values : List UInt8}
    (fits : start.toNat + values.length ≤ memory.size)
    (below : start.toNat + values.length ≤ 0x100000000) {index : Nat}
    (within : index < values.length) :
    (memory.writeBytes start values).bytes[start.toNat + index]? = values[index]? := by
  have mapped : start.toNat + index < memory.bytes.size := by
    unfold size at fits
    omega
  have stored := memory.getElem?_writeBytes_inside start (by omega) within
  rw [toNat_add_ofNat (by omega)] at stored
  rw [stored, Array.getElem?_eq_getElem mapped, List.getElem?_eq_getElem within]
  rfl

/-- Bytes that are stored one after the other are laid over the memory. -/
theorem overlays_writeBytes (fits : address.toNat + image.size ≤ memory.size)
    (below : address.toNat + image.size ≤ 0x100000000) :
    memory.Overlays address.toNat image (memory.writeBytes address image.toList) := by
  refine ⟨size_writeBytes _ _ _, ?inside, ?outside⟩
  case inside =>
    intro index within
    rw [getElem?_writeBytes memory fits below within, Array.getElem?_toList]
  case outside =>
    intro index apart
    exact writeBytes_sameOutside _ _ _ _ (mt (inBlock_iff below).mp apart)

/-- Where an image fits and does not wrap around, storing it byte by byte is copying it as a
whole. -/
theorem writeBytes_eq_afterLoad (fits : address.toNat + image.size ≤ memory.size)
    (below : address.toNat + image.size ≤ 0x100000000) :
    memory.writeBytes address image.toList = memory.afterLoad address image :=
  (overlays_writeBytes fits below).unique (overlays_afterLoad fits)

end Memory

namespace Access

theorem mem_writes {start : UInt32} {values : List UInt8} {access : Access}
    (member : access ∈ writes start values) :
    ∃ address value,
      access = .write address value ∧ Memory.InBlock start values.length address.toNat := by
  induction values generalizing start with
  | nil => cases member
  | cons value values ih =>
      rcases List.mem_cons.mp member with rfl | later
      · exact ⟨start, value, rfl, .here start values.length⟩
      · rcases ih later with ⟨address, other, same, inside⟩
        exact ⟨address, other, same, inside.there⟩

/-- Stores that stay below the end of the memory are not noted. -/
theorem events_writes {size : Nat} {start : UInt32} {values : List UInt8}
    (fits : start.toNat + values.length ≤ size)
    (below : start.toNat + values.length ≤ 0x100000000) :
    events size (writes start values) = #[] := by
  have unnoted : (writes start values).filterMap (event? size) = [] := by
    apply List.filterMap_eq_nil_iff.mpr
    intro access member
    rcases mem_writes member with ⟨address, value, rfl, inside⟩
    have last := ((Memory.inBlock_iff below).mp inside).2
    exact if_pos (Nat.lt_of_lt_of_le last fits)
  rw [events, unnoted]

end Access

/-- Where an image fits and does not wrap around, storing it byte by byte loads it and notes
nothing. -/
theorem Exec.run_writeBytes_of_fits (core : Core) {address : UInt32} {image : Array UInt8}
    (fits : address.toNat + image.size ≤ core.memory.size)
    (below : address.toNat + image.size ≤ 0x100000000) :
    (Exec.writeBytes address image.toList).run core =
      ((), { core with memory := core.memory.afterLoad address image }) := by
  have silent : Access.events core.memory.size (Access.writes address image.toList) = #[] :=
    Access.events_writes fits below
  rw [run_writeBytes, Memory.writeBytes_eq_afterLoad fits below, Core.record, silent,
    Array.append_empty]

/-- Writing a whole register replaces its word. -/
theorem Registers.word_write_dword (registers : Registers) (code other : RegisterCode)
    (value : UInt32) :
    (registers.write code .dword value).word other =
      if other = code then value else registers.word other := by
  have small : (registers.word code).toNat / 0x100000000 = 0 :=
    Nat.div_eq_of_lt (registers.word code).toNat_lt
  have whole : Width.dword.mask value.toNat = value.toNat := Nat.mod_eq_of_lt value.toNat_lt
  have word : replaceField (registers.word code).toNat 1 Width.dword.modulus value.toNat =
      value.toNat := by
    simp only [replaceField, Width.modulus, Nat.one_mul, small, Nat.mod_one]
    omega
  have replaced : registers.write code .dword value = registers.setWord code value := by
    rw [write]
    simp only [RegisterCode.slot, whole, word, UInt32.ofNat_toNat]
  rw [replaced, word_setWord]

namespace Machine

variable {config : Config} {program : Array UInt8} {machine : Machine}

/-! ## Building a machine -/

/-- A machine that has not made a step, with the stack pointer of its configuration or at the end
of the memory in the register 4, and everything else in its registers cleared. -/
structure Fresh (config : Config) (machine : Machine) : Prop where
  eip : machine.cpu.eip = config.loadAddress
  stackPointer : ∀ pointer, config.stackPointer = some pointer →
    machine.cpu.registers.word 4 = pointer
  memoryEnd : config.stackPointer = none →
    (machine.cpu.registers.word 4).toNat = min config.memorySize.toNat 0xFFFFFFFF
  others : ∀ code : RegisterCode, code ≠ 4 → machine.cpu.registers.word code = 0
  flags : machine.cpu.flags.toWord = 0
  steps : machine.steps = 0
  running : machine.halted = false
  maxSteps : machine.maxSteps = config.maxSteps

theorem fresh_withMemory (config : Config) (memory : Memory) :
    (withMemory config memory).Fresh config := by
  have words : ∀ code, (withMemory config memory).cpu.registers.word code =
      if code = 4 then config.initialStackPointer else 0 := by
    intro code
    rw [withMemory, RegisterCode.stackPointer, Registers.word_write_dword, Registers.word_zero]
  refine ⟨rfl, ?stackPointer, ?memoryEnd, ?others, Flags.toWord_clear, rfl, rfl, rfl⟩
  case stackPointer =>
    intro pointer given
    rw [words, if_pos rfl, Config.initialStackPointer, given]
    rfl
  case memoryEnd =>
    intro absent
    rw [words, if_pos rfl, Config.initialStackPointer, absent]
    exact UInt32.toNat_ofNat_of_lt' (Nat.lt_succ_of_le (Nat.min_le_right ..))
  case others =>
    intro code other
    rw [words, if_neg other]

theorem ofProgram_of_lt (impossible : Memory.maxSize < config.memorySize.toNat) :
    ofProgram config program = .error (.fault .capacityOverflow) := by
  rw [ofProgram, Memory.zeroed, if_neg (Nat.not_le.mpr impossible)]

theorem ofProgram_of_fits (possible : config.memorySize.toNat ≤ Memory.maxSize)
    (fits : config.loadAddress.toNat + program.size ≤ config.memorySize.toNat) :
    ofProgram config program =
      .ok (withMemory config
        ((Memory.zeros config.memorySize.toNat).afterLoad config.loadAddress program)) := by
  have room : config.loadAddress.toNat + program.size ≤
      (Memory.zeros config.memorySize.toNat).size := by
    rwa [Memory.size_zeros]
  simp only [ofProgram, Memory.zeroed, if_pos possible, Memory.load_of_fits room]

theorem ofProgram_of_not_fits (possible : config.memorySize.toNat ≤ Memory.maxSize)
    (large : config.memorySize.toNat < config.loadAddress.toNat + program.size) :
    ∃ cause, ofProgram config program = .error (.load cause) := by
  have small : (Memory.zeros config.memorySize.toNat).size <
      config.loadAddress.toNat + program.size := by
    rwa [Memory.size_zeros]
  simp only [ofProgram, Memory.zeroed, if_pos possible, Memory.load_of_not_fits small]
  exact ⟨_, rfl⟩

/-- A machine is built from exactly those programs that fit in a memory that there can be. -/
theorem ofProgram_eq_ok_iff :
    ofProgram config program = .ok machine ↔
      config.memorySize.toNat ≤ Memory.maxSize ∧
        config.loadAddress.toNat + program.size ≤ config.memorySize.toNat ∧
        machine = withMemory config
          ((Memory.zeros config.memorySize.toNat).afterLoad config.loadAddress program) := by
  constructor
  · intro built
    have possible : config.memorySize.toNat ≤ Memory.maxSize := by
      apply Nat.not_lt.mp
      intro impossible
      cases (ofProgram_of_lt impossible).symm.trans built
    have fits : config.loadAddress.toNat + program.size ≤ config.memorySize.toNat := by
      apply Nat.not_lt.mp
      intro large
      rcases ofProgram_of_not_fits possible large with ⟨cause, refused⟩
      cases refused.symm.trans built
    have same := (ofProgram_of_fits possible fits).symm.trans built
    exact ⟨possible, fits, (Except.ok.inj same).symm⟩
  · rintro ⟨possible, fits, rfl⟩
    exact ofProgram_of_fits possible fits

/-- How the building of a machine ends: there cannot be the memory, the program does not fit in it,
or there is a machine. -/
structure Builds (config : Config) (program : Array UInt8) : Prop where
  overflows : ofProgram config program = .error (.fault .capacityOverflow) ↔
    0x7FFFFFFFFFFFFFFF < config.memorySize.toNat
  refused : (∃ cause, ofProgram config program = .error (.load cause)) ↔
    config.memorySize.toNat ≤ 0x7FFFFFFFFFFFFFFF ∧
      config.memorySize.toNat < config.loadAddress.toNat + program.size
  built : (∃ machine, ofProgram config program = .ok machine) ↔
    config.memorySize.toNat ≤ 0x7FFFFFFFFFFFFFFF ∧
      config.loadAddress.toNat + program.size ≤ config.memorySize.toNat

theorem builds (config : Config) (program : Array UInt8) : Builds config program := by
  -- One of the three conditions holds, and each of them tells the answer.
  by_cases possible : config.memorySize.toNat ≤ 0x7FFFFFFFFFFFFFFF
  · by_cases fits : config.loadAddress.toNat + program.size ≤ config.memorySize.toNat
    · have answer : ofProgram config program = _ := ofProgram_of_fits possible fits
      constructor <;> simp [answer, possible, fits]
    · rcases ofProgram_of_not_fits possible (Nat.not_le.mp fits) with ⟨cause, answer⟩
      constructor <;> simp [answer, possible, Nat.not_le.mp fits]
  · have answer : ofProgram config program = _ := ofProgram_of_lt (Nat.not_le.mp possible)
    constructor <;> simp [answer, possible, Nat.not_le.mp possible]

/-- What loading an image and building a machine from a program do. An image is refused exactly
when it reaches beyond the end of the memory, and then the memory stays as it is. Otherwise it is
laid over the memory; where it does not reach beyond the address space either, this is what
storing it byte by byte does. A machine is built exactly when there can be a memory of the size and
the program fits in it. It is at its start, and it is the machine on zeros over which the program
was stored byte by byte if that does not wrap around. -/
theorem load_and_ofProgram_exact :
    (∀ (memory : Memory) (address : UInt32) (image : Array UInt8),
      let stop := address.toNat + image.size
      let after := memory.afterLoad address image
      ((∃ error, memory.load address image = .error error) ↔ memory.size < stop) ∧
        (memory.size < stop → after = memory) ∧
        (stop ≤ memory.size →
          memory.load address image = .ok after ∧
          memory.Overlays address.toNat image after ∧
          (stop ≤ 0x100000000 → ∀ cpu journal,
            (Exec.writeBytes address image.toList).run { cpu, memory, journal } =
              ((), { cpu, memory := after, journal })))) ∧
      ∀ (config : Config) (program : Array UInt8),
        let stop := config.loadAddress.toNat + program.size
        let zeros : Memory := { bytes := Array.replicate config.memorySize.toNat 0 }
        Builds config program ∧
          ∀ machine, ofProgram config program = .ok machine →
            machine.Fresh config ∧
            zeros.Overlays config.loadAddress.toNat program machine.memory ∧
            (stop ≤ 0x100000000 → ∀ cpu journal,
              let stored := (Exec.writeBytes config.loadAddress program.toList).run
                { cpu, memory := zeros, journal }
              machine = withMemory config stored.2.memory) := by
  refine ⟨fun memory address image => ⟨?refused, ?unchanged, ?loaded⟩,
    fun config program => ⟨builds config program, ?start⟩⟩
  case refused =>
    constructor
    · rintro ⟨error, refused⟩
      apply Nat.not_le.mp
      intro fits
      cases (Memory.load_of_fits fits).symm.trans refused
    · intro large
      exact ⟨_, Memory.load_of_not_fits large⟩
  case unchanged => exact Memory.afterLoad_of_not_fits
  case loaded =>
    intro fits
    refine ⟨Memory.load_of_fits fits, Memory.overlays_afterLoad fits, ?_⟩
    intro below cpu journal
    exact Exec.run_writeBytes_of_fits { cpu, memory, journal } fits below
  case start =>
    intro machine built
    rcases ofProgram_eq_ok_iff.mp built with ⟨-, fits, rfl⟩
    have room : config.loadAddress.toNat + program.size ≤
        (Memory.zeros config.memorySize.toNat).size := by
      rwa [Memory.size_zeros]
    refine ⟨fresh_withMemory config _, Memory.overlays_afterLoad room, ?_⟩
    intro below cpu journal
    rw [Exec.run_writeBytes_of_fits _ room below]
    rfl

/-- A program that fits in the size of a configuration, of which there cannot be a memory. -/
theorem no_machine_of_fits :
    let config : Config := { memorySize := 0x8000000000000000 }
    let program : Array UInt8 := #[]
    config.loadAddress.toNat + program.size ≤ config.memorySize.toNat ∧
      ¬∃ machine, ofProgram config program = .ok machine := by
  intro config program
  refine ⟨by decide, ?_⟩
  rintro ⟨machine, built⟩
  cases (ofProgram_of_lt (by decide)).symm.trans built

/-- A program that ends where the memory ends is loaded, and a longer one is refused. -/
example :
    let config : Config := { memorySize := 3, loadAddress := 1 }
    ofProgram config #[0xEB, 0xFE] = .ok (withMemory config { bytes := #[0, 0xEB, 0xFE] }) ∧
      ofProgram config #[0xEB, 0xFE, 0xF4] =
        .error (.load { length := 3, address := 1, size := 3 }) :=
  ⟨rfl, rfl⟩

end Machine

end Ia32
