import Ia32.Proofs.Alu
import Ia32.Proofs.Checked.Arithmetic
import Ia32.Proofs.Encodings

/-!
# Sign extension

The two's-complement reading of a value is the one number around zero, among as many as the width
has, that leaves the same remainder as the value. Sign extension reduces this reading to the
target. So a target that is no narrower reads the same number, and in one that is no wider the low
part of the value is left. A jump adds the reading of its distance to the address behind it, and
this comes to the same as adding the distance extended to a doubleword.
-/

namespace Ia32

namespace Width

/-! ## The two's-complement reading -/

/-- The numbers that a width can be read as: half of them are negative. -/
def Represents (width : Width) (number : Int) : Prop :=
  -((width.modulus / 2 : Nat) : Int) ≤ number ∧ number < (width.modulus / 2 : Nat)

theorem represents_toSigned (width : Width) (value : Nat) :
    width.Represents (width.toSigned value) := by
  have small := width.mask_lt value
  simp only [Represents, toSigned, signBit_eq_decide, mask_of_lt small, decide_eq_true_eq]
  generalize width.mask value = narrow at small
  by_cases upper : width.modulus / 2 ≤ narrow
  · rw [if_pos upper]
    cases width <;> simp only [modulus] at small upper ⊢ <;> omega
  · rw [if_neg upper]
    omega

/-- What lies above the width in a value plays no part. -/
theorem toSigned_mod (width : Width) (value : Nat) :
    width.toSigned (value % width.modulus) = width.toSigned value := by
  have reduced : width.mask (value % width.modulus) = width.mask value := Nat.mod_mod ..
  simp only [toSigned, reduced]

/-- A wider width represents all that a narrower one does. -/
theorem Represents.of_le {narrow wide : Width} {number : Int}
    (represents : narrow.Represents number) (narrower : narrow.bytes ≤ wide.bytes) :
    wide.Represents number := by
  have half : narrow.modulus / 2 ≤ wide.modulus / 2 := by
    revert narrower
    cases narrow <;> cases wide <;> decide
  unfold Represents at represents ⊢
  omega

/-- The remainder tells the numbers that a width represents apart. -/
theorem Represents.eq_of_emod_eq {width : Width} {left right : Int}
    (first : width.Represents left) (second : width.Represents right)
    (same : left % width.modulus = right % width.modulus) : left = right := by
  unfold Represents at first second
  cases width <;> simp only [modulus] at first second same <;> omega

/-! ## Extension -/

section

variable (target source : Width) (value : Nat)

theorem signExtend_lt : target.signExtend source value < target.modulus := by
  unfold signExtend
  dsimp only
  split
  · exact target.mask_lt _
  · exact target.mask_lt _

/-- Sign extension gives the only number of the target with the remainder of the reading. -/
theorem eq_signExtend_iff (number : Nat) :
    number = target.signExtend source value ↔
      number < target.modulus ∧
        (number : Int) % target.modulus = source.toSigned value % target.modulus := by
  have extended := target.signExtend_emod source value
  constructor
  · rintro rfl
    refine ⟨target.signExtend_lt source value, ?_⟩
    rw [extended, Int.emod_emod]
  · rintro ⟨small, same⟩
    apply Int.ofNat_inj.mp
    rw [extended, ← same]
    exact (Int.emod_eq_of_lt (Int.natCast_nonneg number) (Int.ofNat_lt.mpr small)).symm

/-- Adding an extended distance to an address is adding what the distance reads. -/
theorem add_ofNat_signExtend (address : UInt32) :
    address + UInt32.ofNat (dword.signExtend source value) =
      UInt32.ofInt (address.toNat + source.toSigned value) := by
  apply eq_of_toNat_cast
  have extended := dword.signExtend_emod source value
  have small := dword.signExtend_lt source value
  rw [toNat_add_emod, toNat_ofInt, UInt32.toNat_ofNat_of_lt' small, extended]
  exact Int.add_emod_emod ..

end

section

variable {target source : Width} (value : Nat)

/-- A target that is no narrower reads the number that the source reads. -/
theorem toSigned_signExtend (narrower : source.bytes ≤ target.bytes) :
    target.toSigned (target.signExtend source value) = source.toSigned value := by
  have small := target.signExtend_lt source value
  apply (target.represents_toSigned _).eq_of_emod_eq
    ((source.represents_toSigned value).of_le narrower)
  rw [toSigned_emod, mask_of_lt small, signExtend_emod]

/-- Extension of what has been extended comes to the same as extension at once. -/
theorem signExtend_signExtend {middle : Width} (narrower : source.bytes ≤ middle.bytes) :
    target.signExtend middle (middle.signExtend source value) =
      target.signExtend source value := by
  apply Int.ofNat_inj.mp
  rw [signExtend_emod, signExtend_emod, toSigned_signExtend value narrower]

/-- A target that is no wider than the source cuts the value off. -/
theorem signExtend_of_le (narrower : target.bytes ≤ source.bytes) :
    target.signExtend source value = value % target.modulus := by
  have divides : (target.modulus : Int) ∣ source.modulus :=
    Int.natCast_dvd_natCast.mpr (modulus_dvd narrower)
  apply Int.ofNat_inj.mp
  calc (target.signExtend source value : Int)
      = source.toSigned value % target.modulus := target.signExtend_emod source value
    _ = source.toSigned value % source.modulus % target.modulus :=
        (Int.emod_emod_of_dvd _ divides).symm
    _ = value % source.modulus % target.modulus := by
        rw [toSigned_emod, mask, Int.natCast_emod]
    _ = value % target.modulus := Int.emod_emod_of_dvd _ divides
    _ = (value % target.modulus : Nat) := (Int.natCast_emod ..).symm

end

end Width

namespace Form

/-- A jump goes on at its distance from the address behind it. -/
theorem ending_jump (width : Width) (opcode : UInt8) (core : Core) :
    let behind := core.cpu.eip + UInt32.ofNat width.bytes
    let distance := width.toSigned (core.code.number 0 width).toNat
    (jump width).ending opcode core =
      { answer := .ok (.executed .jmp)
        cpu := { core.cpu with eip := UInt32.ofInt (behind.toNat + distance) }
        memory := core.memory } := by
  intro behind distance
  have decoded : (jump width).decode opcode core.cpu.registers core.code =
      .instruction (.jump width (core.code.number 0 width)) width.bytes := rfl
  have fits : (jump width).ImmediateFits := trivial
  exact ending_of_decode fits decoded

end Form

/-- Sign extension and the two's-complement reading, for all pairs of widths and values of any
size. The reading lies between half of the modulus below zero and half of it above, and leaves the
same remainder as the value; the extension is the only number of the target that leaves the same
remainder as the reading. So a target that is no narrower reads the number that the source reads,
an extension in two stages is one at once, and a target that is no wider cuts the value off. Adding
a distance extended to a doubleword to an address is adding its reading, and so a jump goes on at
the sum of its extended distance and the address behind it. In words of sixty-four bits, where ones
are put above the source and the modulus is taken off the value, both come out the same. -/
theorem sign_extension_exact (target source : Width) (value : Nat) :
    let extended := target.signExtend source value
    let signed := source.toSigned value
    let half : Int := (source.modulus / 2 : Nat)
    let distance := UInt32.ofNat (Width.dword.signExtend source value)
    (∀ number : Nat, number = extended ↔
      number < target.modulus ∧ (number : Int) % target.modulus = signed % target.modulus) ∧
    (-half ≤ signed ∧ signed < half ∧ signed % source.modulus = value % source.modulus) ∧
    (source.bytes ≤ target.bytes → target.toSigned extended = signed) ∧
    (∀ middle : Width, source.bytes ≤ middle.bytes → middle.bytes ≤ target.bytes →
      target.signExtend middle (middle.signExtend source value) = extended) ∧
    (target.bytes ≤ source.bytes → extended = value % target.modulus) ∧
    (∀ address : UInt32, address + distance = UInt32.ofInt (address.toNat + signed)) ∧
    (∀ (opcode : UInt8) (core : Core),
      (core.code.number 0 source).toNat = value % source.modulus →
      let behind := core.cpu.eip + UInt32.ofNat source.bytes
      (Form.jump source).ending opcode core =
        { answer := .ok (.executed .jmp)
          cpu := { core.cpu with eip := behind + distance }
          memory := core.memory }) ∧
    target.checkedSignExtend source value = .ok extended ∧
    source.checkedToSigned value = .ok signed := by
  intro extended signed half distance
  have represents := source.represents_toSigned value
  refine ⟨target.eq_signExtend_iff source value, ⟨represents.1, represents.2, ?remainder⟩,
    Width.toSigned_signExtend value, ?stages, Width.signExtend_of_le value,
    source.add_ofNat_signExtend value, ?jump, target.checkedSignExtend_eq source value,
    source.checkedToSigned_eq value⟩
  case remainder =>
    rw [source.toSigned_emod value]
    exact Int.natCast_emod ..
  case stages =>
    intro middle narrower _
    exact Width.signExtend_signExtend value narrower
  case jump =>
    intro opcode core distant behind
    rw [Form.ending_jump, distant, source.toSigned_mod, source.add_ofNat_signExtend]

/-- A distance of two bytes backwards with a bit above the byte that it is read from, and a jump
by it at the first address. -/
theorem sign_extension_exact_backwards :
    let core := Core.start .reset { bytes := #[0xFE] }
    let extended := Width.word.signExtend .byte 0x1FE
    Width.byte.bytes ≤ Width.word.bytes ∧
      Width.word.toSigned extended = -2 ∧
      Width.word.bytes ≤ Width.dword.bytes ∧
      Width.dword.signExtend .word extended = 0xFFFFFFFE ∧
      Width.byte.signExtend .word 0x1FE = 0xFE ∧
      (core.code.number 0 .byte).toNat = 0x1FE % 0x100 ∧
      ((Form.jump .byte).ending 0xEB core).cpu.eip = 0xFFFFFFFF := by
  intro core extended
  have narrower : Width.byte.bytes ≤ Width.word.bytes := by decide
  have wider : Width.word.bytes ≤ Width.dword.bytes := by decide
  have distant : (core.code.number 0 .byte).toNat = 0x1FE % 0x100 := by decide
  obtain ⟨_, _, reading, _⟩ := sign_extension_exact .word .byte 0x1FE
  obtain ⟨_, _, _, stages, _, _, jump, _⟩ := sign_extension_exact .dword .byte 0x1FE
  obtain ⟨_, _, _, _, cut, _⟩ := sign_extension_exact .byte .word 0x1FE
  have reached := congrArg (·.cpu.eip) (jump 0xEB core distant)
  exact ⟨narrower, (reading narrower).trans (by decide), wider,
    (stages .word narrower wider).trans (by decide), cut narrower, distant,
    reached.trans (by decide)⟩

end Ia32
