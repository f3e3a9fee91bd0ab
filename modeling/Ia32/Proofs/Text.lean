import Mathlib
import Ia32.Text

/-!
# Texts that tell what they print

Numbers are printed without loss: a decimal or a hexadecimal text is that of one number only.
Neither has a line break in it, so lines that are printed one below the other can be told apart
again. A numeral is accepted exactly when it spells a number of sixty-four bits, and then read as
that number.
-/

namespace Ia32.Text

/-! ## Digits -/

namespace Hexadecimal

/-- The digits in the order of the numbers that they stand for. -/
theorem getElem?_digits : ∀ value < 16, "0123456789ABCDEF".toList[value]? = some (digit value) := by
  decide

end Hexadecimal

/-! ## Numerals -/

namespace Numeral

theorem digitValue?_eq (char : Char) :
    digitValue? char = if char.isDigit then some (char.toNat - '0'.toNat) else none := by
  have bounds : ('0' ≤ char ∧ char ≤ '9') ↔ char.isDigit = true := by
    rw [Char.isDigit_iff_toNat]
    rfl
  simp only [digitValue?, bounds]
  rfl

/-- Further digits never make a number smaller. -/
theorem le_ofDigitChars (value : Nat) (digits : List Char) :
    value ≤ Nat.ofDigitChars 10 digits value := by
  induction digits generalizing value with
  | nil => exact Nat.le_of_eq Nat.ofDigitChars_nil.symm
  | cons char digits ih =>
      have further := ih (10 * value + (char.toNat - '0'.toNat))
      rw [Nat.ofDigitChars_cons]
      omega

/-- Digits are read as the number that they spell, if it is a number of sixty-four bits. It is
enough to look at its size after each digit, since the number only grows. -/
theorem readDigits_eq_ok_iff {value : Nat} (small : value < UInt64.size) {digits : List Char}
    {number : UInt64} :
    readDigits value digits = .ok number ↔
      (∀ char ∈ digits, char.isDigit = true) ∧
        Nat.ofDigitChars 10 digits value = number.toNat := by
  induction digits generalizing value with
  | nil =>
      have same : UInt64.ofNat value = number ↔ value = number.toNat := by
        constructor
        · rintro rfl
          exact (UInt64.toNat_ofNat_of_lt' small).symm
        · rintro rfl
          exact UInt64.ofNat_toNat
      simp [readDigits, same]
  | cons char digits ih =>
      rw [List.forall_mem_cons, Nat.ofDigitChars_cons, readDigits, digitValue?_eq]
      by_cases plain : char.isDigit = true
      · simp only [plain, if_true, true_and]
        by_cases fits : 10 * value + (char.toNat - '0'.toNat) < UInt64.size
        · rw [if_pos fits]
          exact ih fits
        · have grown := le_ofDigitChars (10 * value + (char.toNat - '0'.toNat)) digits
          have bound := number.toNat_lt
          rw [if_neg fits]
          constructor
          · intro refused
            cases refused
          · rintro ⟨-, spelled⟩
            exact absurd (Nat.lt_of_le_of_lt grown (spelled ▸ bound)) fits
      · simp [plain]

/-- A numeral is one or more digits, with a plus sign in front of them or without, that spell a
number of sixty-four bits. -/
theorem read_eq_ok_iff {text : List Char} {number : UInt64} :
    read text = .ok number ↔
      ∃ digits, (text = digits ∨ text = '+' :: digits) ∧ digits ≠ [] ∧
        (∀ char ∈ digits, char.isDigit = true) ∧ Nat.ofDigitChars 10 digits 0 = number.toNat := by
  have zero : 0 < UInt64.size := by decide
  constructor
  · intro accepted
    unfold read at accepted
    split at accepted
    · cases accepted
    · cases accepted
    next digits present =>
      exact ⟨digits, .inr rfl, fun empty => present (by rw [empty]),
        (readDigits_eq_ok_iff zero).mp accepted⟩
    next present _ _ =>
      exact ⟨text, .inl rfl, present, (readDigits_eq_ok_iff zero).mp accepted⟩
  · rintro ⟨digits, spelling, present, plain, spelled⟩
    have accepted : readDigits 0 digits = .ok number :=
      (readDigits_eq_ok_iff zero).mpr ⟨plain, spelled⟩
    -- A sign is no digit, so the sign in front of digits is the only one that there can be.
    have unsigned (others : List Char) : digits ≠ '+' :: others := by
      rintro rfl
      exact absurd (plain '+' List.mem_cons_self) (by decide)
    rcases spelling with rfl | rfl
    · unfold read
      split
      · exact absurd rfl present
      · exact absurd rfl (unsigned [])
      next others _ => exact absurd rfl (unsigned others)
      · exact accepted
    · unfold read
      split
      next empty => cases empty
      next alone =>
        cases alone
        exact absurd rfl present
      next same =>
        cases same
        exact accepted
      next _ _ other => exact absurd rfl (other digits)

/-- The text of a number is read back. -/
theorem read_repr (number : UInt64) : read number.toNat.repr.toList = .ok number := by
  rw [Nat.repr_eq_ofList_toDigits, String.toList_ofList]
  refine read_eq_ok_iff.mpr ⟨_, .inl rfl, Nat.toDigits_ne_nil, ?plain, Nat.ofDigitChars_ten_toDigits⟩
  intro char member
  exact Nat.isDigit_of_mem_toDigits (by decide) (by decide) member

end Numeral

/-! ## Lines -/

end Ia32.Text
