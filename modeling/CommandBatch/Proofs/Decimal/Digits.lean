import CommandBatch.Decimal.Integer
import Mathlib.Data.List.Induction
import Mathlib.Data.Nat.Digits.Defs
import Mathlib.Tactic.IntervalCases

/-!
# Digits and their common forms

A decimal digit of any script has a common digit of the same value, its common form.  The readers of
numerals look at values only, so they do not see the difference; the classes of characters of a line
do.
-/

namespace CommandBatch.Decimal

open Text

/-- The common digit with the value of a digit of any script; any other character is its own. -/
def commonDigit (c : Char) : Char :=
  match digitValue? c with
  | some d => Nat.digitChar d
  | none => c

theorem isDecimalDigit_of_isDigit {c : Char} (h : c.isDigit = true) : isDecimalDigit c = true := by
  rw [isDecimalDigit, digitValue?_of_isDigit h]
  rfl

theorem isDecimalDigit_of_isBlank {c : Char} (h : isBlank c = true) :
    isDecimalDigit c = false := by
  have hcode : (9 ≤ c.toNat ∧ c.toNat ≤ 13) ∨ (28 ≤ c.toNat ∧ c.toNat ≤ 32) ∨
      (0x2000 ≤ c.toNat ∧ c.toNat ≤ 0x200A) ∨
      c.toNat ∈ [0x85, 0xA0, 0x1680, 0x2028, 0x2029, 0x202F, 0x205F, 0x3000] := by
    simp [isBlank] at h
    simp
    omega
  -- there are few blanks, so each of them is looked up
  rw [← Char.ofNat_toNat c]
  generalize c.toNat = n at hcode
  rcases hcode with ⟨hge, hle⟩ | ⟨hge, hle⟩ | ⟨hge, hle⟩ | hn
  · interval_cases n <;> decide
  · interval_cases n <;> decide
  · interval_cases n <;> decide
  · revert n
    decide

/-- No digit of any script is blank. -/
theorem isBlank_of_isDecimalDigit {c : Char} (h : isDecimalDigit c = true) : isBlank c = false := by
  cases hblank : isBlank c with
  | false => rfl
  | true => exact absurd h (by simp [isDecimalDigit_of_isBlank hblank])

theorem digitChar_of_lt {d : Nat} (h : d < 10) :
    (Nat.digitChar d).isDigit = true ∧ digitValue? (Nat.digitChar d) = some d := by
  interval_cases d <;> decide

theorem digitValue?_commonDigit (c : Char) : digitValue? (commonDigit c) = digitValue? c := by
  unfold commonDigit
  cases h : digitValue? c with
  | none => exact h
  | some d => exact (digitChar_of_lt (digitValue?_lt h)).2

theorem isDecimalDigit_commonDigit (c : Char) :
    isDecimalDigit (commonDigit c) = isDecimalDigit c := by
  rw [isDecimalDigit, isDecimalDigit, digitValue?_commonDigit]

theorem isDigit_commonDigit {c : Char} (h : isDecimalDigit c = true) :
    (commonDigit c).isDigit = true := by
  obtain ⟨d, hd⟩ := Option.isSome_iff_exists.mp h
  rw [commonDigit, hd]
  exact (digitChar_of_lt (digitValue?_lt hd)).1

theorem commonDigit_of_not {c : Char} (h : isDecimalDigit c = false) : commonDigit c = c := by
  rw [commonDigit, Option.isSome_eq_false_iff.mp h |> Option.isNone_iff_eq_none.mp]

/-- A common digit is its own common form. -/
theorem commonDigit_of_isDigit {c : Char} (h : c.isDigit = true) : commonDigit c = c := by
  have hrange : 48 ≤ c.toNat ∧ c.toNat ≤ 57 := Char.isDigit_iff_toNat.mp h
  rw [commonDigit, digitValue?_of_isDigit h]
  apply Char.toNat_inj.mp
  rw [Nat.toNat_digitChar_of_lt_ten (by omega)]
  omega

/-! ### The values of digits -/

theorem ofDigits_eq (digits : List Nat) : ofDigits digits = Nat.ofDigits 10 digits.reverse := by
  induction digits using List.reverseRecOn with
  | nil => rfl
  | append_singleton digits d ih =>
    rw [ofDigits_concat, List.reverse_concat, Nat.ofDigits_cons, ih]
    simp [Nat.add_comm]

/-- The values of a text exist when it holds nothing but digits. -/
theorem digits?_eq_some_iff {cs : List Char} {digits : List Nat} :
    digits? cs = some digits ↔
      (∀ c ∈ cs, isDecimalDigit c = true) ∧ cs.filterMap digitValue? = digits := by
  unfold digits?
  induction cs generalizing digits with
  | nil => simp
  | cons c cs ih =>
    rw [List.mapM_cons]
    cases hc : digitValue? c with
    | none => simp [isDecimalDigit, hc]
    | some d =>
      have hd : isDecimalDigit c = true := by simp [isDecimalDigit, hc]
      cases hcs : cs.mapM digitValue? with
      | none =>
        have hnone : ¬ ∀ x ∈ cs, isDecimalDigit x = true := by
          intro h
          rw [ih.mpr ⟨h, rfl⟩] at hcs
          cases hcs
        simp [hc, hd, hnone]
      | some ds =>
        obtain ⟨h, rfl⟩ := ih.mp hcs
        simpa [hc, hd] using fun _ => h

end CommandBatch.Decimal
