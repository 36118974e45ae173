import CommandBatch.Proofs.Token.Meaning

/-!
# Whole numbers as they are written

A whole number is written in the common digits of its absolute value, behind a minus sign or none.  It is read
back (`parseNumber_canonical`) unless it has more digits than the limit, and the sign is none of them.  This is
also the only thing that the type of numbers breaks off for (`tooLong_of_parseNumber`): every other text is a
number or an operator, or is refused.
-/

namespace CommandBatch.Token

open Text Decimal

/-- A whole number in common digits. -/
def canonical (n : Int) : List Char := minus (decide (n < 0)) ++ Nat.toDigits 10 n.natAbs

/-- Whole numbers are printed so. -/
theorem toList_wholeText (n : Int) : (wholeText n).toList = canonical n := by
  cases n with
  | ofNat n => simp [wholeText, canonical, minus]
  | negSucc n => simp [wholeText, canonical, minus]

/-! ### The digits of a number -/

theorem isDigit_of_mem_toDigits {n : Nat} : ∀ c ∈ Nat.toDigits 10 n, c.isDigit = true :=
  fun _ hc => Nat.isDigit_of_mem_toDigits (by decide) (by decide) hc

theorem isDecimalDigit_of_mem_toDigits {n : Nat} :
    ∀ c ∈ Nat.toDigits 10 n, isDecimalDigit c = true :=
  fun c hc => isDecimalDigit_of_isDigit (isDigit_of_mem_toDigits c hc)

/-- The digits of a number write this number. -/
theorem wholeOf_toDigits (n : Nat) : wholeOf (Nat.toDigits 10 n) = n := by
  have hfold : ∀ digits : List Char, wholeOf digits = Nat.ofDigitChars 10 digits 0 := by
    intro digits
    rw [wholeOf, List.map_reverse, ← ofDigits_eq, ofDigits, List.foldl_map]
    rfl
  rw [hfold]
  exact Nat.ofDigitChars_toDigits (by decide) (by decide)

theorem signed_natAbs (n : Int) : signed (decide (n < 0)) n.natAbs = n := by
  by_cases h : n < 0
  · simp only [signed, h, decide_true, ↓reduceIte]
    omega
  · simp only [signed, h, decide_false, Bool.false_eq_true, ↓reduceIte]
    omega

/-! ### What the type of numbers makes of them -/

/-- Digits behind a minus sign or none have no margin, and are no operator. -/
theorem strip_minus {negative : Bool} {digits : List Char}
    (h : ∀ c ∈ digits, isDecimalDigit c = true) :
    strip (.ofList (minus negative ++ digits)) = .ofList (minus negative ++ digits) := by
  refine strip_ofList (trim_eq_self_of_forall ?_)
  intro c hc
  rcases List.mem_append.mp hc with hc | hc
  · rw [mem_minus hc]
    rfl
  · exact isBlank_of_isDecimalDigit (h c hc)

theorem parseNumber_whole {negative : Bool} {digits : List Char} (hne : digits ≠ [])
    (h : ∀ c ∈ digits, isDecimalDigit c = true) :
    parseNumber (.ofList (minus negative ++ digits)) =
      if digits.length ≤ digitLimit then
        .ok ⟨TypeName.number, .whole (signed negative (ofDigits (digits.filterMap digitValue?))), none⟩
      else .error (.tooLong digits.length) := by
  have hop : operators.contains (.ofList (minus negative ++ digits)) = false := by
    rw [Bool.eq_false_iff]
    intro hop
    obtain ⟨c, hc⟩ := List.exists_mem_of_ne_nil digits hne
    have hdigit := isDecimalDigit_of_mem_operators _ (List.contains_iff_mem.mp hop) c (by simp [hc])
    rw [h c hc] at hdigit
    cases hdigit
  simp only [parseNumber, strip_minus h, hop, Bool.false_eq_true, ↓reduceIte, String.toList_ofList,
    numeral?_whole hne h]
  split <;> rfl

/-- **A whole number is read back**, unless it has more digits than the limit. -/
theorem parseNumber_canonical (n : Int) :
    parseNumber (.ofList (canonical n)) =
      if (Nat.toDigits 10 n.natAbs).length ≤ digitLimit then .ok ⟨TypeName.number, .whole n, none⟩
      else .error (.tooLong (Nat.toDigits 10 n.natAbs).length) := by
  rw [canonical, parseNumber_whole Nat.toDigits_ne_nil isDecimalDigit_of_mem_toDigits,
    ← wholeOf_eq isDigit_of_mem_toDigits, wholeOf_toDigits, signed_natAbs]

/-- **What the type of numbers breaks off for** is a whole number with more digits than the limit. -/
theorem tooLong_of_parseNumber {literal : String} {e : NumeralError} (h : parseNumber literal = .error e) :
    ∃ negative digits, trim literal.toList = minus negative ++ digits ∧
      (∀ c ∈ digits, isDecimalDigit c = true) ∧ digitLimit < digits.length ∧
      e = .tooLong digits.length := by
  have hnumeral : numeral? (trim literal.toList) = .error e := by
    unfold parseNumber at h
    dsimp only at h
    split at h
    · cases h
    · rw [toList_strip] at h
      rcases bind_eq_error_iff.mp h with herror | ⟨d, -, hd⟩
      · exact herror
      · cases d <;> cases hd
  have he := minus_splitMinus (trim literal.toList)
  generalize (splitMinus (trim literal.toList)).1 = negative at he
  -- only digits alone can be too many
  by_cases hdigits : (splitMinus (trim literal.toList)).2 ≠ [] ∧
      ∀ c ∈ (splitMinus (trim literal.toList)).2, isDecimalDigit c = true
  · generalize (splitMinus (trim literal.toList)).2 = digits at he hdigits
    rw [← he, numeral?_whole hdigits.1 hdigits.2] at hnumeral
    split at hnumeral
    · cases hnumeral
    · next hlimit => exact ⟨negative, digits, he.symm, hdigits.2, by omega, (Except.error.inj hnumeral).symm⟩
  · cases hplaces : places? (splitMinus (trim literal.toList)).2 with
    | none =>
      rw [numeral?_none hdigits hplaces] at hnumeral
      cases hnumeral
    | some p =>
      obtain ⟨us, fs, hbody, hus, hfs, hne, -, -⟩ := places?_eq_some_iff.mp hplaces
      rw [← he, hbody, numeral?_pointed hne hus hfs] at hnumeral
      cases hnumeral

end CommandBatch.Token
