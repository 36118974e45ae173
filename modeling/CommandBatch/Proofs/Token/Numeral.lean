import CommandBatch.Proofs.Token.Literal
import Mathlib.Data.List.TakeDrop

/-!
# Numerals

What the two readers of numbers make of digits with and without a point.  A text is read as a number
exactly when it is a number of the grammar after each of its digits has been replaced by its common
form (`numeral?_eq_ok_iff`): the reader does not ask for common digits.
-/

namespace CommandBatch.Token

open Text Decimal

/-- The text is a number of the grammar that denotes `d`. -/
def IsNumeral (text : List Char) (d : Datum) : Prop :=
  ∃ l : Literal, l.WellFormed ∧ l.type = TypeName.number ∧ l.text = text ∧ l.Means d

/-! ### The characters of numbers -/

theorem mem_numerals_iff {c : Char} : c ∈ numerals ↔ c = '.' ∨ c.isDigit = true := by
  constructor
  · revert c
    decide
  · rintro (rfl | h)
    · decide
    · have hrange : 48 ≤ c.toNat ∧ c.toNat ≤ 57 := Char.isDigit_iff_toNat.mp h
      rw [← Char.ofNat_toNat c]
      generalize c.toNat = n at hrange
      obtain ⟨hge, hle⟩ := hrange
      interval_cases n <;> decide

theorem isBlank_of_numeral {c : Char} (h : c ∈ numerals ∨ c = '-') : isBlank c = false := by
  rcases h with h | rfl
  · rcases mem_numerals_iff.mp h with rfl | hdigit
    · rfl
    · exact isBlank_of_isDecimalDigit (isDecimalDigit_of_isDigit hdigit)
  · rfl

theorem commonDigit_of_numeral {c : Char} (h : c ∈ numerals ∨ c = '-') : commonDigit c = c := by
  rcases h with h | rfl
  · rcases mem_numerals_iff.mp h with rfl | hdigit
    · rfl
    · exact commonDigit_of_isDigit hdigit
  · rfl

theorem map_commonDigit_numerals {cs : List Char} (h : ∀ c ∈ cs, c ∈ numerals ∨ c = '-') :
    cs.map commonDigit = cs := by
  have hself : ∀ c ∈ cs, commonDigit c = id c := fun c hc => commonDigit_of_numeral (h c hc)
  rw [List.map_congr_left hself, List.map_id]

theorem mem_minus {c : Char} {negative : Bool} (h : c ∈ minus negative) : c = '-' := by
  cases negative with
  | false => cases h
  | true => simpa [minus] using h

/-! ### Signs -/

theorem splitMinus_minus {body : List Char} (negative : Bool) (h : body.head? ≠ some '-') :
    splitMinus (minus negative ++ body) = (negative, body) := by
  cases negative with
  | true => rfl
  | false =>
    cases body with
    | nil => rfl
    | cons c cs =>
      have hc : c ≠ '-' := by simpa using h
      simp [minus, splitMinus, hc]

theorem minus_splitMinus (cs : List Char) : minus (splitMinus cs).1 ++ (splitMinus cs).2 = cs := by
  unfold splitMinus
  split <;> rfl

theorem splitSign_minus {body : List Char} (negative : Bool) (h : body.head? ≠ some '-')
    (h' : body.head? ≠ some '+') : splitSign (minus negative ++ body) = (negative, body) := by
  cases negative with
  | true => rfl
  | false =>
    cases body with
    | nil => rfl
    | cons c cs =>
      have hc : c ≠ '-' := by simpa using h
      have hc' : c ≠ '+' := by simpa using h'
      simp [minus, splitSign, hc, hc']

/-- No digit is a sign, a point or an underscore. -/
theorem ne_of_isDecimalDigit {c d : Char} (h : isDecimalDigit c = true)
    (hd : isDecimalDigit d = false) : c ≠ d := by
  rintro rfl
  rw [h] at hd
  cases hd

theorem head?_ne_of_isDecimalDigit {digits : List Char} {d : Char}
    (h : ∀ c ∈ digits, isDecimalDigit c = true) (hd : isDecimalDigit d = false) :
    digits.head? ≠ some d := by
  intro hhead
  exact ne_of_isDecimalDigit (h d (List.mem_of_mem_head? hhead)) hd rfl

/-! ### Numbers of digits of any script -/

theorem numeral?_whole {negative : Bool} {digits : List Char} (hne : digits ≠ [])
    (h : ∀ c ∈ digits, isDecimalDigit c = true) :
    numeral? (minus negative ++ digits) =
      if digits.length ≤ digitLimit then
        .ok (some (.whole (signed negative (ofDigits (digits.filterMap digitValue?)))))
      else .error (.tooLong digits.length) := by
  have hlength : (digits.filterMap digitValue?).length = digits.length := by
    refine List.filterMap_length_eq_length.mpr ?_
    exact h
  have hsome := digits?_eq_some_iff.mpr ⟨h, rfl⟩
  unfold numeral?
  rw [splitMinus_minus negative (head?_ne_of_isDecimalDigit h (by decide))]
  simp only [hsome]
  cases hvalues : digits.filterMap digitValue? with
  | nil =>
    rw [hvalues] at hlength
    exact absurd (List.length_eq_zero_iff.mp hlength.symm) hne
  | cons d ds =>
    rw [hvalues] at hlength
    simp only [withinLimit, hlength]
    split <;> rfl

/-! ### Digits with a point -/

theorem isEmpty_filterMap_digitValue? {cs : List Char} (h : ∀ c ∈ cs, isDecimalDigit c = true) :
    (cs.filterMap digitValue?).isEmpty = cs.isEmpty := by
  have hlength : (cs.filterMap digitValue?).length = cs.length :=
    List.filterMap_length_eq_length.mpr h
  rw [Bool.eq_iff_iff, List.isEmpty_iff_length_eq_zero, hlength, List.isEmpty_iff_length_eq_zero]

/-- The first point of a text parts the digits. -/
theorem places?_point {us fs : List Char} (h : '.' ∉ us) :
    places? (us ++ '.' :: fs) =
      match digits? us, digits? fs with
      | some units, some fraction =>
        if units.isEmpty && fraction.isEmpty then none else some (units, fraction)
      | _, _ => none := by
  have hpoint : ∀ c ∈ us, decide (c ≠ '.') = true := by
    intro c hc
    refine decide_eq_true ?_
    rintro rfl
    exact h hc
  unfold places?
  rw [List.span_eq_takeWhile_dropWhile, List.takeWhile_append_of_pos hpoint,
    List.dropWhile_append_of_pos hpoint, List.takeWhile_cons_of_neg (by decide),
    List.dropWhile_cons_of_neg (by decide), List.append_nil]
  rfl

theorem places?_of_not_mem {cs : List Char} (h : '.' ∉ cs) : places? cs = none := by
  have hpoint : ∀ c ∈ cs, decide (c ≠ '.') = true := by
    intro c hc
    refine decide_eq_true ?_
    rintro rfl
    exact h hc
  unfold places?
  rw [List.span_eq_takeWhile_dropWhile, List.dropWhile_eq_nil_iff.mpr hpoint]

theorem places?_eq_some_iff {cs : List Char} {units fraction : List Nat} :
    places? cs = some (units, fraction) ↔
      ∃ us fs, cs = us ++ '.' :: fs ∧ (∀ c ∈ us, isDecimalDigit c = true) ∧
        (∀ c ∈ fs, isDecimalDigit c = true) ∧ (us ≠ [] ∨ fs ≠ []) ∧
        us.filterMap digitValue? = units ∧ fs.filterMap digitValue? = fraction := by
  have hempty : ∀ {us fs : List Char}, (us.isEmpty && fs.isEmpty) = false ↔ us ≠ [] ∨ fs ≠ [] := by
    intro us fs
    cases us <;> cases fs <;> simp
  constructor
  · intro h
    by_cases hmem : '.' ∈ cs
    · obtain ⟨us, fs, rfl, hus⟩ := List.eq_append_cons_of_mem hmem
      rw [places?_point hus] at h
      cases hunits : digits? us with
      | none => simp [hunits] at h
      | some units' =>
        cases hfraction : digits? fs with
        | none => simp [hunits, hfraction] at h
        | some fraction' =>
          obtain ⟨hus, rfl⟩ := digits?_eq_some_iff.mp hunits
          obtain ⟨hfs, rfl⟩ := digits?_eq_some_iff.mp hfraction
          simp only [hunits, hfraction, isEmpty_filterMap_digitValue? hus,
            isEmpty_filterMap_digitValue? hfs] at h
          cases hb : us.isEmpty && fs.isEmpty with
          | true => simp [hb] at h
          | false =>
            rw [hb] at h
            cases h
            exact ⟨us, fs, rfl, hus, hfs, hempty.mp hb, rfl, rfl⟩
    · rw [places?_of_not_mem hmem] at h
      cases h
  · rintro ⟨us, fs, rfl, hus, hfs, hne, rfl, rfl⟩
    have hpoint : '.' ∉ us := fun hmem => ne_of_isDecimalDigit (hus _ hmem) (by decide) rfl
    rw [places?_point hpoint, digits?_eq_some_iff.mpr ⟨hus, rfl⟩,
      digits?_eq_some_iff.mpr ⟨hfs, rfl⟩]
    simp only [isEmpty_filterMap_digitValue? hus, isEmpty_filterMap_digitValue? hfs,
      hempty.mpr hne]
    rfl

/-- What digits on the two sides of a point, with or without a minus sign, write. -/
def pointed (negative : Bool) (units fraction : List Char) : Float :=
  let x := ofPlaces (units.filterMap digitValue?) (fraction.filterMap digitValue?) 0
  if negative then -x else x

theorem head?_append_ne_of_isDecimalDigit {units rest : List Char} {d : Char}
    (h : ∀ c ∈ units, isDecimalDigit c = true) (hd : isDecimalDigit d = false)
    (hrest : rest.head? ≠ some d) : (units ++ rest).head? ≠ some d := by
  cases units with
  | nil => exact hrest
  | cons c cs =>
    change (c :: cs).head? ≠ some d
    exact head?_ne_of_isDecimalDigit h hd

theorem numeral?_pointed {negative : Bool} {units fraction : List Char}
    (hne : units ≠ [] ∨ fraction ≠ []) (hunits : ∀ c ∈ units, isDecimalDigit c = true)
    (hfraction : ∀ c ∈ fraction, isDecimalDigit c = true) :
    numeral? (minus negative ++ (units ++ '.' :: fraction)) =
      .ok (some (.float (pointed negative units fraction))) := by
  have hdigits : digits? (units ++ '.' :: fraction) = none := by
    cases h : digits? (units ++ '.' :: fraction) with
    | none => rfl
    | some digits =>
      have := (digits?_eq_some_iff.mp h).1 '.' (by simp)
      cases this
  have hplaces := places?_eq_some_iff.mpr ⟨units, fraction, rfl, hunits, hfraction, hne, rfl, rfl⟩
  unfold numeral?
  rw [splitMinus_minus negative
    (head?_append_ne_of_isDecimalDigit hunits (by decide) (by simp))]
  simp only [hdigits, hplaces]
  rfl

/-! ### The reader of numerals -/

theorem numeral?_none {cs : List Char}
    (hdigits : ¬ ((splitMinus cs).2 ≠ [] ∧ ∀ c ∈ (splitMinus cs).2, isDecimalDigit c = true))
    (hplaces : places? (splitMinus cs).2 = none) : numeral? cs = .ok none := by
  unfold numeral?
  simp only [hplaces]
  split
  · rename_i d ds h
    obtain ⟨hall, hvalues⟩ := digits?_eq_some_iff.mp h
    refine absurd ⟨?_, hall⟩ hdigits
    rintro hnil
    rw [hnil] at hvalues
    cases hvalues
  · rfl

/-- A text is read as a number when it is digits of any script, or digits on the two sides of a
point, perhaps behind a minus sign. -/
theorem numeral?_cases {cs : List Char} {d : Datum} :
    numeral? cs = .ok (some d) ↔
      (∃ negative digits, cs = minus negative ++ digits ∧ digits ≠ [] ∧
        (∀ c ∈ digits, isDecimalDigit c = true) ∧ digits.length ≤ digitLimit ∧
        d = .whole (signed negative (ofDigits (digits.filterMap digitValue?)))) ∨
      ∃ negative units fraction, cs = minus negative ++ (units ++ '.' :: fraction) ∧
        (units ≠ [] ∨ fraction ≠ []) ∧ (∀ c ∈ units, isDecimalDigit c = true) ∧
        (∀ c ∈ fraction, isDecimalDigit c = true) ∧
        d = .float (pointed negative units fraction) := by
  constructor
  · intro h
    -- what stands behind the sign is digits alone, or has a point, or is no number
    have he := minus_splitMinus cs
    by_cases hdigits : (splitMinus cs).2 ≠ [] ∧ ∀ c ∈ (splitMinus cs).2, isDecimalDigit c = true
    · left
      rw [← he, numeral?_whole hdigits.1 hdigits.2] at h
      split at h
      · rename_i hlimit
        cases h
        exact ⟨_, _, he.symm, hdigits.1, hdigits.2, hlimit, rfl⟩
      · cases h
    · right
      cases hplaces : places? (splitMinus cs).2 with
      | none => rw [numeral?_none hdigits hplaces] at h; cases h
      | some p =>
        obtain ⟨us, fs, hbody, hus, hfs, hne, -, -⟩ := places?_eq_some_iff.mp hplaces
        rw [← he, hbody, numeral?_pointed hne hus hfs] at h
        cases h
        exact ⟨_, us, fs, by rw [← hbody, he], hne, hus, hfs, rfl⟩
  · rintro (⟨negative, digits, rfl, hne, hdigit, hlimit, rfl⟩ |
      ⟨negative, units, fraction, rfl, hne, hunits, hfraction, rfl⟩)
    · rw [numeral?_whole hne hdigit, if_pos hlimit]
    · exact numeral?_pointed hne hunits hfraction

/-! ### The reader of floating-point numbers -/

theorem trimMargins_eq_self {cs : List Char} (h : ∀ c ∈ cs, isBlank c = false) :
    trimMargins cs = cs := by
  have hdrop : ∀ {ds : List Char}, (∀ c ∈ ds, isBlank c = false) → ds.dropWhile isMargin = ds := by
    intro ds hds
    cases ds with
    | nil => rfl
    | cons d ds => simp [isMargin, hds d (List.mem_cons_self ..)]
  rw [trimMargins, hdrop h, hdrop (by simpa using h), List.reverse_reverse]

theorem dropUnderscores_eq_some {cs : List Char} (previous : Bool) (h : '_' ∉ cs) :
    dropUnderscores previous cs = some cs := by
  induction cs generalizing previous with
  | nil => rfl
  | cons c cs ih =>
    have hc : c ≠ '_' := by
      rintro rfl
      exact h (List.mem_cons_self ..)
    have hcs : '_' ∉ cs := fun hmem => h (List.mem_cons_of_mem _ hmem)
    rw [dropUnderscores, if_neg hc, ih _ hcs]
    · rfl
    · intro d ds he
      exact absurd he hc

theorem toLower_of_isDigit {c : Char} (h : c.isDigit = true) : c.toLower = c := by
  have hrange : 48 ≤ c.toNat ∧ c.toNat ≤ 57 := Char.isDigit_iff_toNat.mp h
  refine dif_neg ?_
  rintro ⟨hupper, -⟩
  have hge : 65 ≤ c.toNat := UInt32.le_iff_toNat_le.mp hupper
  omega

/-- No name of an exceptional value begins like a number. -/
theorem unsignedFloat?_eq {cs : List Char} (h : ∀ c ∈ cs.head?, c.isDigit = true ∨ c = '.') :
    unsignedFloat? cs = unsignedDecimal? cs := by
  have hhead : ∀ name : String, .ofList (cs.map Char.toLower) = name →
      name.toList.head? = cs.head? := by
    rintro _ rfl
    rw [String.toList_ofList, List.head?_map]
    cases hcs : cs.head? with
    | none => rfl
    | some c =>
      rcases h c hcs with hdigit | rfl
      · rw [Option.map_some, toLower_of_isDigit hdigit]
      · rfl
  have hname : ∀ (name : String) (letter : Char), name.toList.head? = some letter →
      letter.isDigit = false → letter ≠ '.' → .ofList (cs.map Char.toLower) ≠ name := by
    intro name letter hletter hdigit hpoint he
    rw [hhead name he] at hletter
    rcases h letter hletter with hletter | hletter
    · rw [hdigit] at hletter
      cases hletter
    · exact hpoint hletter
  have hinf := hname "inf" 'i' (by decide) (by decide) (by decide)
  have hinfinity := hname "infinity" 'i' (by decide) (by decide) (by decide)
  have hnan := hname "nan" 'n' (by decide) (by decide) (by decide)
  simp [unsignedFloat?, hinf, hinfinity, hnan]

theorem unsignedDecimal?_pointed {units fraction : List Char}
    (hne : units ≠ [] ∨ fraction ≠ []) (hunits : ∀ c ∈ units, isDecimalDigit c = true)
    (hfraction : ∀ c ∈ fraction, isDecimalDigit c = true) :
    unsignedDecimal? (units ++ '.' :: fraction) =
      some (ofPlaces (units.filterMap digitValue?) (fraction.filterMap digitValue?) 0) := by
  have hspan : spanDigits (units ++ '.' :: fraction) =
      (units.filterMap digitValue?, '.' :: fraction) := by
    rw [spanDigits, List.takeWhile_append_of_pos hunits, List.dropWhile_append_of_pos hunits,
      List.takeWhile_cons_of_neg (by decide), List.dropWhile_cons_of_neg (by decide),
      List.append_nil]
  have hspan' : spanDigits fraction = (fraction.filterMap digitValue?, []) := by
    rw [spanDigits, List.takeWhile_eq_self_iff.mpr hfraction,
      List.dropWhile_eq_nil_iff.mpr hfraction]
  have hempty : (units.isEmpty && fraction.isEmpty) = false := by
    rcases hne with hne | hne <;> simp [hne]
  simp [unsignedDecimal?, hspan, hspan', isEmpty_filterMap_digitValue? hunits,
    isEmpty_filterMap_digitValue? hfraction, hempty]

/-- Both readers of numbers make the same of common digits with a point. -/
theorem readFloat_pointed {negative : Bool} {units fraction : List Char}
    (hne : units ≠ [] ∨ fraction ≠ []) (hunits : ∀ c ∈ units, c.isDigit = true)
    (hfraction : ∀ c ∈ fraction, c.isDigit = true) :
    readFloat (.ofList (minus negative ++ (units ++ '.' :: fraction))) =
      .ok (pointed negative units fraction) := by
  have hunits' : ∀ c ∈ units, isDecimalDigit c = true := fun c hc =>
    isDecimalDigit_of_isDigit (hunits c hc)
  have hfraction' : ∀ c ∈ fraction, isDecimalDigit c = true := fun c hc =>
    isDecimalDigit_of_isDigit (hfraction c hc)
  have hchars : ∀ c ∈ minus negative ++ (units ++ '.' :: fraction), c ∈ numerals ∨ c = '-' := by
    intro c hc
    simp only [List.mem_append, List.mem_cons] at hc
    rcases hc with hc | hc | rfl | hc
    · exact Or.inr (mem_minus hc)
    · exact Or.inl (mem_numerals_iff.mpr (Or.inr (hunits c hc)))
    · exact Or.inl (by decide)
    · exact Or.inl (mem_numerals_iff.mpr (Or.inr (hfraction c hc)))
  -- none of the liberties of host texts is taken: there is no margin and no underscore
  have htrim : trimMargins (minus negative ++ (units ++ '.' :: fraction)) =
      minus negative ++ (units ++ '.' :: fraction) :=
    trimMargins_eq_self fun c hc => isBlank_of_numeral (hchars c hc)
  have hunderscore : '_' ∉ minus negative ++ (units ++ '.' :: fraction) := by
    intro hmem
    exact absurd (hchars '_' hmem) (by decide)
  have hsplit : splitSign (minus negative ++ (units ++ '.' :: fraction)) =
      (negative, units ++ '.' :: fraction) :=
    splitSign_minus negative (head?_append_ne_of_isDecimalDigit hunits' (by decide) (by simp))
      (head?_append_ne_of_isDecimalDigit hunits' (by decide) (by simp))
  have hhead : ∀ c ∈ (units ++ '.' :: fraction).head?, c.isDigit = true ∨ c = '.' := by
    cases units with
    | nil => simp
    | cons u us => simpa using Or.inl (hunits u (List.mem_cons_self ..))
  rw [readFloat, String.toList_ofList, htrim, dropUnderscores_eq_some false hunderscore]
  simp only [hsplit, unsignedFloat?_eq hhead, unsignedDecimal?_pointed hne hunits' hfraction']
  rfl

/-! ### Common digits -/

theorem filterMap_commonDigit (cs : List Char) :
    (cs.map commonDigit).filterMap digitValue? = cs.filterMap digitValue? := by
  rw [List.filterMap_map]
  congr 1
  funext c
  exact digitValue?_commonDigit c

theorem wholeOf_eq {digits : List Char} (h : ∀ c ∈ digits, c.isDigit = true) :
    wholeOf digits = ofDigits (digits.filterMap digitValue?) := by
  have hvalues : digits.filterMap digitValue? = digits.map fun c => c.toNat - '0'.toNat := by
    rw [← List.filterMap_eq_map]
    refine List.filterMap_congr ?_
    intro c hc
    exact digitValue?_of_isDigit (h c hc)
  rw [ofDigits_eq, hvalues, wholeOf, List.map_reverse]

theorem commonDigit_eq_iff {c d : Char} (hd : isDecimalDigit d = false) :
    commonDigit c = d ↔ c = d := by
  constructor
  · rintro rfl
    rw [isDecimalDigit_commonDigit] at hd
    exact (commonDigit_of_not hd).symm
  · rintro rfl
    exact commonDigit_of_not hd

theorem map_commonDigit_eq_minus_iff {cs : List Char} {negative : Bool} :
    cs.map commonDigit = minus negative ↔ cs = minus negative := by
  cases negative with
  | false => simp [minus]
  | true => simp [minus, List.map_eq_cons_iff, commonDigit_eq_iff (d := '-') (by decide)]

theorem isDecimalDigit_of_map {cs : List Char}
    (h : ∀ c ∈ cs.map commonDigit, c.isDigit = true) : ∀ c ∈ cs, isDecimalDigit c = true := by
  intro c hc
  rw [← isDecimalDigit_commonDigit]
  exact isDecimalDigit_of_isDigit (h _ (List.mem_map_of_mem hc))

theorem isDigit_map_commonDigit {cs : List Char} (h : ∀ c ∈ cs, isDecimalDigit c = true) :
    ∀ c ∈ cs.map commonDigit, c.isDigit = true := by
  intro c hc
  obtain ⟨d, hd, rfl⟩ := List.mem_map.mp hc
  exact isDigit_commonDigit (h d hd)

theorem pointed_map_commonDigit (negative : Bool) (units fraction : List Char) :
    pointed negative (units.map commonDigit) (fraction.map commonDigit) =
      pointed negative units fraction := by
  rw [pointed, filterMap_commonDigit, filterMap_commonDigit]
  rfl

/-- **What is read as a number.**  A text is read as a number exactly when it is one of the grammar
once its digits are replaced by common ones, and then it is read as the number that this one
denotes. -/
theorem numeral?_eq_ok_iff {cs : List Char} {d : Datum} :
    numeral? cs = .ok (some d) ↔ IsNumeral (cs.map commonDigit) d := by
  rw [numeral?_cases]
  constructor
  · rintro (⟨negative, digits, rfl, hne, hdigits, hlimit, rfl⟩ |
      ⟨negative, units, fraction, rfl, hne, hunits, hfraction, rfl⟩)
    · have hcommon := isDigit_map_commonDigit hdigits
      refine ⟨.whole negative (digits.map commonDigit), ⟨?_, hcommon, ?_⟩, rfl, ?_, ?_⟩
      · simpa using hne
      · simpa using hlimit
      · rw [Literal.text, List.map_append, map_commonDigit_eq_minus_iff.mpr rfl]
      · rw [Literal.Means, wholeOf_eq hcommon, filterMap_commonDigit]
    · have hunits' := isDigit_map_commonDigit hunits
      have hfraction' := isDigit_map_commonDigit hfraction
      have hne' : units.map commonDigit ≠ [] ∨ fraction.map commonDigit ≠ [] := by simpa using hne
      refine ⟨.decimal negative (units.map commonDigit) (fraction.map commonDigit),
        ⟨hne', hunits', hfraction'⟩, rfl, ?_, _, readFloat_pointed hne' hunits' hfraction', ?_⟩
      · rw [Literal.text, List.map_append, List.map_append, List.map_cons,
          map_commonDigit_eq_minus_iff.mpr rfl, commonDigit_of_not (by decide)]
      · rw [pointed_map_commonDigit]
  · rintro ⟨l, hwell, htype, htext, hmeans⟩
    cases l with
    | whole negative digits =>
      left
      obtain ⟨xs, ys, rfl, hxs, rfl⟩ := List.map_eq_append_iff.mp htext.symm
      obtain ⟨hne, hdigits, hlimit⟩ := hwell
      rw [map_commonDigit_eq_minus_iff] at hxs
      refine ⟨negative, ys, by rw [hxs], ?_, isDecimalDigit_of_map hdigits, ?_, ?_⟩
      · simpa using hne
      · simpa using hlimit
      · rw [hmeans, wholeOf_eq hdigits, filterMap_commonDigit]
    | decimal negative units fraction =>
      right
      obtain ⟨xs, ys, rfl, hxs, hys⟩ := List.map_eq_append_iff.mp htext.symm
      obtain ⟨us, zs, rfl, rfl, hzs⟩ := List.map_eq_append_iff.mp hys
      obtain ⟨point, fs, rfl, hpoint, rfl⟩ := List.map_eq_cons_iff.mp hzs
      obtain ⟨hne, hunits, hfraction⟩ := hwell
      rw [map_commonDigit_eq_minus_iff] at hxs
      rw [commonDigit_eq_iff (by decide)] at hpoint
      obtain ⟨x, hx, rfl⟩ := hmeans
      rw [readFloat_pointed hne hunits hfraction, pointed_map_commonDigit] at hx
      cases hx
      exact ⟨negative, us, fs, by rw [hxs, hpoint], by simpa using hne,
        isDecimalDigit_of_map hunits, isDecimalDigit_of_map hfraction, rfl⟩
    | _ =>
      simp [Literal.type, TypeName.number, TypeName.symbol, TypeName.bool, TypeName.string,
        TypeName.reference] at htype

end CommandBatch.Token
