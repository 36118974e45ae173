import CommandBatch.Proofs.Line.Literals

/-!
# Numbers in lines

Which texts stand in a line as numbers.  The characters of numbers are the common digits and the
point, but a number may be closed by one more character, and the reader of numerals takes a digit of
any script.  So beside the numbers of the grammar a line may hold such a number with its last digit
in another script, and nothing else (`number_iff`).
-/

namespace CommandBatch.Line

open Text Token Decimal

variable {marks : Marks}

/-! ### What numbers may hold -/

/-- Inside a number stand numerals, up to a separator or one more character. -/
theorem closes_number_cases {s : Scratch} {cs rest : List Char}
    (h : Closes marks number s cs rest) :
    (∀ c ∈ cs, c ∈ numerals) ∨
      ∃ init last, cs = init ++ [last] ∧ (∀ c ∈ init, c ∈ numerals) ∧ last ∉ numerals := by
  rcases closes_ofClasses_cases rfl h with hcs | ⟨init, last, he, hinit, hlast, -⟩
  · exact Or.inl (by simpa using hcs)
  · exact Or.inr ⟨init, last, he, by simpa using hinit, by simpa using hlast⟩

/-- The types of single words and of strings answer with their own type, or refuse. -/
theorem type_of_parse {type : TokenType} (htype : type ∈ defaults) {literal : String} {u : Value}
    (hparse : type.lexis.parse literal = .ok (.value u)) :
    type = number ∨
      u.type ∈ [TypeName.bool, TypeName.symbol, TypeName.string, TypeName.reference,
        TypeName.error] := by
  simp only [defaults, List.mem_cons, List.not_mem_nil, or_false] at htype
  rcases htype with rfl | rfl | rfl | rfl | rfl
  · exact Or.inl rfl
  · right
    simp only [Token.bool, Lexis.ofClasses, Except.ok.injEq, Reading.value.injEq] at hparse
    subst hparse
    unfold parseBool
    dsimp only
    split_ifs <;> simp [Value.refused]
  · right
    simp only [Token.symbol, Lexis.ofClasses, Except.ok.injEq, Reading.value.injEq] at hparse
    subst hparse
    unfold parseSymbol
    dsimp only
    split <;> simp [Value.refused]
  · right
    simp only [string, Except.ok.injEq, Reading.value.injEq] at hparse
    subst hparse
    unfold parseString
    dsimp only
    split <;> simp [Value.refused]
  · right
    simp only [Token.reference, Lexis.ofClasses, Except.ok.injEq, Reading.value.injEq] at hparse
    subst hparse
    unfold parseReference
    dsimp only
    split <;> simp [Value.refused]

/-- Only the type of numbers makes numbers. -/
theorem eq_number_of_parse {type : TokenType} (htype : type ∈ defaults) {literal : String}
    {u : Value} (hparse : type.lexis.parse literal = .ok (.value u))
    (hu : u.type = TypeName.number) : type = number := by
  rcases type_of_parse htype hparse with h | h
  · exact h
  · rw [hu] at h
    exact absurd h (by decide)

/-! ### The texts of numbers -/

/-- A number of the grammar whose last digit is written in another script. -/
def EndsForeign (text : List Char) (d : Datum) : Prop :=
  ∃ body last, text = body ++ [last] ∧ body ≠ [] ∧ last.isDigit = false ∧
    isDecimalDigit last = true ∧ IsNumeral (body ++ [commonDigit last]) d

theorem not_mem_numerals {c : Char} (hforeign : c.isDigit = false)
    (hdigit : isDecimalDigit c = true) : c ∉ numerals := by
  intro hmem
  rcases mem_numerals_iff.mp hmem with rfl | hcommon
  · exact absurd hdigit (by decide)
  · rw [hforeign] at hcommon
    cases hcommon

/-- No number of the grammar is one with a digit of another script. -/
theorem EndsForeign.not_isNumeral {text : List Char} {d d' : Datum} (h : EndsForeign text d) :
    ¬ IsNumeral text d' := by
  obtain ⟨body, last, rfl, -, hlast, hdigit, -⟩ := h
  intro hnumeral
  rcases hnumeral.chars last (by simp) with hmem | rfl
  · exact not_mem_numerals hlast hdigit hmem
  · exact absurd hdigit (by decide)

/-- Numerals and one more character, without margins and with common digits, are a number of the
grammar only if the text is one or ends in a digit of another script. -/
theorem isNumeral_or_endsForeign {init : List Char} {last : Char} {d : Datum} (hne : init ≠ [])
    (hinit : ∀ c ∈ init, c ∈ numerals ∨ c = '-') (hlast : last ∉ numerals)
    (h : IsNumeral ((trim (init ++ [last])).map commonDigit) d) :
    IsNumeral (trim (init ++ [last])) d ∨ EndsForeign (trim (init ++ [last])) d := by
  have htrim : trim init = init :=
    trim_eq_self_of_forall fun c hc => isBlank_of_numeral (hinit c hc)
  cases hblank : isBlank last with
  | true =>
    -- the last character is trimmed off, and what is left holds common digits only
    have hdropped : trim (init ++ [last]) = init := by
      rw [trim_append_cons htrim hne hblank]
      simp [trimRight]
    rw [hdropped] at h ⊢
    rw [map_commonDigit_numerals hinit] at h
    exact Or.inl h
  | false =>
    have hkept : trim (init ++ [last]) = init ++ [last] := by
      refine trim_eq_self_of_forall ?_
      intro c hc
      rcases List.mem_append.mp hc with hc | hc
      · exact isBlank_of_numeral (hinit c hc)
      · rw [List.mem_singleton.mp hc]
        exact hblank
    rw [hkept] at h ⊢
    rw [List.map_append, map_commonDigit_numerals hinit, List.map_singleton] at h
    -- the last character stays, and only a digit of another script has another common form
    cases hdigit : isDecimalDigit last with
    | false =>
      rw [commonDigit_of_not hdigit] at h
      exact Or.inl h
    | true =>
      have hforeign : last.isDigit = false := by
        cases hcommon : last.isDigit with
        | false => rfl
        | true => exact absurd (mem_numerals_iff.mpr (Or.inr hcommon)) hlast
      exact Or.inr ⟨init, last, rfl, hne, hforeign, hdigit, h⟩

/-- A number in a line is one of the grammar, but its last digit may be of another script.  This
holds for any separators. -/
theorem number_of_read {line : String} {l : Line} {v : Value}
    (h : read defaults marks line = .ok l) (hv : v ∈ l.args) (htype : v.type = TypeName.number) :
    ∃ text, v.literal = some (.ofList text) ∧
      (IsNumeral text v.datum ∨ EndsForeign text v.datum) := by
  obtain ⟨word, rest, c, cs, type, scratch, u, rfl, -, hclaims, hcloses, hparse, herror, rfl⟩ :=
    isArgument_of_read h hv
  obtain rfl := eq_number_of_parse hclaims.mem hparse htype
  refine ⟨trim (c :: cs), by simp [strip], ?_⟩
  have hnumber : parseNumber (.ofList (c :: cs)) = .ok u := parse_number_eq_ok_iff.mp hparse
  obtain ⟨hc, -⟩ : (c ∈ numerals ∨ c = '-') ∧ {} = scratch := by
    simpa [number, Lexis.ofClasses] using hclaims.begins
  rcases parseNumber_eq_ok_iff.mp ⟨hnumber, herror⟩ with ⟨-, rfl⟩ | ⟨d, hd, rfl⟩
  · exact absurd htype (by simp [TypeName.symbol, TypeName.number])
  · rw [String.toList_ofList] at hd
    rcases closes_number_cases hcloses with hcs | ⟨init, last, rfl, hinit, hlast⟩
    · left
      have hchars : ∀ x ∈ c :: cs, x ∈ numerals ∨ x = '-' :=
        List.forall_mem_cons.mpr ⟨hc, fun x hx => Or.inl (hcs x hx)⟩
      rw [trim_eq_self_of_forall fun x hx => isBlank_of_numeral (hchars x hx)] at hd ⊢
      rwa [map_commonDigit_numerals hchars] at hd
    · have hchars : ∀ x ∈ c :: init, x ∈ numerals ∨ x = '-' :=
        List.forall_mem_cons.mpr ⟨hc, fun x hx => Or.inl (hinit x hx)⟩
      exact isNumeral_or_endsForeign (List.cons_ne_nil c init) hchars hlast hd

/-! ### Every such text is read -/

theorem spans_foreign {text : List Char} {d : Datum} (h : EndsForeign text d) :
    Spans {} number text := by
  obtain ⟨body, last, rfl, hne, hforeign, hdigit, hnumeral⟩ := h
  obtain ⟨c, cs, rfl⟩ := List.exists_cons_of_ne_nil hne
  obtain ⟨hc, hcs⟩ := hnumeral.cons
  have hlast : last ∉ numerals := not_mem_numerals hforeign hdigit
  have hkept : ({} : Marks).separates last = false := by
    rw [Bool.eq_false_iff, Ne, separates_default_iff]
    rintro (rfl | rfl) <;> exact absurd hdigit (by decide)
  refine ⟨c, cs ++ [last], _, rfl, separates_of_numeral hc, claims_number hc, fun rest hrest => ?_⟩
  refine closes_ofClasses_last rfl ?_ (by simpa using hlast) hkept hrest
  intro x hx
  simpa using hcs x (List.mem_append_left _ hx)

theorem EndsForeign.map_commonDigit {text : List Char} {d : Datum} (h : EndsForeign text d) :
    IsNumeral (text.map commonDigit) d := by
  obtain ⟨body, last, rfl, hne, -, -, hnumeral⟩ := h
  have hmap := hnumeral.map_commonDigit
  rw [List.map_append] at hmap
  rw [List.map_append, (List.append_inj' hmap rfl).1]
  exact hnumeral

theorem EndsForeign.trim_eq {text : List Char} {d : Datum} (h : EndsForeign text d) :
    trim text = text := by
  obtain ⟨body, last, rfl, -, -, hdigit, hnumeral⟩ := h
  refine trim_eq_self_of_forall ?_
  intro c hc
  rcases List.mem_append.mp hc with hc | hc
  · exact isBlank_of_numeral (hnumeral.chars c (List.mem_append_left _ hc))
  · rw [List.mem_singleton.mp hc]
    exact isBlank_of_isDecimalDigit hdigit

/-- A number, or one with its last digit in another script, is read as an argument. -/
theorem read_number {text : List Char} {d : Datum} (hspans : Spans {} number text)
    (htrim : trim text = text) (hd : IsNumeral (text.map commonDigit) d) :
    read defaults {} (.ofList (['C'] ++ joined [⟨[' '], text⟩] [])) =
      .ok ⟨"C", [⟨TypeName.number, d, some (.ofList text)⟩]⟩ := by
  have hword : IsCommandWord ['C'] := isCommandWord_of_isNameChar (by simp) (by decide)
  have hne : text ≠ [] := by
    rintro rfl
    obtain ⟨c, hc, -⟩ := hd.exists_digit
    cases hc
  have hparse : parseNumber (.ofList text) = .ok ⟨TypeName.number, d, none⟩ := by
    refine (parseNumber_eq_ok_iff.mpr (Or.inr ⟨d, ?_, rfl⟩)).1
    rwa [String.toList_ofList, htrim]
  have hrest : ({} : Marks).Separated [' '] := ⟨' ', [], rfl, rfl⟩
  have hgap : ∀ c ∈ [' '], ({} : Marks).separates c = true := by decide
  have hargument := isArgument_of_spans hspans hrest (parse_number_eq_ok_iff.mpr hparse) rfl
  rw [strip_ofList htrim] at hargument
  exact read_joined hword (by simpa using ⟨hne, htrim⟩)
    (.next (by simp) hgap hargument (.none hgap))

/-- **The numbers of lines.**  A text stands in some line as a number exactly when it is a number of
the grammar, or one whose last digit is written in another script; and it is never both.  The number
is what the grammar says of the text with common digits. -/
theorem number_iff (text : List Char) (d : Datum) :
    ((∃ line l v, read defaults {} line = .ok l ∧ v ∈ l.args ∧ v.type = TypeName.number ∧
        v.literal = some (.ofList text) ∧ v.datum = d) ↔
      IsNumeral text d ∨ EndsForeign text d) ∧
    ¬ (IsNumeral text d ∧ EndsForeign text d) := by
  refine ⟨⟨?_, ?_⟩, fun ⟨hnumeral, hforeign⟩ => hforeign.not_isNumeral hnumeral⟩
  · rintro ⟨line, l, v, hread, hv, htype, hliteral, rfl⟩
    obtain ⟨text', hliteral', h⟩ := number_of_read hread hv htype
    rw [hliteral] at hliteral'
    obtain rfl : text = text' := String.ofList_injective (Option.some.inj hliteral')
    exact h
  · rintro (h | h)
    · have hd : IsNumeral (text.map commonDigit) d := by rwa [h.map_commonDigit]
      exact ⟨_, _, _, read_number (spans_number h) h.trim_eq hd,
        List.mem_singleton_self _, rfl, rfl, rfl⟩
    · exact ⟨_, _, _, read_number (spans_foreign h) h.trim_eq h.map_commonDigit,
        List.mem_singleton_self _, rfl, rfl, rfl⟩

/-- An Arabic three closes a number that began with a common one. -/
theorem number_of_two_scripts :
    ∃ l v, read defaults {} "C 1٣" = .ok l ∧ v ∈ l.args ∧ v.type = TypeName.number ∧
      v.literal = some "1٣" ∧ ∀ d, ¬ IsNumeral "1٣".toList d := by
  have hzero : zeros.find? (fun z => z ≤ '٣'.toNat && '٣'.toNat < z + 10) = some 1632 := by decide
  have hvalue : digitValue? '٣' = some 3 := by
    rw [digitValue?, hzero]
    rfl
  have hcommon : commonDigit '٣' = '3' := by
    rw [commonDigit, hvalue]
    rfl
  have hthirteen : IsNumeral ['1', '3'] (.whole 13) := by
    refine ⟨.whole false ['1', '3'], ⟨by simp, by decide, by simp [digitLimit]⟩, rfl, rfl, ?_⟩
    have hwhole : wholeOf ['1', '3'] = 13 := by decide
    rw [Literal.Means, hwhole]
    rfl
  have hforeign : EndsForeign ['1', '٣'] (.whole 13) := by
    refine ⟨['1'], '٣', rfl, by simp, by decide, ?_, ?_⟩
    · rw [isDecimalDigit, hvalue]
      rfl
    · rw [hcommon]
      exact hthirteen
  have hread := read_number (spans_foreign hforeign) hforeign.trim_eq hforeign.map_commonDigit
  exact ⟨_, _, hread, List.mem_singleton_self _, rfl, rfl, fun d => hforeign.not_isNumeral⟩

end CommandBatch.Line
