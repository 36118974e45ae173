import CommandBatch.Proofs.Outcome
import CommandBatch.Proofs.Text.Letters
import CommandBatch.Proofs.Token.Numeral

/-!
# The meaning of literals

Each literal has a type that reads it, and this type makes of its text what the literal denotes.
The operators that begin with a minus sign are read as numbers are.
-/

namespace CommandBatch.Token

open Text Decimal

/-! ### Numbers -/

/-- A number is a sign or none, and digits and points. -/
theorem IsNumeral.exists_signed {text : List Char} {d : Datum} (h : IsNumeral text d) :
    ∃ negative body, text = minus negative ++ body ∧ ∀ c ∈ body, c ∈ numerals := by
  obtain ⟨l, hwell, htype, rfl, -⟩ := h
  cases l with
  | whole negative digits =>
    exact ⟨negative, digits, rfl, fun c hc => mem_numerals_iff.mpr (Or.inr (hwell.2.1 c hc))⟩
  | decimal negative units fraction =>
    refine ⟨negative, units ++ '.' :: fraction, rfl, ?_⟩
    intro c hc
    rw [mem_numerals_iff]
    rcases List.mem_append.mp hc with hc | hc
    · exact Or.inr (hwell.2.1 c hc)
    · rcases List.mem_cons.mp hc with rfl | hc
      · exact Or.inl rfl
      · exact Or.inr (hwell.2.2 c hc)
  | _ =>
    simp [Literal.type, TypeName.number, TypeName.symbol, TypeName.bool, TypeName.string,
      TypeName.reference] at htype

theorem IsNumeral.chars {text : List Char} {d : Datum} (h : IsNumeral text d) :
    ∀ c ∈ text, c ∈ numerals ∨ c = '-' := by
  obtain ⟨negative, body, rfl, hbody⟩ := h.exists_signed
  intro c hc
  rcases List.mem_append.mp hc with hc | hc
  · exact Or.inr (mem_minus hc)
  · exact Or.inl (hbody c hc)

/-- The sign stands in front or not at all. -/
theorem IsNumeral.cons {c : Char} {cs : List Char} {d : Datum} (h : IsNumeral (c :: cs) d) :
    (c ∈ numerals ∨ c = '-') ∧ ∀ x ∈ cs, x ∈ numerals := by
  obtain ⟨negative, body, he, hbody⟩ := h.exists_signed
  cases negative with
  | true =>
    obtain ⟨rfl, rfl⟩ := List.cons.inj he
    exact ⟨Or.inr rfl, hbody⟩
  | false =>
    obtain rfl : c :: cs = body := he
    obtain ⟨hc, hcs⟩ := List.forall_mem_cons.mp hbody
    exact ⟨Or.inl hc, hcs⟩

/-- No number has a margin. -/
theorem IsNumeral.trim_eq {text : List Char} {d : Datum} (h : IsNumeral text d) :
    trim text = text :=
  trim_eq_self_of_forall fun c hc => isBlank_of_numeral (h.chars c hc)

theorem IsNumeral.exists_digit {text : List Char} {d : Datum} (h : IsNumeral text d) :
    ∃ c ∈ text, c.isDigit = true := by
  obtain ⟨l, hwell, htype, rfl, -⟩ := h
  cases l with
  | whole negative digits =>
    obtain ⟨c, cs, rfl⟩ := List.exists_cons_of_ne_nil hwell.1
    exact ⟨c, by simp [Literal.text], hwell.2.1 c (List.mem_cons_self ..)⟩
  | decimal negative units fraction =>
    rcases hwell.1 with hne | hne
    · obtain ⟨c, cs, rfl⟩ := List.exists_cons_of_ne_nil hne
      exact ⟨c, by simp [Literal.text], hwell.2.1 c (List.mem_cons_self ..)⟩
    · obtain ⟨c, cs, rfl⟩ := List.exists_cons_of_ne_nil hne
      exact ⟨c, by simp [Literal.text], hwell.2.2 c (List.mem_cons_self ..)⟩
  | _ =>
    simp [Literal.type, TypeName.number, TypeName.symbol, TypeName.bool, TypeName.string,
      TypeName.reference] at htype

theorem IsNumeral.map_commonDigit {text : List Char} {d : Datum} (h : IsNumeral text d) :
    text.map commonDigit = text :=
  map_commonDigit_numerals h.chars

theorem isDecimalDigit_of_mem_operators :
    ∀ op ∈ operators, ∀ c ∈ op.toList, isDecimalDigit c = false := by decide

/-- What the type of numbers makes of a text: an operator is a symbol, and a number of the grammar,
once its digits are common ones, is a number. -/
theorem parseNumber_eq_ok_iff {literal : String} {v : Value} :
    parseNumber literal = .ok v ∧ v.isError = false ↔
      (strip literal ∈ operators ∧ v = ⟨TypeName.symbol, .text (strip literal), none⟩) ∨
        ∃ d, IsNumeral ((trim literal.toList).map commonDigit) d ∧
          v = ⟨TypeName.number, d, none⟩ := by
  by_cases hop : strip literal ∈ operators
  · have hparse : parseNumber literal = .ok ⟨TypeName.symbol, .text (strip literal), none⟩ := by
      simp [parseNumber, hop]
    -- a number holds a digit, and no operator does
    have hnot : ∀ d, ¬ IsNumeral ((trim literal.toList).map commonDigit) d := by
      intro d h
      obtain ⟨c, hc, hdigit⟩ := h.exists_digit
      obtain ⟨b, hb, rfl⟩ := List.mem_map.mp hc
      have hfalse := isDecimalDigit_of_mem_operators _ hop b (by simpa using hb)
      rw [← isDecimalDigit_commonDigit, isDecimalDigit_of_isDigit hdigit] at hfalse
      cases hfalse
    constructor
    · rintro ⟨h, -⟩
      rw [hparse] at h
      cases h
      exact Or.inl ⟨hop, rfl⟩
    · rintro (⟨-, rfl⟩ | ⟨d, hd, -⟩)
      · exact ⟨hparse, rfl⟩
      · exact absurd hd (hnot d)
  · have hparse : parseNumber literal =
        (numeral? (trim literal.toList)).map fun r =>
          r.elim (.refused (strip literal)) (⟨TypeName.number, ·, none⟩) := by
      simp only [parseNumber, List.contains_iff_mem, hop, toList_strip]
      cases numeral? (trim literal.toList) with
      | error e => rfl
      | ok r => cases r <;> rfl
    constructor
    · rintro ⟨h, herror⟩
      rw [hparse] at h
      obtain ⟨r, hnumeral, rfl⟩ := map_eq_ok_iff.mp h
      cases r with
      | none => cases herror
      | some d => exact Or.inr ⟨d, numeral?_eq_ok_iff.mp hnumeral, rfl⟩
    · rintro (⟨h, -⟩ | ⟨d, hd, rfl⟩)
      · exact absurd h hop
      · rw [hparse, numeral?_eq_ok_iff.mpr hd]
        exact ⟨rfl, rfl⟩

theorem parse_number_eq_ok_iff {literal : String} {v : Value} :
    number.lexis.parse literal = .ok (.value v) ↔ parseNumber literal = .ok v := by
  cases h : parseNumber literal <;> simp [number, Lexis.ofClasses, h]

/-! ### Words for truth values -/

/-- The letters of the words for truth values. -/
def truthLetters : List Char := ['t', 'r', 'u', 'e', 'f', 'a', 'l', 's']

theorem mem_truthLetters {b : Bool} {word : List Char} (h : word ∈ truthWords b) :
    ∀ c ∈ word, c ∈ truthLetters := by
  revert word
  cases b <;> decide

/-- A letter has two cases only. -/
theorem eq_or_eq_toUpper (c : Char) : c = c.toLower ∨ c = c.toLower.toUpper := by
  have hcapital : ∀ c ∈ asciiCapitals, c = c.toLower.toUpper := by decide
  rcases toLower_cases c with hself | hmem
  · exact .inl hself.symm
  · exact .inr (hcapital c hmem)

theorem truthLetters_upperChar :
    ∀ l ∈ truthLetters, upperChar l = [l.toUpper] ∧ upperChar l.toUpper = [l.toUpper] ∧
      isBlank l = false ∧ isBlank l.toUpper = false := by
  decide

theorem upperList_eq_map {word : List Char} (h : ∀ c ∈ word, c.toLower ∈ truthLetters) :
    upperList word = (word.map Char.toLower).map Char.toUpper := by
  induction word with
  | nil => rfl
  | cons c cs ih =>
    obtain ⟨hc, hcs⟩ := List.forall_mem_cons.mp h
    obtain ⟨hsmall, hlarge, -⟩ := truthLetters_upperChar _ hc
    rw [upperList_cons, ih hcs, List.map_cons, List.map_cons]
    rcases eq_or_eq_toUpper c with he | he
    · rw [← he] at hsmall
      rw [hsmall, ← he]
      rfl
    · rw [← he] at hlarge
      rw [hlarge, ← he]
      rfl

theorem parseBool_word {b : Bool} {word : List Char} (hword : word.map Char.toLower ∈ truthWords b)
    (htrim : trim word = word) : parseBool (.ofList word) = ⟨TypeName.bool, .bool b, none⟩ := by
  have hupper : upperList word = (word.map Char.toLower).map Char.toUpper :=
    upperList_eq_map fun c hc => mem_truthLetters hword _ (List.mem_map_of_mem hc)
  rw [parseBool, strip_ofList htrim, upper, String.toList_ofList, hupper]
  generalize word.map Char.toLower = small at hword
  have htrue : ∀ small ∈ truthWords true, String.ofList (small.map Char.toUpper) = "T" ∨
      String.ofList (small.map Char.toUpper) = "TRUE" := by decide
  have hfalse : ∀ small ∈ truthWords false,
      ¬ (String.ofList (small.map Char.toUpper) = "T" ∨
        String.ofList (small.map Char.toUpper) = "TRUE") ∧
      (String.ofList (small.map Char.toUpper) = "F" ∨
        String.ofList (small.map Char.toUpper) = "FALSE") := by decide
  cases b with
  | true => exact if_pos (htrue small hword)
  | false => exact (if_neg (hfalse small hword).1).trans (if_pos (hfalse small hword).2)

/-! ### Strings -/

theorem isQuote_iff {c : Char} : isQuote c = true ↔ c = '"' ∨ c = '\'' := by
  simp [isQuote]

theorem unescape_flatMap_text {quote : Char} {inside : List Glyph}
    (h : ∀ g ∈ inside, g.Fits quote) :
    unescape (inside.flatMap Glyph.text) = inside.map Glyph.meaning := by
  induction inside with
  | nil => rfl
  | cons g inside ih =>
    obtain ⟨hg, hinside⟩ := List.forall_mem_cons.mp h
    rw [List.flatMap_cons, List.map_cons, ← ih hinside]
    cases g with
    | plain c =>
      rw [Glyph.text, List.singleton_append, unescape]
      · rfl
      · rintro d ds hd -
        exact hg.2 hd
    | escape c => rfl

theorem insideQuotes?_eq_some {quote : Char} {inside : List Char} (h : isQuote quote = true) :
    insideQuotes? (quote :: (inside ++ [quote])) = some inside := by
  obtain ⟨c, cs, hcs⟩ := List.exists_cons_of_ne_nil (l := inside ++ [quote]) (by simp)
  rw [hcs, insideQuotes?, ← hcs]
  simp [h]

theorem parseString_quoted {quote : Char} {inside : List Glyph} (hquote : isQuote quote = true)
    (hinside : ∀ g ∈ inside, g.Fits quote)
    (htrim : trim (quote :: (inside.flatMap Glyph.text ++ [quote])) =
      quote :: (inside.flatMap Glyph.text ++ [quote])) :
    parseString (.ofList (quote :: (inside.flatMap Glyph.text ++ [quote]))) =
      ⟨TypeName.string, .text (.ofList (inside.map Glyph.meaning)), none⟩ := by
  rw [parseString, strip_ofList htrim]
  simp only [String.toList_ofList, insideQuotes?_eq_some hquote, unescape_flatMap_text hinside]

/-! ### References -/

theorem isBlank_of_isNameChar {c : Char} (h : isNameChar c = true) : isBlank c = false := by
  have hrange : (97 ≤ c.toNat ∧ c.toNat ≤ 122) ∨ (65 ≤ c.toNat ∧ c.toNat ≤ 90) ∨
      (48 ≤ c.toNat ∧ c.toNat ≤ 57) ∨ c.toNat = 95 := by
    simp only [isNameChar, Bool.or_eq_true, Bool.and_eq_true, decide_eq_true_eq, Char.le_def,
      UInt32.le_iff_toNat_le] at h
    rcases h with ((h | h) | h) | rfl
    · exact Or.inl h
    · exact Or.inr (Or.inl h)
    · exact Or.inr (Or.inr (Or.inl h))
    · exact Or.inr (Or.inr (Or.inr rfl))
  simp [isBlank]
  omega

theorem parseReference_name {name : List Char} (hne : name ≠ [])
    (hname : ∀ c ∈ name, isNameChar c = true) (htrim : trim (sigil :: name) = sigil :: name) :
    parseReference (.ofList (sigil :: name)) =
      ⟨TypeName.reference, .text (.ofList (sigil :: name)), none⟩ := by
  have hreference : isReference (sigil :: name) = true := by
    simpa [isReference] using And.intro hne hname
  rw [parseReference, strip_ofList htrim]
  simp only [String.toList_ofList, hreference]
  rfl

/-! ### Literals -/

namespace Literal

/-- The type that reads a literal. -/
def reader : Literal → TokenType
  | whole .. | decimal .. => number
  | operator symbol => if symbol.toList.head? = some '-' then number else Token.symbol
  | truth .. => bool
  | quoted .. => string
  | reference _ => Token.reference

/-- Every literal denotes something. -/
theorem WellFormed.exists_means {l : Literal} (h : l.WellFormed) : ∃ d, l.Means d := by
  cases l with
  | decimal negative units fraction =>
    exact ⟨_, _, readFloat_pointed h.1 h.2.1 h.2.2, rfl⟩
  | _ => exact ⟨_, rfl⟩

theorem WellFormed.isNumeral {l : Literal} (h : l.WellFormed) (htype : l.type = TypeName.number) :
    ∃ d, IsNumeral l.text d ∧ l.Means d := by
  obtain ⟨d, hd⟩ := h.exists_means
  exact ⟨d, ⟨l, h, htype, rfl, hd⟩, hd⟩

/-- No literal has a margin. -/
theorem WellFormed.trim_text {l : Literal} (h : l.WellFormed) : trim l.text = l.text := by
  cases l with
  | whole =>
    obtain ⟨d, hd, -⟩ := h.isNumeral rfl
    exact hd.trim_eq
  | decimal =>
    obtain ⟨d, hd, -⟩ := h.isNumeral rfl
    exact hd.trim_eq
  | operator symbol =>
    have hoperators : ∀ op ∈ operators, trim op.toList = op.toList := by decide
    exact hoperators symbol h
  | truth b word =>
    refine trim_eq_self_of_forall ?_
    intro c hc
    have hlower := mem_truthLetters h.1 _ (List.mem_map_of_mem hc)
    obtain ⟨-, -, hsmall, hlarge⟩ := truthLetters_upperChar _ hlower
    rcases eq_or_eq_toUpper c with he | he
    · rwa [← he] at hsmall
    · rwa [← he] at hlarge
  | quoted quote inside =>
    have hquote : isBlank quote = false := by
      rcases isQuote_iff.mp h.1 with rfl | rfl <;> rfl
    refine trim_eq_self_iff.mpr ⟨?_, ?_⟩
    · simp [text, hquote]
    · simp [text, List.getLast?_cons, hquote]
  | reference name =>
    refine trim_eq_self_of_forall ?_
    intro c hc
    rcases List.mem_cons.mp hc with rfl | hc
    · decide
    · exact isBlank_of_isNameChar (h.2 c hc)

/-- The type that reads a literal makes of its text what it denotes. -/
theorem WellFormed.parse {l : Literal} (h : l.WellFormed) :
    ∃ u, l.reader.lexis.parse (.ofList l.text) = .ok (.value u) ∧ u.type = l.type ∧
      l.Means u.datum := by
  have hstrip := strip_ofList h.trim_text
  have hnumeral : l.reader = number → l.type = TypeName.number →
      ∃ u, l.reader.lexis.parse (.ofList l.text) = .ok (.value u) ∧ u.type = l.type ∧
        l.Means u.datum := by
    intro hreader htype
    obtain ⟨d, hd, hmeans⟩ := h.isNumeral htype
    rw [hreader, htype]
    have hparse : parseNumber (.ofList l.text) = .ok ⟨TypeName.number, d, none⟩ := by
      refine (parseNumber_eq_ok_iff.mpr (Or.inr ⟨d, ?_, rfl⟩)).1
      rwa [String.toList_ofList, h.trim_text, hd.map_commonDigit]
    exact ⟨⟨TypeName.number, d, none⟩, parse_number_eq_ok_iff.mpr hparse, rfl, hmeans⟩
  cases l with
  | whole => exact hnumeral rfl rfl
  | decimal => exact hnumeral rfl rfl
  | operator symbol =>
    have hof : String.ofList (text (operator symbol)) = symbol := by
      rw [text, String.ofList_toList]
    rw [hof] at hstrip ⊢
    refine ⟨⟨TypeName.symbol, .text symbol, none⟩, ?_, rfl, rfl⟩
    rw [reader]
    split
    · refine parse_number_eq_ok_iff.mpr (parseNumber_eq_ok_iff.mpr (Or.inl ⟨?_, ?_⟩)).1
      · rwa [hstrip]
      · rw [hstrip]
    · have hmem : symbol ∈ operators := h
      simp [Token.symbol, Lexis.ofClasses, parseSymbol, hstrip, hmem]
  | truth b word =>
    refine ⟨⟨TypeName.bool, .bool b, none⟩, ?_, rfl, rfl⟩
    simp only [reader, bool, Lexis.ofClasses, text, parseBool_word h.1 h.trim_text]
  | quoted quote inside =>
    refine ⟨⟨TypeName.string, .text (.ofList (inside.map Glyph.meaning)), none⟩, ?_, rfl, rfl⟩
    simp only [reader, string, text, parseString_quoted h.1 h.2 h.trim_text]
  | reference name =>
    refine ⟨⟨TypeName.reference, .text (.ofList (sigil :: name)), none⟩, ?_, rfl, rfl⟩
    simp only [reader, Token.reference, Lexis.ofClasses, text,
      parseReference_name h.1 h.2 h.trim_text]

end Literal

end CommandBatch.Token
