import CommandBatch.Proofs.Line.Segmentation
import CommandBatch.Proofs.Token.Meaning

/-!
# Lines of literals

Behind a command word, any literals with spaces or tabs in front of them are read, each as what it
denotes (`read_literals`).  For this, each literal is shown to be an argument: the type that reads
it is the first to claim its first character, and the literal goes up to the first character that
ends it.  A string and an operator behind a minus sign are closed by a character of their own, the
other literals by the separator behind them.
-/

namespace CommandBatch.Line

open Text Token Decimal

/-! ### The ends of literals -/

theorem separates_default_iff {c : Char} :
    ({} : Marks).separates c = true ↔ c = ' ' ∨ c = '\t' := by
  simp [Marks.separates]

/-- Tokens told by their characters alone go up to the next separator, when no character of theirs
ends them and every separator does. -/
theorem closes_ofClasses {marks : Marks} {type : TokenType} {begins ends : Char → Bool}
    {parse : String → Except Fault Reading} (htype : type.lexis = .ofClasses begins ends parse)
    {s : Scratch} {cs rest : List Char} (hcs : ∀ c ∈ cs, ends c = false)
    (hends : ∀ c, marks.separates c = true → ends c = true) (hrest : marks.Separated rest) :
    Closes marks type s cs rest := by
  induction cs with
  | nil =>
    obtain ⟨c, rest, rfl, hc⟩ := hrest
    have hend : type.lexis.ends c s = .ok (true, s) := by
      simp [htype, Lexis.ofClasses, hends c hc]
    exact .dropped hend hc
  | cons c cs ih =>
    obtain ⟨hc, hcs⟩ := List.forall_mem_cons.mp hcs
    have hgoes : type.lexis.ends c s = .ok (false, s) := by
      simp [htype, Lexis.ofClasses, hc]
    exact .goesOn hgoes (ih hcs)

/-- Such a token may also be closed by a character of its own. -/
theorem closes_ofClasses_last {marks : Marks} {type : TokenType} {begins ends : Char → Bool}
    {parse : String → Except Fault Reading} (htype : type.lexis = .ofClasses begins ends parse)
    {s : Scratch} {cs rest : List Char} {last : Char} (hcs : ∀ c ∈ cs, ends c = false)
    (hlast : ends last = true) (hkept : marks.separates last = false)
    (hrest : marks.Separated rest) : Closes marks type s (cs ++ [last]) rest := by
  induction cs with
  | nil =>
    obtain ⟨c, rest, rfl, hc⟩ := hrest
    have hends : type.lexis.ends last s = .ok (true, s) := by simp [htype, Lexis.ofClasses, hlast]
    exact .kept hends hkept hc
  | cons c cs ih =>
    obtain ⟨hc, hcs⟩ := List.forall_mem_cons.mp hcs
    have hgoes : type.lexis.ends c s = .ok (false, s) := by simp [htype, Lexis.ofClasses, hc]
    exact .goesOn hgoes (ih hcs)

/-- There is no other way in which such a token ends. -/
theorem closes_ofClasses_cases {marks : Marks} {type : TokenType} {begins ends : Char → Bool}
    {parse : String → Except Fault Reading} (htype : type.lexis = .ofClasses begins ends parse)
    {s : Scratch} {cs rest : List Char} (h : Closes marks type s cs rest) :
    (∀ c ∈ cs, ends c = false) ∨
      ∃ init last, cs = init ++ [last] ∧ (∀ c ∈ init, ends c = false) ∧ ends last = true ∧
        marks.separates last = false := by
  have hlexis : ∀ {c : Char} {s s' : Scratch} {b : Bool}, type.lexis.ends c s = .ok (b, s') →
      ends c = b := by
    intro c s s' b hends
    rw [htype] at hends
    exact congrArg Prod.fst (Except.ok.inj hends)
  induction h with
  | dropped _ _ => exact Or.inl (by simp)
  | @kept c _ _ _ _ hends hc _ => exact Or.inr ⟨[], c, rfl, by simp, hlexis hends, hc⟩
  | @goesOn c _ _ word _ hends _ ih =>
    have hgoes : ends c = false := hlexis hends
    rcases ih with hword | ⟨init, last, rfl, hinit, hlast⟩
    · exact Or.inl (List.forall_mem_cons.mpr ⟨hgoes, hword⟩)
    · exact Or.inr ⟨c :: init, last, rfl, List.forall_mem_cons.mpr ⟨hgoes, hinit⟩, hlast⟩

/-- The text inside a string and the quote behind it. -/
theorem closes_string {marks : Marks} {quote : Char} {inside : List Glyph}
    (hquote : isQuote quote = true) (hkept : marks.separates quote = false)
    (hinside : ∀ g ∈ inside, g.Fits quote) {s : Scratch} (hs : s.quote = some quote)
    (hescape : s.escape = false) {rest : List Char} (hrest : marks.Separated rest) :
    Closes marks string s (inside.flatMap Glyph.text ++ [quote]) rest := by
  have hslash : quote ≠ '\\' := by
    rintro rfl
    cases hquote
  -- behind each character of the inside the scratch holds the quote and no escape, as in front
  induction inside generalizing s with
  | nil =>
    obtain ⟨c, rest, rfl, hc⟩ := hrest
    have hend : string.lexis.ends quote s = .ok (true, s) := by
      simp [string, stringEnds, hescape, hslash, hs]
    exact .kept hend hkept hc
  | cons g inside ih =>
    obtain ⟨hg, hothers⟩ := List.forall_mem_cons.mp hinside
    rw [List.flatMap_cons, List.append_assoc]
    cases g with
    | plain c =>
      obtain ⟨hc, hc'⟩ := hg
      have hgoes : string.lexis.ends c s = .ok (false, s) := by
        simp [string, stringEnds, hescape, hc', hs, Ne.symm hc]
      exact .goesOn hgoes (ih hothers hs hescape)
    | escape c =>
      have hgoes : string.lexis.ends '\\' s = .ok (false, { s with escape := true }) := by
        simp [string, stringEnds, hescape]
      have hgoes' : string.lexis.ends c { s with escape := true } =
          .ok (false, { s with escape := false }) := by
        simp [string, stringEnds]
      exact .goesOn hgoes (.goesOn hgoes' (ih hothers hs rfl))

/-! ### Literals are arguments -/

/-- A word for a truth value begins with one of the letters that its type begins with. -/
theorem cons_of_truthWord {b : Bool} {word : List Char} (hword : word.map Char.toLower ∈ truthWords b)
    (hhead : word.head? = (word.map Char.toLower).head?) :
    ∃ c cs, word = c :: cs ∧ (c = 't' ∨ c = 'f') := by
  have hheads : ∀ small ∈ truthWords b, small.head? = some 't' ∨ small.head? = some 'f' := by
    cases b <;> decide
  have hletter := hheads _ hword
  rw [← hhead] at hletter
  cases word with
  | nil => simp at hletter
  | cons c cs => exact ⟨c, cs, rfl, by simpa using hletter⟩

/-- No letter of a word for a truth value ends it. -/
theorem ends_bool_of_mem {b : Bool} {word : List Char} (hword : word.map Char.toLower ∈ truthWords b)
    {c : Char} (hc : c ∈ word) : (decide (c = ' ') || decide (c = '\t')) = false := by
  have hlower := mem_truthLetters hword c.toLower (List.mem_map_of_mem hc)
  have hspace : c ≠ ' ' ∧ c ≠ '\t' := by
    constructor <;> rintro rfl <;> revert hlower <;> decide
  simp [hspace]

theorem claims_number {c : Char} (h : c ∈ numerals ∨ c = '-') : Claims defaults c number {} := by
  refine ⟨[], [Token.bool, Token.symbol, string, Token.reference], rfl, by simp, ?_⟩
  simpa [number, Lexis.ofClasses] using h

theorem claims_symbol {c : Char} (h : c ∈ symbolChars) (hminus : c ≠ '-') :
    Claims defaults c Token.symbol {} := by
  have hothers : ∀ c ∈ symbolChars, c ≠ '-' → c ∉ numerals ∧ c ≠ 't' ∧ c ≠ 'f' := by decide
  obtain ⟨hnumeral, ht, hf⟩ := hothers c h hminus
  refine ⟨[number, Token.bool], [string, Token.reference], rfl, ?_, ?_⟩
  · simp [number, Token.bool, Lexis.ofClasses, hnumeral, hminus, ht, hf]
  · simp [Token.symbol, Lexis.ofClasses, h]

theorem claims_bool {c : Char} (h : c = 't' ∨ c = 'f') : Claims defaults c Token.bool {} := by
  have hclaim : claim defaults c 0 = .ok (Token.bool, {}) := by rcases h with rfl | rfl <;> rfl
  exact claim_eq_ok_iff.mp hclaim

theorem claims_string {c : Char} (h : isQuote c = true) :
    Claims defaults c string { quote := some c } := by
  have hclaim : claim defaults c 0 = .ok (string, { quote := some c }) := by
    rcases isQuote_iff.mp h with rfl | rfl <;> rfl
  exact claim_eq_ok_iff.mp hclaim

theorem claims_reference : Claims defaults sigil Token.reference {} := by
  have hclaim : claim defaults sigil 0 = .ok (Token.reference, {}) := rfl
  exact claim_eq_ok_iff.mp hclaim

theorem separates_of_numeral {c : Char} (h : c ∈ numerals ∨ c = '-') :
    ({} : Marks).separates c = false := by
  have hnumerals : ∀ c ∈ numerals, ({} : Marks).separates c = false := by decide
  rcases h with h | rfl
  · exact hnumerals c h
  · rfl

/-- A character without a meaning in literals: no number, symbol, word or name holds it, no string or
name begins with it, and it escapes nothing. -/
structure IsFree (c : Char) : Prop where
  numeral : c ∉ numerals
  symbol : c ∉ symbolChars
  name : isNameChar c = false
  quote : isQuote c = false
  backslash : c ≠ '\\'
  sigil : c ≠ sigil

/-- No separator has a meaning in literals. -/
def FreeMarks (marks : Marks) : Prop := ∀ c, marks.separates c = true → IsFree c

theorem freeMarks_default : FreeMarks {} := by
  intro c hc
  rcases separates_default_iff.mp hc with rfl | rfl <;> constructor <;> decide

/-- `type` claims the first character of a text, and the text goes up to the next separator. -/
def Spans (marks : Marks) (type : TokenType) (text : List Char) : Prop :=
  ∃ c cs scratch, text = c :: cs ∧ marks.separates c = false ∧ Claims defaults c type scratch ∧
    ∀ rest, marks.Separated rest → Closes marks type scratch cs rest

namespace FreeMarks

variable {marks : Marks}

theorem separates_eq_false (hfree : FreeMarks marks) {c : Char} (h : ¬IsFree c) :
    marks.separates c = false := by
  rw [Bool.eq_false_iff]
  exact fun hc => h (hfree c hc)

theorem spans_number (hfree : FreeMarks marks) {text : List Char} {d : Datum}
    (h : IsNumeral text d) : Spans marks number text := by
  cases text with
  | nil =>
    obtain ⟨c, hc, -⟩ := h.exists_digit
    cases hc
  | cons c cs =>
    obtain ⟨hc, hcs⟩ := h.cons
    have hkept : ¬IsFree c := fun hc' => hc.elim hc'.numeral fun he => hc'.symbol (he ▸ by decide)
    refine ⟨c, cs, _, rfl, hfree.separates_eq_false hkept, claims_number hc, fun _ hrest => ?_⟩
    refine closes_ofClasses rfl ?_ ?_ hrest
    · intro d hd
      simpa using hcs d hd
    · intro d hd
      simpa using (hfree d hd).numeral

/-- The operators behind a minus sign are read as numbers are, and the equality sign closes one. -/
theorem spans_minus (hfree : FreeMarks marks) {op : String} (h : op = "-" ∨ op = "-=") :
    Spans marks number op.toList := by
  have hminus : marks.separates '-' = false :=
    hfree.separates_eq_false fun hc => hc.symbol (by decide)
  have hequals : marks.separates '=' = false :=
    hfree.separates_eq_false fun hc => hc.symbol (by decide)
  have hends : ∀ c, marks.separates c = true → (!numerals.contains c) = true := by
    intro c hc
    simpa using (hfree c hc).numeral
  rcases h with rfl | rfl
  · exact ⟨'-', [], _, rfl, hminus, claims_number (Or.inr rfl), fun _ =>
      closes_ofClasses rfl (by simp) hends⟩
  · exact ⟨'-', ['='], _, rfl, hminus, claims_number (Or.inr rfl), fun _ =>
      closes_ofClasses_last rfl (List.forall_mem_nil _) (by decide) hequals⟩

theorem spans_symbol (hfree : FreeMarks marks) {text : List Char} (hne : text ≠ [])
    (htext : ∀ c ∈ text, c ∈ symbolChars) (hminus : text.head? ≠ some '-') :
    Spans marks Token.symbol text := by
  obtain ⟨c, cs, rfl⟩ := List.exists_cons_of_ne_nil hne
  obtain ⟨hc, hcs⟩ := List.forall_mem_cons.mp htext
  have hminus : c ≠ '-' := by simpa using hminus
  refine ⟨c, cs, _, rfl, hfree.separates_eq_false fun hc' => hc'.symbol hc, claims_symbol hc hminus,
    fun _ hrest => closes_ofClasses rfl ?_ ?_ hrest⟩
  · intro d hd
    simpa using hcs d hd
  · intro d hd
    simpa using (hfree d hd).symbol

/-- Only a space or a tab ends a word for a truth value. -/
theorem spans_bool (hfree : FreeMarks marks)
    (hspace : ∀ c, marks.separates c = true → c = ' ' ∨ c = '\t') {b : Bool} {word : List Char}
    (hword : word.map Char.toLower ∈ truthWords b)
    (hhead : word.head? = (word.map Char.toLower).head?) : Spans marks Token.bool word := by
  obtain ⟨c, cs, rfl, hc⟩ := cons_of_truthWord hword hhead
  have hkept : ¬IsFree c := fun hc' => by
    have hname := hc'.name
    rcases hc with rfl | rfl <;> cases hname
  refine ⟨c, cs, _, rfl, hfree.separates_eq_false hkept, claims_bool hc, fun _ hrest => ?_⟩
  refine closes_ofClasses rfl ?_ ?_ hrest
  · intro d hd
    exact ends_bool_of_mem hword (List.mem_cons_of_mem _ hd)
  · intro d hd
    simpa using hspace d hd

theorem spans_quoted (hfree : FreeMarks marks) {quote : Char} {inside : List Glyph}
    (hquote : isQuote quote = true) (hinside : ∀ g ∈ inside, g.Fits quote) :
    Spans marks string (quote :: (inside.flatMap Glyph.text ++ [quote])) := by
  have hkept : marks.separates quote = false :=
    hfree.separates_eq_false fun hc => by simpa [hquote] using hc.quote
  exact ⟨quote, _, _, rfl, hkept, claims_string hquote,
    fun _ => closes_string hquote hkept hinside rfl rfl⟩

theorem spans_reference (hfree : FreeMarks marks) {name : List Char}
    (hname : ∀ c ∈ name, isNameChar c = true) : Spans marks Token.reference (sigil :: name) := by
  refine ⟨sigil, name, _, rfl, hfree.separates_eq_false fun hc => hc.sigil rfl, claims_reference,
    fun _ hrest => closes_ofClasses rfl ?_ ?_ hrest⟩
  · intro c hc
    simp [hname c hc]
  · intro c hc
    simp [(hfree c hc).name]

/-- The type that reads a literal claims its first character and reads up to the separator behind
it.  Words for truth values need a space or a tab there. -/
theorem spans_literal (hfree : FreeMarks marks) {l : Literal} (h : l.WellFormed)
    (hspace : l.type = TypeName.bool → ∀ c, marks.separates c = true → c = ' ' ∨ c = '\t') :
    Spans marks l.reader l.text := by
  cases l with
  | whole =>
    obtain ⟨d, hd, -⟩ := h.isNumeral rfl
    exact hfree.spans_number hd
  | decimal =>
    obtain ⟨d, hd, -⟩ := h.isNumeral rfl
    exact hfree.spans_number hd
  | operator symbol =>
    -- an operator behind a minus sign is claimed as a number is, the others by their own type
    have hoperators : ∀ op ∈ operators, if op.toList.head? = some '-' then op = "-" ∨ op = "-="
        else op.toList ≠ [] ∧ ∀ c ∈ op.toList, c ∈ symbolChars := by decide
    have hsymbol := hoperators symbol h
    rw [Literal.reader]
    split
    · rename_i hminus
      rw [if_pos hminus] at hsymbol
      exact hfree.spans_minus hsymbol
    · rename_i hminus
      rw [if_neg hminus] at hsymbol
      exact hfree.spans_symbol hsymbol.1 hsymbol.2 hminus
  | truth b word => exact hfree.spans_bool (hspace rfl) h.1 h.2
  | quoted quote inside => exact hfree.spans_quoted h.1 h.2
  | reference name => exact hfree.spans_reference h.2

end FreeMarks

theorem spans_number {text : List Char} {d : Datum} (h : IsNumeral text d) :
    Spans {} number text :=
  freeMarks_default.spans_number h

theorem spans_literal {l : Literal} (h : l.WellFormed) : Spans {} l.reader l.text :=
  freeMarks_default.spans_literal h fun _ _ => separates_default_iff.mp

theorem isArgument_of_spans {marks : Marks} {type : TokenType} {text rest : List Char} {u : Value}
    (h : Spans marks type text) (hrest : marks.Separated rest)
    (hparse : type.lexis.parse (.ofList text) = .ok (.value u)) (herror : u.isError = false) :
    IsArgument defaults marks text rest { u with literal := some (strip (.ofList text)) } := by
  obtain ⟨c, cs, scratch, htext, hc, hclaims, hcloses⟩ := h
  exact ⟨c, cs, type, scratch, u, htext, hc, hclaims, hcloses rest hrest, hparse, herror, rfl⟩

/-- A literal that is read up to a separator is an argument, and its value is what it denotes. -/
theorem isArgument_literal {marks : Marks} {l : Literal} (h : l.WellFormed)
    (hspans : Spans marks l.reader l.text) {rest : List Char} (hrest : marks.Separated rest) :
    ∃ v, IsArgument defaults marks l.text rest v ∧ l.Denotes v := by
  obtain ⟨u, hparse, htype, hmeans⟩ := h.parse
  have herror : u.isError = false := by
    rw [Value.isError, htype]
    cases l <;> rfl
  refine ⟨_, isArgument_of_spans hspans hrest hparse herror, htype, hmeans, ?_⟩
  rw [strip_ofList h.trim_text]

/-! ### Lines -/

/-- A word that can stand in front of a line: it begins no comment, holds no separator and has no
margin. -/
structure IsCommandWord (word : List Char) : Prop where
  nonempty : word ≠ []
  unseparated : ∀ c ∈ word, c ≠ ' ' ∧ c ≠ '\t'
  uncommented : word.head? ≠ some '#'
  begins : ∀ c ∈ word.head?, isBlank c = false
  ends : ∀ c ∈ word.getLast?, isBlank c = false

/-- A word of letters, digits and low lines can. -/
theorem isCommandWord_of_isNameChar {word : List Char} (hne : word ≠ [])
    (h : ∀ c ∈ word, isNameChar c = true) : IsCommandWord word where
  nonempty := hne
  unseparated c hc := by
    have hname := h c hc
    constructor
    · rintro rfl
      exact absurd hname (by decide)
    · rintro rfl
      exact absurd hname (by decide)
  uncommented hhead := absurd (h '#' (List.mem_of_head? hhead)) (by decide)
  begins c hc := isBlank_of_isNameChar (h c (List.mem_of_head? hc))
  ends c hc := isBlank_of_isNameChar (h c (List.mem_of_getLast? hc))

theorem joined_eq (pieces : List Piece) (tail : List Char) :
    joined pieces tail = pieces.flatMap (fun p => p.gap ++ p.word) ++ tail := by
  induction pieces with
  | nil => rfl
  | cons p pieces ih => simp [joined, ih]

theorem trim_joined {word : List Char} {pieces : List Piece} (hne : word ≠ [])
    (hbegins : ∀ c ∈ word.head?, isBlank c = false)
    (hends : pieces = [] → ∀ c ∈ word.getLast?, isBlank c = false)
    (hpieces : ∀ p ∈ pieces, p.word ≠ [] ∧ trim p.word = p.word) :
    trim (word ++ joined pieces []) = word ++ joined pieces [] := by
  refine trim_eq_self_iff.mpr ⟨?_, ?_⟩
  · rw [List.head?_append_of_ne_nil _ hne]
    exact hbegins
  · rcases List.eq_nil_or_concat pieces with rfl | ⟨others, p, rfl⟩
    · simpa [joined] using hends rfl
    · -- the line ends where its last argument does
      obtain ⟨hne, htrim⟩ := hpieces p (by simp)
      rw [joined_eq, List.append_nil, List.concat_eq_append, List.flatMap_append,
        List.flatMap_singleton, ← List.append_assoc, ← List.append_assoc,
        List.getLast?_append_of_ne_nil _ hne]
      exact (trim_eq_self_iff.mp htrim).2

/-- A text without margins is read as its first word and what the reader of arguments makes of the
rest and a separator. -/
theorem read_word_and_rest {types : List TokenType} {marks : Marks} {separator : Char}
    {separators word rest : List Char} (hs : marks.separators = separator :: separators)
    (hne : word ≠ []) (hword : ∀ c ∈ word, marks.separates c = false)
    (hrest : marks.Separated (rest ++ [separator])) (htrim : trim (word ++ rest) = word ++ rest)
    (hcomment : marks.isComment (word ++ rest) = false) :
    read types marks (.ofList (word ++ rest)) =
      (readArguments types marks .between word.length (rest ++ [separator])).map
        fun args => ⟨.ofList (upperList word), args⟩ := by
  have hsplit : word ++ rest ++ [separator] = [] ++ word ++ (rest ++ [separator]) := by simp
  rw [read_eq_readText (by simp [htrim, hne]) (by rw [String.toList_ofList, htrim, hcomment]),
    String.toList_ofList, htrim, readText_eq hs hsplit (by simp) hword hne hrest, List.length_nil,
    Nat.zero_add]

theorem isComment_word {word : List Char} (hne : word ≠ []) (hword : word.head? ≠ some '#')
    {marks : Marks} (hmarks : marks.comment = ['#']) (rest : List Char) :
    marks.isComment (word ++ rest) = false := by
  obtain ⟨c, cs, rfl⟩ := List.exists_cons_of_ne_nil hne
  have hc : '#' ≠ c := by
    rintro rfl
    exact hword rfl
  simp [Marks.isComment, hmarks, List.isPrefixOf, hc]

/-- A word and arguments without margins, each with a gap in front of it, are read as the word in
upper case and the values of the arguments.  The word may end in a blank that is no separator if
there is an argument. -/
theorem read_word {types : List TokenType} {word : List Char} {pieces : List Piece}
    {vs : List Value} (hne : word ≠ []) (hword : ∀ c ∈ word, ({} : Marks).separates c = false)
    (huncommented : word.head? ≠ some '#') (hbegins : ∀ c ∈ word.head?, isBlank c = false)
    (hends : pieces = [] → ∀ c ∈ word.getLast?, isBlank c = false)
    (hpieces : ∀ p ∈ pieces, p.word ≠ [] ∧ trim p.word = p.word)
    (h : Arguments types {} pieces [' '] vs) :
    read types {} (.ofList (word ++ joined pieces [])) = .ok ⟨.ofList (upperList word), vs⟩ := by
  have hjoined : joined pieces [] ++ [' '] = joined pieces [' '] := by simp [joined_eq]
  have hrest : ({} : Marks).Separated (joined pieces [] ++ [' ']) :=
    hjoined ▸ h.separated ⟨' ', [], rfl, rfl⟩
  rw [read_word_and_rest rfl hne hword hrest (trim_joined hne hbegins hends hpieces)
    (isComment_word hne huncommented rfl _), hjoined, readArguments_joined h]
  rfl

theorem read_joined {types : List TokenType} {word : List Char} {pieces : List Piece}
    {vs : List Value} (hword : IsCommandWord word)
    (hpieces : ∀ p ∈ pieces, p.word ≠ [] ∧ trim p.word = p.word)
    (h : Arguments types {} pieces [' '] vs) :
    read types {} (.ofList (word ++ joined pieces [])) = .ok ⟨.ofList (upperList word), vs⟩ := by
  refine read_word hword.nonempty ?_ hword.uncommented hword.begins (fun _ => hword.ends) hpieces h
  intro c hc
  rw [Bool.eq_false_iff, Ne, separates_default_iff, not_or]
  exact hword.unseparated c hc

/-! ### Lines of literals -/

/-- A literal with the gap in front of it. -/
structure Spaced where
  gap : List Char
  literal : Literal

namespace Spaced

def text (a : Spaced) : List Char := a.gap ++ a.literal.text

/-- The gap holds a separator and nothing else, and the literal follows its grammar. -/
structure WellFormed (a : Spaced) : Prop where
  nonempty : a.gap ≠ []
  separators : ∀ c ∈ a.gap, c = ' ' ∨ c = '\t'
  literal : a.literal.WellFormed

def piece (a : Spaced) : Piece := ⟨a.gap, a.literal.text⟩

end Spaced

theorem joined_piece (args : List Spaced) (tail : List Char) :
    joined (args.map Spaced.piece) tail = args.flatMap Spaced.text ++ tail := by
  rw [joined_eq, List.flatMap_map]
  rfl

/-- Literals that are read up to the next separator are arguments, with gaps in front of them. -/
theorem arguments_of_spans {marks : Marks} {args : List Spaced} {tail : List Char}
    (hgaps : ∀ a ∈ args, a.gap ≠ [] ∧ ∀ c ∈ a.gap, marks.separates c = true)
    (hliterals : ∀ a ∈ args, a.literal.WellFormed ∧ Spans marks a.literal.reader a.literal.text)
    (htail : ∀ c ∈ tail, marks.separates c = true) (hne : tail ≠ []) :
    ∃ vs, Arguments defaults marks (args.map Spaced.piece) tail vs ∧
      List.Forall₂ (fun a v => a.literal.Denotes v) args vs := by
  induction args with
  | nil => exact ⟨[], .none htail, .nil⟩
  | cons a args ih =>
    obtain ⟨⟨hgap, hseparates⟩, hgaps⟩ := List.forall_mem_cons.mp hgaps
    obtain ⟨⟨hwell, hspans⟩, hliterals⟩ := List.forall_mem_cons.mp hliterals
    obtain ⟨vs, harguments, hdenotes⟩ := ih hgaps hliterals
    obtain ⟨c, cs, rfl⟩ := List.exists_cons_of_ne_nil hne
    have hrest : marks.Separated (joined (args.map Spaced.piece) (c :: cs)) :=
      harguments.separated ⟨c, cs, rfl, htail c (List.mem_cons_self ..)⟩
    obtain ⟨v, hargument, hv⟩ := isArgument_literal hwell hspans hrest
    exact ⟨v :: vs, .next hgap hseparates hargument harguments, .cons hv hdenotes⟩

/-- Literals with gaps are arguments with gaps. -/
theorem arguments_of_literals {args : List Spaced} (h : ∀ a ∈ args, a.WellFormed) :
    ∃ vs, Arguments defaults {} (args.map Spaced.piece) [' '] vs ∧
      List.Forall₂ (fun a v => a.literal.Denotes v) args vs := by
  refine arguments_of_spans ?_ ?_ (by simp [separates_default_iff]) (by simp)
  · exact fun a ha => ⟨(h a ha).nonempty, fun c hc =>
      separates_default_iff.mpr ((h a ha).separators c hc)⟩
  · exact fun a ha => ⟨(h a ha).literal, spans_literal (h a ha).literal⟩

/-- **Lines of literals.**  A command word and literals, each with spaces or tabs in front of it,
are read as the word in upper case and as many arguments as literals: each argument is what its
literal denotes. -/
theorem read_literals {word : List Char} {args : List Spaced} (hword : IsCommandWord word)
    (hargs : ∀ a ∈ args, a.WellFormed) :
    ∃ vs, read defaults {} (.ofList (word ++ args.flatMap Spaced.text)) =
        .ok ⟨.ofList (upperList word), vs⟩ ∧
      List.Forall₂ (fun a v => a.literal.Denotes v) args vs := by
  obtain ⟨vs, harguments, hdenotes⟩ := arguments_of_literals hargs
  refine ⟨vs, ?_, hdenotes⟩
  have hpieces : ∀ p ∈ args.map Spaced.piece, p.word ≠ [] ∧ trim p.word = p.word := by
    intro p hp
    obtain ⟨a, ha, rfl⟩ := List.mem_map.mp hp
    obtain ⟨c, cs, _, htext, -⟩ := spans_literal (hargs a ha).literal
    exact ⟨by simp [Spaced.piece, htext], (hargs a ha).literal.trim_text⟩
  have hread := read_joined hword hpieces harguments
  rwa [joined_piece, List.append_nil] at hread

/-- A reference, an operator that begins like a number, and a number. -/
theorem read_literals_assignment :
    ∃ vs, read defaults {} "set $x \t-= -42" = .ok ⟨"SET", vs⟩ ∧
      List.Forall₂ (fun (a : Spaced) v => a.literal.Denotes v)
        [⟨[' '], .reference ['x']⟩, ⟨[' ', '\t'], .operator "-="⟩,
          ⟨[' '], .whole true ['4', '2']⟩] vs := by
  have hword : IsCommandWord ['s', 'e', 't'] := by
    refine ⟨by decide, by decide, by decide, ?_, ?_⟩ <;> simp [isBlank]
  have hx : Spaced.WellFormed ⟨[' '], .reference ['x']⟩ :=
    ⟨by simp, by simp, by simp, by decide⟩
  have hminus : Spaced.WellFormed ⟨[' ', '\t'], .operator "-="⟩ :=
    ⟨by simp, by simp, show "-=" ∈ operators by decide⟩
  have hnumber : Spaced.WellFormed ⟨[' '], .whole true ['4', '2']⟩ :=
    ⟨by simp, by simp, by simp, by decide, by simp [digitLimit]⟩
  have hargs : ∀ a ∈ ([⟨[' '], .reference ['x']⟩, ⟨[' ', '\t'], .operator "-="⟩,
      ⟨[' '], .whole true ['4', '2']⟩] : List Spaced), a.WellFormed := by
    simpa using ⟨hx, hminus, hnumber⟩
  obtain ⟨vs, hread, hdenotes⟩ := read_literals hword hargs
  exact ⟨vs, hread, hdenotes⟩

end CommandBatch.Line
