import CommandBatch.Proofs.Line.Literals
import CommandBatch.Proofs.Text.UpperCase

/-!
# The normal form of a line

What is kept of a line is its command in upper case and the literals of its arguments without blank
margins.  Put together with single spaces, they are a line with the same command and the same
arguments (`read_text`).  A literal without its margins is claimed by the type that claimed the
argument, which reads it up to the next separator: what is trimmed off is the blank that closed the
argument or, behind a word for a truth value, blanks that are no separators.
-/

namespace CommandBatch.Line

open Text Token

/-! ### The ends of arguments -/

section Ends
variable {marks : Marks} {type : TokenType} {s : Scratch} {cs rest : List Char}

/-- A type that is made of classes of characters, each separator among those that end it, reads what is
left of an argument when its end is cut off as an argument of its own. -/
theorem closes_of_initial {begins ends : Char → Bool} {parse : String → Except Fault Reading}
    (htype : type.lexis = .ofClasses begins ends parse) {cs' rest' : List Char}
    (h : Closes marks type s cs rest) (hcs' : cs' <+: cs)
    (hends : ∀ c, marks.separates c = true → ends c = true) (hrest' : marks.Separated rest') :
    Closes marks type s cs' rest' := by
  have hshort : ∀ {init : List Char}, (∀ c ∈ init, ends c = false) → cs' <+: init →
      Closes marks type s cs' rest' := by
    intro init hinit hinitial
    exact closes_ofClasses htype (fun c hc => hinit c (hinitial.subset hc)) hends hrest'
  rcases closes_ofClasses_cases htype h with hcs | ⟨init, last, rfl, hinit, hlast, hkept⟩
  · exact hshort hcs hcs'
  · rcases List.prefix_concat_iff.mp hcs' with rfl | hinitial
    · exact closes_ofClasses_last htype hinit hlast hkept hrest'
    · exact hshort hinit hinitial

/-- Only the quote that a string began with ends it. -/
theorem quote_of_stringEnds {c quote : Char} {s s' : Scratch} {b : Bool}
    (h : stringEnds c s = (b, s')) (hs : s.quote = some quote) :
    s'.quote = some quote ∧ (b = true → c = quote) := by
  unfold stringEnds at h
  split at h
  · cases h
    exact ⟨hs, by simp⟩
  · split at h
    · cases h
      exact ⟨hs, by simp⟩
    · cases h
      refine ⟨hs, fun hb => ?_⟩
      rw [hs] at hb
      simpa using Eq.symm (by simpa using hb)

/-- A string ends with its quote, whatever separator follows. -/
theorem closes_string_quote {quote : Char} (hquote : isQuote quote = true)
    (hs : s.quote = some quote) (h : Closes {} string s cs rest) :
    cs.getLast? = some quote ∧
      ∀ rest', ({} : Marks).Separated rest' → Closes {} string s cs rest' := by
  have hends {c : Char} {s s' : Scratch} {b : Bool} (h : string.lexis.ends c s = .ok (b, s'))
      (hs : s.quote = some quote) : s'.quote = some quote ∧ (b = true → c = quote) :=
    quote_of_stringEnds (Except.ok.inj h) hs
  induction h with
  | dropped hclose hc =>
    -- a separator is no quote
    obtain rfl := (hends hclose hs).2 rfl
    rcases separates_default_iff.mp hc with rfl | rfl <;> cases hquote
  | @kept c _ s s' _ hclose hc _ =>
    obtain rfl := (hends hclose hs).2 rfl
    refine ⟨rfl, ?_⟩
    rintro _ ⟨d, rest', rfl, hd⟩
    exact .kept hclose hc hd
  | @goesOn c s s' word rest hgoes hword ih =>
    obtain ⟨hlast, hothers⟩ := ih (hends hgoes hs).1
    refine ⟨?_, fun rest' hrest' => .goesOn hgoes (hothers rest' hrest')⟩
    rw [List.getLast?_cons, hlast]
    rfl

end Ends

/-! ### Arguments without their margins -/

/-- No type begins with a blank. -/
theorem isBlank_of_claims {c : Char} {type : TokenType} {scratch : Scratch}
    (h : Claims defaults c type scratch) : isBlank c = false := by
  have hmem := h.mem
  have hbegins := h.begins
  simp only [defaults, List.mem_cons, List.not_mem_nil, or_false] at hmem
  rcases hmem with rfl | rfl | rfl | rfl | rfl
  · obtain ⟨hc, -⟩ : (c ∈ numerals ∨ c = '-') ∧ {} = scratch := by
      simpa [number, Lexis.ofClasses] using hbegins
    exact isBlank_of_numeral hc
  · obtain ⟨hc, -⟩ : (c = 't' ∨ c = 'f') ∧ {} = scratch := by
      simpa [Token.bool, Lexis.ofClasses] using hbegins
    rcases hc with rfl | rfl <;> rfl
  · obtain ⟨hc, -⟩ : c ∈ symbolChars ∧ {} = scratch := by
      simpa [Token.symbol, Lexis.ofClasses] using hbegins
    have hsymbols : ∀ c ∈ symbolChars, isBlank c = false := by decide
    exact hsymbols c hc
  · cases hquote : isQuote c with
    | false => simp [string, hquote] at hbegins
    | true => rcases isQuote_iff.mp hquote with rfl | rfl <;> rfl
  · obtain ⟨rfl, -⟩ : c = sigil ∧ {} = scratch := by
      simpa [Token.reference, Lexis.ofClasses] using hbegins
    rfl

/-- The type that claims an argument claims it without its margins, and reads it up to the next
separator. -/
theorem spans_trim {c : Char} {cs rest : List Char} {type : TokenType} {scratch : Scratch}
    (hclaims : Claims defaults c type scratch) (hcloses : Closes {} type scratch cs rest) :
    Spans {} type (trim (c :: cs)) := by
  have hblank := isBlank_of_claims hclaims
  have hseparates : ({} : Marks).separates c = false := by
    rw [Bool.eq_false_iff, Ne, separates_default_iff]
    rintro (rfl | rfl) <;> cases hblank
  refine ⟨c, trimRight cs, scratch, trim_cons hblank cs, hseparates, hclaims, ?_⟩
  intro rest' hrest'
  have hinitial := trimRight_initial cs
  have hmem := hclaims.mem
  simp only [defaults, List.mem_cons, List.not_mem_nil, or_false] at hmem
  rcases hmem with rfl | rfl | rfl | rfl | rfl
  · refine closes_of_initial rfl hcloses hinitial ?_ hrest'
    intro d hd
    rcases separates_default_iff.mp hd with rfl | rfl <;> decide
  · refine closes_of_initial rfl hcloses hinitial ?_ hrest'
    intro d hd
    simpa using separates_default_iff.mp hd
  · refine closes_of_initial rfl hcloses hinitial ?_ hrest'
    intro d hd
    rcases separates_default_iff.mp hd with rfl | rfl <;> decide
  · -- a string ends with its quote, so that nothing is cut off
    cases hquote : isQuote c with
    | false =>
      have hbegins := hclaims.begins
      simp [string, hquote] at hbegins
    | true =>
      obtain ⟨-, rfl⟩ := hclaims.unique (claims_string hquote)
      obtain ⟨hlast, hothers⟩ := closes_string_quote hquote rfl hcloses
      have hright : trimRight cs = cs := by
        refine trimRight_eq_self_iff.mpr ?_
        intro d hd
        rw [hlast] at hd
        rwa [← Option.mem_some_iff.mp hd]
      rw [hright]
      exact hothers rest' hrest'
  · refine closes_of_initial rfl hcloses hinitial ?_ hrest'
    intro d hd
    rcases separates_default_iff.mp hd with rfl | rfl <;> decide

/-- No type looks at the margins of a token. -/
theorem parse_strip {type : TokenType} (h : type ∈ defaults) (literal : String) :
    type.lexis.parse (strip literal) = type.lexis.parse literal := by
  simp only [defaults, List.mem_cons, List.not_mem_nil, or_false] at h
  rcases h with rfl | rfl | rfl | rfl | rfl
  · simp only [number, Lexis.ofClasses, parseNumber, strip_strip]
  · simp only [Token.bool, Lexis.ofClasses, parseBool, strip_strip]
  · simp only [Token.symbol, Lexis.ofClasses, parseSymbol, strip_strip]
  · simp only [string, parseString, strip_strip]
  · simp only [Token.reference, Lexis.ofClasses, parseReference, strip_strip]

/-- An argument without its margins has the same value, and it may stand in front of any separator:
nothing that the line holds behind it is needed. -/
theorem IsArgument.trim {word rest : List Char} {v : Value}
    (h : IsArgument defaults {} word rest v) :
    v.literal = some (.ofList (Text.trim word)) ∧ Text.trim word ≠ [] ∧
      ∀ rest', ({} : Marks).Separated rest' → IsArgument defaults {} (Text.trim word) rest' v := by
  obtain ⟨c, cs, type, scratch, u, rfl, -, hclaims, hcloses, hparse, herror, rfl⟩ := h
  have hspans := spans_trim hclaims hcloses
  have hstrip : String.ofList (Text.trim (c :: cs)) = strip (.ofList (c :: cs)) := by simp [strip]
  have hparse' : type.lexis.parse (.ofList (Text.trim (c :: cs))) = .ok (.value u) := by
    rw [hstrip, parse_strip hclaims.mem, hparse]
  refine ⟨by simp [hstrip], ?_, ?_⟩
  · rw [trim_cons (isBlank_of_claims hclaims)]
    exact List.cons_ne_nil _ _
  · intro rest' hrest'
    have hargument := isArgument_of_spans hspans hrest' hparse' herror
    rwa [hstrip, strip_strip] at hargument

/-! ### The line without its margins -/

/-- The literal of an argument behind one space. -/
def spaced (v : Value) : Piece := ⟨[' '], (v.literal.getD "").toList⟩

/-- The arguments of a line are the arguments of their literals. -/
theorem Arguments.spaced {pieces : List Piece} {tail : List Char} {vs : List Value}
    (h : Arguments defaults {} pieces tail vs) :
    Arguments defaults {} (vs.map Line.spaced) [' '] vs ∧
      ∀ p ∈ vs.map Line.spaced, p.word ≠ [] ∧ Text.trim p.word = p.word := by
  have hspace : ∀ c ∈ [' '], ({} : Marks).separates c = true := by decide
  induction h with
  | none _ => exact ⟨.none hspace, by simp⟩
  | @next p pieces tail v vs _ _ hargument _ ih =>
    obtain ⟨harguments, hwords⟩ := ih
    obtain ⟨hliteral, hne, hothers⟩ := hargument.trim
    have hword : (Line.spaced v).word = Text.trim p.word := by simp [Line.spaced, hliteral]
    have hrest : ({} : Marks).Separated (joined (vs.map Line.spaced) [' ']) :=
      harguments.separated ⟨' ', [], rfl, rfl⟩
    refine ⟨.next (List.cons_ne_nil _ _) hspace ?_ harguments, ?_⟩
    · rw [hword]
      exact hothers _ hrest
    · refine List.forall_mem_cons.mpr ⟨?_, hwords⟩
      rw [hword, trim_trim]
      exact ⟨hne, rfl⟩

/-- The command of a line that has been read is in upper case. -/
theorem upper_command {types : List TokenType} {marks : Marks} {line : String} {l : Line}
    (hseparators : marks.separators ≠ []) (h : read types marks line = .ok l) :
    upper l.command = l.command := by
  obtain ⟨separator, separators, hmarks⟩ := List.exists_cons_of_ne_nil hseparators
  rcases read_cases hmarks line with hread | ⟨-, -, margin, word, rest, -, -, -, -, -, hread⟩
  · rw [hread] at h
    cases h
    simp [upper]
  · rw [hread] at h
    obtain ⟨args, -, rfl⟩ := map_eq_ok_iff.mp h
    have hword : String.ofList (upperList word) = upper (.ofList word) := by simp [upper]
    rw [hword, upper_upper]

/-- The command and the literals of a line with single spaces between them. -/
def text (l : Line) : String :=
  " ".intercalate (l.command :: l.args.map fun v => v.literal.getD "")

theorem toList_text (l : Line) :
    l.text.toList = l.command.toList ++ joined (l.args.map spaced) [] := by
  rw [text, String.toList_intercalate, joined_eq]
  generalize l.command = command
  induction l.args generalizing command with
  | nil => simp
  | cons v vs ih =>
    have h := ih (v.literal.getD "")
    simp only [List.map_cons] at h ⊢
    rw [List.intercalate_cons_cons, h]
    simp [Line.spaced]

theorem isBlank_of_separates {c : Char} (h : ({} : Marks).separates c = true) :
    isBlank c = true := by
  rcases separates_default_iff.mp h with rfl | rfl <;> rfl

/-- A text that is read as a command word and arguments has no margin in front of the word, and if
there are no arguments, it ends where the word does. -/
theorem word_of_read {line : String} {l : Line} (h : read defaults {} line = .ok l)
    (hne : l.command ≠ "") :
    ∃ word pieces tail, l.command = .ofList (upperList word) ∧ word ≠ [] ∧
      (∀ c ∈ word, ({} : Marks).separates c = false) ∧
      (∀ c ∈ word.head?, isBlank c = false ∧ c ≠ '#') ∧
      (pieces = [] → ∀ c ∈ word.getLast?, isBlank c = false) ∧
      Arguments defaults {} pieces tail l.args := by
  have hcases : read defaults {} line = .ok {} ∨ _ := read_cases rfl line
  rcases hcases with hread | ⟨htext, hcomment, margin, word, rest, he, hmargin, hword, hwne, hrest,
    hread⟩
  · rw [hread] at h
    cases h
    exact absurd rfl hne
  rw [hread] at h
  obtain ⟨args, hargs, rfl⟩ := map_eq_ok_iff.mp h
  obtain ⟨pieces, tail, rfl, harguments⟩ := arguments_of_readArguments hrest hargs
  obtain ⟨hhead, hlast⟩ := trim_eq_self_iff.mp (trim_trim line.toList)
  obtain ⟨c, cs, hcons⟩ := List.exists_cons_of_ne_nil htext
  obtain ⟨w, ws, rfl⟩ := List.exists_cons_of_ne_nil hwne
  have hc : isBlank c = false := hhead c (by rw [hcons]; rfl)
  obtain rfl : margin = [] := by
    cases margin with
    | nil => rfl
    | cons m ms =>
      rw [hcons] at he
      obtain ⟨rfl, -⟩ := List.cons.inj he
      rw [isBlank_of_separates (hmargin c (List.mem_cons_self ..))] at hc
      cases hc
  obtain rfl : c = w := by
    rw [hcons] at he
    exact (List.cons.inj he).1
  refine ⟨c :: ws, pieces, tail, rfl, hwne, hword, ?_, ?_, harguments⟩
  · intro d hd
    obtain rfl : c = d := by simpa using hd
    refine ⟨hc, ?_⟩
    rintro rfl
    rw [hcons] at hcomment
    cases hcomment
  · rintro rfl
    -- of the separators behind the word, the one that was added is the only one
    obtain ⟨first, seps, rfl, -⟩ := hrest
    cases harguments with
    | none htail =>
      obtain ⟨init, last, hconcat⟩ := (List.eq_nil_or_concat (first :: seps)).resolve_left (by simp)
      rw [List.concat_eq_append] at hconcat
      rw [joined, hconcat, List.nil_append, ← List.append_assoc] at he
      obtain ⟨hinit, -⟩ := List.append_inj' he rfl
      rw [hinit] at hlast
      rcases List.eq_nil_or_concat init with rfl | ⟨others, d, rfl⟩
      · rwa [List.append_nil] at hlast
      · rw [List.concat_eq_append] at hlast hconcat
        have hd : isBlank d = false := by
          refine hlast d ?_
          rw [← List.append_assoc, List.getLast?_concat]
          rfl
        rw [isBlank_of_separates (htail d (by rw [hconcat]; simp))] at hd
        cases hd

/-- **Stored literals are a normal form of the line.**  A line that is read with a command comes out
the same when the command and the literals of its arguments are put together with single spaces.  So
putting them together once more changes nothing. -/
theorem read_text {line : String} {l : Line} (h : read defaults {} line = .ok l)
    (hne : l.command ≠ "") :
    read defaults {} l.text = .ok l ∧
      ∀ l', read defaults {} l.text = .ok l' → l'.text = l.text := by
  obtain ⟨word, pieces, tail, hcommand, hwne, hword, hhead, hlast, harguments⟩ := word_of_read h hne
  obtain ⟨hspaced, hwords⟩ := harguments.spaced
  have hupper : ∀ c ∈ upperList word, ({} : Marks).separates c = false := by
    refine forall_mem_upperList ?_ hword
    intro c hc
    cases hseparates : ({} : Marks).separates c with
    | false => rfl
    | true => exact absurd hc.notBlank (by simp [isBlank_of_separates hseparates])
  have hfirst : ∀ c ∈ (upperList word).head?, isBlank c = false ∧ c ≠ '#' := by
    obtain ⟨w, ws, rfl⟩ := List.exists_cons_of_ne_nil hwne
    intro c hc
    rcases mem_upperChar (mem_head?_upperList hc) with ⟨rfl, -⟩ | hcapital
    · exact hhead c rfl
    · exact ⟨hcapital.notBlank, hcapital.noComment⟩
  have hend : l.args.map spaced = [] → ∀ c ∈ (upperList word).getLast?, isBlank c = false := by
    intro hargs c hc
    have hpieces : pieces = [] := by
      refine List.length_eq_zero_iff.mp ?_
      rw [← harguments.length_eq, List.map_eq_nil_iff.mp hargs, List.length_nil]
    obtain ⟨init, w, rfl⟩ := (List.eq_nil_or_concat word).resolve_left hwne
    rw [List.concat_eq_append] at hc hlast
    rcases mem_upperChar (mem_getLast?_upperList hc) with ⟨rfl, -⟩ | hcapital
    · exact hlast hpieces c (by simp)
    · exact hcapital.notBlank
  have hread : read defaults {} (.ofList (upperList word ++ joined (l.args.map spaced) [])) =
      .ok ⟨.ofList (upperList (upperList word)), l.args⟩ :=
    read_word (upperList_ne_nil hwne) hupper (fun he => (hfirst '#' he).2 rfl)
      (fun c hc => (hfirst c hc).1) hend hwords hspaced
  have htext : l.text = .ofList (upperList word ++ joined (l.args.map spaced) []) := by
    rw [← String.ofList_toList (s := l.text), toList_text, hcommand, String.toList_ofList]
  have hnormal : read defaults {} l.text = .ok l := by
    rw [htext, hread, upperList_upperList, ← hcommand]
  refine ⟨hnormal, ?_⟩
  intro l' hl'
  rw [hnormal] at hl'
  rw [Except.ok.inj hl']

/-- The number is closed by an ideographic space, which its literal has not kept; the blanks of the
string stay. -/
theorem read_text_of_margins :
    ∃ l, read defaults {} "straße \t5\u3000  't  u'" = .ok l ∧ l.command ≠ "" ∧
      l.text = "STRASSE 5 't  u'" ∧ read defaults {} l.text = .ok l := by
  have hread : read defaults {} "straße \t5\u3000  't  u'" =
      .ok ⟨"STRASSE", [⟨TypeName.number, .whole 5, some "5"⟩,
        ⟨TypeName.string, .text "t  u", some "'t  u'"⟩]⟩ := rfl
  exact ⟨_, hread, by decide, rfl, (read_text hread (by decide)).1⟩

end CommandBatch.Line
