import CommandBatch.Proofs.Line.NormalForm
import CommandBatch.Proofs.Line.Unreadable
import CommandBatch.Proofs.Token.Strings

/-!
# Strings in lines

Two readers go through a string on their own.  One follows it up to its end, with a flag for the character
behind a backslash; the other replaces the pairs of the finished token by what they mean.  They agree: a string
ends at the first quote outside a pair (`closes_string_iff`), and has no end if there is none
(`lasts_string_iff`).  So whatever is closed as a string is a string, and every text can be written as one
(`strings_are_read_back`); and a line with an argument that is never closed is one with a string that is not
(`unclosed_iff`).
-/

namespace CommandBatch

open Text

namespace Line

open Token

/-! ### The ends of strings -/

section Ends
variable {marks : Marks} {quote : Char} {s : Scratch} {cs rest : List Char}

/-- Behind a backslash the next character belongs to the string. -/
theorem ends_string_escaped (c : Char) (hescape : s.escape = true) :
    string.lexis.ends c s = .ok (false, { s with escape := false }) := by
  simp [string, stringEnds, hescape]

theorem ends_string_backslash (hescape : s.escape = false) :
    string.lexis.ends '\\' s = .ok (false, { s with escape := true }) := by
  simp [string, stringEnds, hescape]

/-- Of all other characters, only the quote ends the string. -/
theorem ends_string_plain {c : Char} (hescape : s.escape = false) (hc : c ≠ '\\')
    (hs : s.quote = some quote) : string.lexis.ends c s = .ok (quote == c, s) := by
  simp [string, stringEnds, hescape, hc, hs]

/-- **Where a string ends.**  It ends with the first quote outside a pair, and in front of a separator. -/
theorem closes_string_iff (hquote : isQuote quote = true) (hkept : marks.separates quote = false)
    (hs : s.quote = some quote) (hescape : s.escape = false) :
    Closes marks string s cs rest ↔ marks.Separated rest ∧
      ∃ body, cs = body ++ [quote] ∧ ∀ g ∈ Glyph.ofText body, g.Fits quote := by
  constructor
  · intro h
    refine ⟨h.separated, ?_⟩
    induction cs using Glyph.ofText.induct generalizing s with
    | case1 c cs ih =>
      rw [closes_cons_iff (ends_string_backslash hescape), closes_cons_iff (ends_string_escaped c rfl)] at h
      have hs' : ({ s with escape := false } : Scratch).quote = some quote := hs
      obtain ⟨body, rfl, hbody⟩ := ih hs' rfl (by simpa using h)
      exact ⟨'\\' :: c :: body, rfl, List.forall_mem_cons.mpr ⟨trivial, hbody⟩⟩
    | case2 c cs hsingle ih =>
      by_cases hc : c = '\\'
      · -- the backslash is the last character, and takes what follows with it
        subst hc
        cases cs with
        | cons d ds => exact absurd rfl (hsingle d ds rfl)
        | nil =>
          rw [closes_cons_iff (ends_string_backslash hescape)] at h
          obtain ⟨hfalse, -⟩ | ⟨-, h⟩ := h
          · cases hfalse
          · cases h with
            | @dropped d _ _ _ hends => rw [ends_string_escaped d rfl] at hends; cases hends
      · rw [closes_cons_iff (ends_string_plain hescape hc hs)] at h
        obtain ⟨hquoted, -, rfl, -⟩ | ⟨hgoes, h⟩ := h
        · obtain rfl : quote = c := eq_of_beq hquoted
          exact ⟨[], rfl, by simp [Glyph.ofText]⟩
        · obtain ⟨body, rfl, hbody⟩ := ih hs hescape h
          refine ⟨c :: body, rfl, ?_⟩
          rw [Glyph.ofText_cons hc]
          exact List.forall_mem_cons.mpr ⟨⟨(ne_of_beq_false hgoes).symm, hc⟩, hbody⟩
    | case3 =>
      cases h with
      | @dropped d _ _ _ hends hd =>
        have hslash : d ≠ '\\' := by
          rintro rfl
          rw [ends_string_backslash hescape] at hends
          cases hends
        rw [ends_string_plain hescape hslash hs] at hends
        obtain rfl : quote = d := by simpa using congrArg Prod.fst (Except.ok.inj hends)
        rw [hkept] at hd
        cases hd
  · rintro ⟨hrest, body, rfl, hbody⟩
    have hcloses := closes_string hquote hkept hbody hs hescape hrest
    rwa [Glyph.flatMap_text_ofText] at hcloses

/-- **Where a string does not end.**  No quote stands outside a pair. -/
theorem lasts_string_iff (hquote : isQuote quote = true) (hs : s.quote = some quote)
    (hescape : s.escape = false) : Lasts string s cs ↔ .plain quote ∉ Glyph.ofText cs := by
  have hslash : quote ≠ '\\' := by
    rintro rfl
    cases hquote
  induction cs using Glyph.ofText.induct generalizing s with
  | case1 c cs ih =>
    have hs' : ({ s with escape := false } : Scratch).quote = some quote := hs
    have hpair : Lasts string s ('\\' :: c :: cs) ↔ Lasts string { s with escape := false } cs := by
      rw [lasts_cons_iff (ends_string_backslash hescape), lasts_cons_iff (ends_string_escaped c rfl)]
      simp
    refine hpair.trans ((ih hs' rfl).trans ?_)
    simp [Glyph.ofText]
  | case2 c cs hsingle ih =>
    by_cases hc : c = '\\'
    · subst hc
      cases cs with
      | cons d ds => exact absurd rfl (hsingle d ds rfl)
      | nil =>
        rw [lasts_cons_iff (ends_string_backslash hescape)]
        simpa [Glyph.ofText, hslash] using Lasts.nil
    · have hrest : Lasts string s cs ↔ .plain quote ∉ Glyph.ofText cs := ih hs hescape
      rw [lasts_cons_iff (ends_string_plain hescape hc hs), Glyph.ofText_cons hc, hrest]
      simp
  | case3 => simpa [Glyph.ofText] using Lasts.nil

end Ends

theorem separates_of_isQuote {quote : Char} (h : isQuote quote = true) :
    ({} : Marks).separates quote = false := by
  rcases isQuote_iff.mp h with rfl | rfl <;> rfl

/-- A string is begun by its quote. -/
theorem isQuote_of_claims {c : Char} {scratch : Scratch} (h : Claims defaults c string scratch) :
    isQuote c = true ∧ scratch = { quote := some c } := by
  cases hquote : isQuote c with
  | false =>
    have hbegins := h.begins
    simp [string, hquote] at hbegins
  | true => exact ⟨rfl, (h.unique (claims_string hquote)).2⟩

/-! ### Every text as a string -/

/-- A text between two quotes. -/
def quotedText (quote : Char) (s : String) : String :=
  .ofList (quote :: (escape quote s.toList ++ [quote]))

/-- A text that is written as a string is read back. -/
theorem read_quotedText {quote : Char} (hquote : isQuote quote = true) (s : String) :
    read defaults {} ("C " ++ quotedText quote s) =
      .ok ⟨"C", [⟨TypeName.string, .text s, some (quotedText quote s)⟩]⟩ := by
  obtain ⟨inside, hfits, htext, hmeaning⟩ := exists_glyphs hquote s.toList
  have hwell : (Literal.quoted quote inside).WellFormed := ⟨hquote, hfits⟩
  have hliteral : (Literal.quoted quote inside).text = quote :: (escape quote s.toList ++ [quote]) := by
    rw [Literal.text, htext]
  have hspace : ∀ c ∈ [' '], ({} : Marks).separates c = true := by decide
  obtain ⟨v, hargument, hdenotes⟩ :=
    isArgument_literal hwell (spans_literal hwell) ⟨' ', [], rfl, rfl⟩
  have hv : v = ⟨TypeName.string, .text s, some (quotedText quote s)⟩ := by
    refine hdenotes.unique ⟨rfl, ?_, ?_⟩
    · rw [Literal.Means, hmeaning, String.ofList_toList]
    · rw [hliteral]
      rfl
  have hword : IsCommandWord ['C'] := isCommandWord_of_isNameChar (by simp) (by decide)
  have hpieces : ∀ p ∈ [(⟨[' '], (Literal.quoted quote inside).text⟩ : Piece)],
      p.word ≠ [] ∧ trim p.word = p.word := by
    simpa using ⟨by simp [Literal.text], hwell.trim_text⟩
  have hread := read_joined hword hpieces (.next (by simp) hspace hargument (.none hspace))
  have hline : "C " ++ quotedText quote s =
      .ofList (['C'] ++ joined [⟨[' '], (Literal.quoted quote inside).text⟩] []) := by
    rw [hliteral, ← String.ofList_toList (s := "C " ++ quotedText quote s)]
    simp [quotedText, joined]
  rw [hline, hread, hv]
  rfl

/-- What is closed as a string is one: the quote that it begins with stands at its end, and in between only in
pairs, as does every backslash. -/
theorem parse_string_of_closes {quote : Char} {scratch : Scratch} {cs rest : List Char}
    (hclaims : Claims defaults quote string scratch) (hcloses : Closes {} string scratch cs rest) :
    ∃ body, cs = body ++ [quote] ∧ .plain quote ∉ Glyph.ofText body ∧ .plain '\\' ∉ Glyph.ofText body ∧
      string.lexis.parse (.ofList (quote :: cs)) = .ok (.value
        ⟨TypeName.string, .text (.ofList ((Glyph.ofText body).map Glyph.meaning)), none⟩) := by
  obtain ⟨hquote, rfl⟩ := isQuote_of_claims hclaims
  obtain ⟨-, body, rfl, hbody⟩ :=
    (closes_string_iff hquote (separates_of_isQuote hquote) rfl rfl).mp hcloses
  obtain ⟨hbare, hsingle⟩ := Glyph.fits_ofText_iff.mp hbody
  have hwell : (Literal.quoted quote (Glyph.ofText body)).WellFormed := ⟨hquote, hbody⟩
  have htrim := hwell.trim_text
  rw [Literal.text, Glyph.flatMap_text_ofText] at htrim
  refine ⟨body, rfl, hbare, hsingle, ?_⟩
  have hparse := parseString_quoted hquote hbody (by rwa [Glyph.flatMap_text_ofText])
  rw [Glyph.flatMap_text_ofText] at hparse
  simp only [string, hparse]

/-- The types that every engine has are told apart by their names. -/
theorem eq_string_of_name : ∀ type ∈ defaults, type.name = TypeName.string → type = string := by
  simp [defaults, number, Token.bool, Token.symbol, Token.reference, TypeName.number, TypeName.bool,
    TypeName.symbol, TypeName.reference, TypeName.string]

/-- A string that is closed is never misread. -/
theorem not_misread_string {c : Char} {cs rest : List Char} {scratch : Scratch} {start : Nat} {r : Reason}
    (hclaims : Claims defaults c string scratch) (hcloses : Closes {} string scratch cs rest) :
    ¬ Misread string (c :: cs) start r := by
  obtain ⟨body, -, -, -, hparse⟩ := parse_string_of_closes hclaims hcloses
  intro h
  cases h with
  | failed hfails =>
    rw [hparse] at hfails
    cases hfails
  | answered hanswers =>
    rw [hparse] at hanswers
    cases hanswers
  | refused hrefuses herror =>
    rw [hparse] at hrefuses
    cases hrefuses
    cases herror

/-- **Every text can be written as a string and is read back.**  Between two quotes of either kind, with
backslashes, the quote, line feeds and tabs escaped, it is the one argument of its line, with what is written
as its literal.  Conversely, whenever a string is closed, its type accepts it, so that no line fails for a
string that is misread: the body holds the quote and backslashes only in pairs, and its value is what the pairs
and single characters of the body mean, from left to right. -/
theorem strings_are_read_back :
    (∀ (quote : Char) (s : String), isQuote quote = true →
      read defaults {} ("C " ++ quotedText quote s) =
        .ok ⟨"C", [⟨TypeName.string, .text s, some (quotedText quote s)⟩]⟩) ∧
    (∀ (quote : Char) (scratch : Scratch) (cs rest : List Char),
      Claims defaults quote string scratch → Closes {} string scratch cs rest →
        ∃ body, cs = body ++ [quote] ∧ .plain quote ∉ Glyph.ofText body ∧
          .plain '\\' ∉ Glyph.ofText body ∧
          string.lexis.parse (.ofList (quote :: cs)) = .ok (.value
            ⟨TypeName.string, .text (.ofList ((Glyph.ofText body).map Glyph.meaning)), none⟩)) ∧
    ∀ (line : String) (r : Reason), read defaults {} line = .error (.ofReason r) →
      r.misreader ≠ some TypeName.string := by
  refine ⟨fun quote s hquote => read_quotedText hquote s, fun quote scratch cs rest hclaims hcloses =>
    parse_string_of_closes hclaims hcloses, ?_⟩
  intro line r h
  obtain ⟨-, front, c, rest, -, -, -, hstumbles⟩ := (read_eq_reason_iff defaults_steady rfl).mp h
  cases hstumbles with
  | unclaimed _ => nofun
  | unclosed _ _ => nofun
  | glued _ _ _ _ => nofun
  | @misread type _ _ _ _ hclaims hcloses _ hmisread =>
    intro hstring
    rw [hmisread.misreader] at hstring
    obtain rfl := eq_string_of_name type hclaims.mem (Option.some.inj hstring)
    exact not_misread_string hclaims hcloses hmisread

/-- Both quotes, a backslash, a line feed and a separator, written between apostrophes. -/
theorem strings_are_read_back_mixed :
    isQuote '\'' = true ∧ quotedText '\'' "a\" 'b\\\n" = "'a\" \\'b\\\\\\n'" ∧
      read defaults {} ("C " ++ "'a\" \\'b\\\\\\n'") =
        .ok ⟨"C", [⟨TypeName.string, .text "a\" 'b\\\n", some "'a\" \\'b\\\\\\n'"⟩]⟩ := by
  have hquote : isQuote '\'' = true := rfl
  have htext : quotedText '\'' "a\" 'b\\\n" = "'a\" \\'b\\\\\\n'" := by decide
  refine ⟨hquote, htext, ?_⟩
  have hread := strings_are_read_back.1 '\'' "a\" 'b\\\n" hquote
  rwa [htext] at hread

/-! ### Strings without an end -/

/-- Where nothing ends a token told by its characters alone, none of them ends it. -/
theorem ends_of_lasts {type : TokenType} {begins ends : Char → Bool}
    {parse : String → Except Fault Reading} (htype : type.lexis = .ofClasses begins ends parse)
    {s : Scratch} {cs : List Char} (h : Lasts type s cs) : ∀ c ∈ cs, ends c = false := by
  induction h with
  | nil => nofun
  | goesOn hends _ ih =>
    rw [htype] at hends
    exact List.forall_mem_cons.mpr ⟨congrArg Prod.fst (Except.ok.inj hends), ih⟩

/-- A space ends the tokens of all types but strings. -/
theorem eq_string_of_lasts {type : TokenType} (hmem : type ∈ defaults) {s : Scratch} {cs : List Char}
    (h : Lasts type s cs) (hspace : ' ' ∈ cs) : type = string := by
  have hother : ∀ {begins ends : Char → Bool} {parse : String → Except Fault Reading},
      type.lexis = .ofClasses begins ends parse → ends ' ' = true → type = string := by
    intro begins ends parse htype hends
    rw [ends_of_lasts htype h ' ' hspace] at hends
    cases hends
  simp only [defaults, List.mem_cons, List.not_mem_nil, or_false] at hmem
  rcases hmem with rfl | rfl | rfl | rfl | rfl
  · exact hother rfl (by decide)
  · exact hother rfl (by decide)
  · exact hother rfl (by decide)
  · rfl
  · exact hother rfl (by decide)

/-- Only for want of an end a line fails as unclosed. -/
theorem Stumbles.unclosed_of_code {types : List TokenType} {marks : Marks} {start : Nat} {c : Char}
    {cs : List Char} {r : Reason} (h : Stumbles types marks start c cs r)
    (hcode : r.code = ErrorCode.unclosedArgument.toInt) :
    ∃ type scratch, Claims types c type scratch ∧ Lasts type scratch cs ∧
      r = .unclosed type.name start := by
  cases h with
  | unclaimed _ => cases hcode
  | @unclosed type scratch hclaims hlasts => exact ⟨type, scratch, hclaims, hlasts, rfl⟩
  | glued _ _ _ _ => cases hcode
  | misread _ _ _ hmisread => cases hmisread <;> cases hcode

/-- **Only a string can be without an end.**  A line fails in a column for an argument that is never closed
exactly when it is no comment and, behind a command and complete arguments, a string begins there of which
the line holds no quote outside the pairs of a backslash and the character behind it.  Numbers, truth values,
symbols and references are never reported so. -/
theorem unclosed_iff (line : String) (column : Nat) :
    ((∃ r, read defaults {} line = .error (.ofReason r) ∧
        r.code = ErrorCode.unclosedArgument.toInt ∧ r.column = some (column : Int)) ↔
      ({} : Marks).isComment (strip line).toList = false ∧
        ∃ front quote rest, (strip line).toList = front ++ quote :: rest ∧ front.length = column ∧
          Opens defaults {} front ∧ isQuote quote = true ∧ .plain quote ∉ Glyph.ofText rest) ∧
    ∀ type start, read defaults {} line = .error (.ofReason (.unclosed type start)) →
      type = TypeName.string := by
  -- the separator at the end of the line can be taken by a backslash, but it is no quote
  have hlasts : ∀ {quote : Char} {rest : List Char}, isQuote quote = true →
      (Lasts string { quote := some quote } (rest ++ [' ']) ↔ .plain quote ∉ Glyph.ofText rest) := by
    intro quote rest hquote
    have hne : ' ' ≠ quote ∧ quote ≠ '\\' := by
      rcases isQuote_iff.mp hquote with rfl | rfl <;> decide
    rw [lasts_string_iff hquote rfl rfl, Glyph.plain_mem_ofText_concat hne.2 hne.1]
  rw [toList_strip]
  refine ⟨⟨?_, ?_⟩, ?_⟩
  · rintro ⟨r, hread, hcode, hcolumn⟩
    obtain ⟨hcomment, front, c, rest, htext, hopens, -, hstumbles⟩ :=
      (read_eq_reason_iff defaults_steady rfl).mp hread
    obtain ⟨type, scratch, hclaims, hlast, rfl⟩ := hstumbles.unclosed_of_code hcode
    obtain rfl := eq_string_of_lasts hclaims.mem hlast (by simp)
    obtain ⟨hquote, rfl⟩ := isQuote_of_claims hclaims
    exact ⟨hcomment, front, c, rest, htext, Int.ofNat.inj (Option.some.inj hcolumn), hopens, hquote,
      (hlasts hquote).mp hlast⟩
  · rintro ⟨hcomment, front, quote, rest, htext, rfl, hopens, hquote, hbare⟩
    refine ⟨.unclosed string.name front.length, ?_, rfl, rfl⟩
    refine (read_eq_reason_iff defaults_steady rfl).mpr ⟨hcomment, front, quote, rest, htext, hopens,
      separates_of_isQuote hquote, ?_⟩
    exact .unclosed (claims_string hquote) ((hlasts hquote).mpr hbare)
  · intro type start hread
    obtain ⟨-, front, c, rest, -, -, -, hstumbles⟩ := (read_eq_reason_iff defaults_steady rfl).mp hread
    obtain ⟨type', scratch, hclaims, hlast, hreason⟩ := hstumbles.unclosed_of_code rfl
    obtain rfl := eq_string_of_lasts hclaims.mem hlast (by simp)
    exact (Reason.unclosed.inj hreason).1

/-- The quote behind the backslash closes nothing, and the backslash at the end takes the separator that is
added. -/
theorem unclosed_behind_backslash :
    read defaults {} "put 1 'a\\'\" \\" = .error (.ofReason (.unclosed TypeName.string 6)) ∧
      ∃ front quote rest, "put 1 'a\\'\" \\".toList = front ++ quote :: rest ∧ front.length = 6 ∧
        Opens defaults {} front ∧ isQuote quote = true ∧ .plain quote ∉ Glyph.ofText rest := by
  have hread : read defaults {} "put 1 'a\\'\" \\" =
      .error (.ofReason (.unclosed TypeName.string 6)) := rfl
  exact ⟨hread, ((unclosed_iff "put 1 'a\\'\" \\" 6).1.mp ⟨_, hread, rfl, rfl⟩).2⟩

end Line

end CommandBatch
