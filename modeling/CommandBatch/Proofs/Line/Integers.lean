import CommandBatch.Proofs.Line.Numbers
import CommandBatch.Proofs.Line.Unreadable
import CommandBatch.Proofs.Token.Integers

/-!
# Whole numbers in lines

Behind a command and complete arguments, a whole number is an argument, or the line fails in its column
because it has too many digits (`read_storing`).  Lines fail so for nothing else: whatever the separators
are, a type that breaks off is the type of numbers, and it has met a whole number with more digits than the
limit (`oversized_of_read`).
-/

namespace CommandBatch.Line

open Text Token Decimal

/-! ### What types break off for -/

/-- Of the types that every engine has, all but that of numbers make a value of whatever they parse. -/
theorem eq_number_or_parses {type : TokenType} (hmem : type ∈ defaults) :
    type = number ∨ ∀ literal, ∃ v, type.lexis.parse literal = .ok (.value v) := by
  simp only [defaults, List.mem_cons, List.not_mem_nil, or_false] at hmem
  rcases hmem with rfl | rfl | rfl | rfl | rfl
  · exact .inl rfl
  · exact .inr fun _ => ⟨_, rfl⟩
  · exact .inr fun _ => ⟨_, rfl⟩
  · exact .inr fun _ => ⟨_, rfl⟩
  · exact .inr fun _ => ⟨_, rfl⟩

/-- So only that of numbers breaks off, and none answers with data. -/
theorem tooLong_of_parse {type : TokenType} (hmem : type ∈ defaults) {literal : String} :
    (∀ f, type.lexis.parse literal = .error f →
      type = number ∧ ∃ e, parseNumber literal = .error e) ∧
    ∀ d, type.lexis.parse literal ≠ .ok (.data d) := by
  rcases eq_number_or_parses hmem with rfl | hparses
  · cases hparse : parseNumber literal with
    | ok v => simp [number, Lexis.ofClasses, hparse]
    | error e => simp [number, Lexis.ofClasses, hparse]
  · obtain ⟨v, hv⟩ := hparses literal
    simp [hv]

section TooLong
variable {marks : Marks} {c : Char} {word rest : List Char} {scratch : Scratch}

/-- What is claimed as a number is a numeral or a minus sign, and numerals behind it, up to the last
character, which may be any. -/
theorem numerals_of_closes (hclaims : Claims defaults c number scratch)
    (hcloses : Closes marks number scratch word rest) :
    (c ∈ numerals ∨ c = '-') ∧ ∀ d ∈ (c :: word).dropLast, d ∈ numerals ∨ d = '-' := by
  obtain ⟨hc, -⟩ : (c ∈ numerals ∨ c = '-') ∧ {} = scratch := by
    simpa [number, Lexis.ofClasses] using hclaims.begins
  refine ⟨hc, ?_⟩
  have hall : ∀ {init : List Char}, (∀ d ∈ init, d ∈ numerals) →
      ∀ d ∈ c :: init, d ∈ numerals ∨ d = '-' := by
    intro init hinit
    exact List.forall_mem_cons.mpr ⟨hc, fun d hd => .inl (hinit d hd)⟩
  rcases closes_number_cases hcloses with hword | ⟨init, last, rfl, hinit, -⟩
  · exact fun d hd => hall hword d (List.dropLast_subset _ hd)
  · rw [← List.cons_append, List.dropLast_concat]
    exact hall hinit

/-- A number for which its type breaks off is a whole number with too many digits, of which all but the last
are common ones. -/
theorem tooLong_of_closes (hclaims : Claims defaults c number scratch)
    (hcloses : Closes marks number scratch word rest) {e : NumeralError}
    (hparse : parseNumber (.ofList (c :: word)) = .error e) :
    ∃ negative digits blanks, c :: word = minus negative ++ digits ++ blanks ∧
      trim (c :: word) = minus negative ++ digits ∧ digitLimit < digits.length ∧
      (∀ d ∈ digits, isDecimalDigit d = true) ∧ ∀ d ∈ digits.dropLast, d.isDigit = true := by
  obtain ⟨hc, hnumerals⟩ := numerals_of_closes hclaims hcloses
  obtain ⟨negative, digits, htrim, hdigits, hlimit, -⟩ := tooLong_of_parseNumber hparse
  rw [String.toList_ofList] at htrim
  have hinitial : trim (c :: word) <+: c :: word := by
    rw [trim_cons (isBlank_of_numeral hc)]
    exact (List.prefix_cons_inj c).mpr (trimRight_initial word)
  obtain ⟨blanks, hblanks⟩ := hinitial
  refine ⟨negative, digits, blanks, by rw [← htrim, hblanks], htrim, hlimit, hdigits, ?_⟩
  intro d hd
  have hmem : d ∈ (c :: word).dropLast := by
    rcases List.eq_nil_or_concat' digits with rfl | ⟨init, last, rfl⟩
    · cases hd
    · rw [List.dropLast_concat] at hd
      have hsplit : c :: word = minus negative ++ init ++ (last :: blanks) := by
        rw [← hblanks, htrim]
        simp
      rw [hsplit, List.dropLast_append_of_ne_nil (List.cons_ne_nil last blanks)]
      simp [hd]
  rcases hnumerals d hmem with hnumeral | rfl
  · rcases mem_numerals_iff.mp hnumeral with rfl | hdigit
    · exact absurd (hdigits '.' (List.dropLast_subset _ hd)) (by decide)
    · exact hdigit
  · exact absurd (hdigits '-' (List.dropLast_subset _ hd)) (by decide)

end TooLong

/-- The line fails for a whole number with more digits than the limit, in the column in which it begins
behind a command and complete arguments.  Its last digit may be of any script. -/
def Oversized (marks : Marks) (line : String) (r : Reason) : Prop :=
  ∃ front negative digits rest origin,
    (strip line).toList = front ++ (minus negative ++ digits) ++ rest ∧ Opens defaults marks front ∧
    r = .parserFailed TypeName.number (.ofList (minus negative ++ digits)) origin front.length ∧
    digitLimit < digits.length ∧ (∀ d ∈ digits, isDecimalDigit d = true) ∧
    ∀ d ∈ digits.dropLast, d.isDigit = true

/-- **What a line fails to be parsed for.**  Whatever the separators are, with the types that every engine
has a line fails in this way only at a whole number with more digits than the limit. -/
theorem oversized_of_read {marks : Marks} (hne : marks.separators ≠ []) {line : String} {r : Reason}
    (h : read defaults marks line = .error (.ofReason r))
    (hcode : r.code = ErrorCode.parseFailure.toInt) : Oversized marks line r := by
  obtain ⟨separator, separators, hs⟩ := List.exists_cons_of_ne_nil hne
  obtain ⟨-, front, c, rest, htext, hopens, -, hstumbles⟩ := (read_eq_reason_iff defaults_steady hs).mp h
  cases hstumbles with
  | unclaimed _ => cases hcode
  | unclosed _ _ => cases hcode
  | glued _ _ _ _ => cases hcode
  | @misread type scratch word after _ hclaims hcloses hcs hmisread =>
    cases hmisread with
    | refused _ _ => cases hcode
    | answered hparse => exact absurd hparse ((tooLong_of_parse hclaims.mem).2 _)
    | failed hparse =>
      obtain ⟨rfl, e, hnumber⟩ := (tooLong_of_parse hclaims.mem).1 _ hparse
      obtain ⟨negative, digits, blanks, hsplit, htrim, hlimit, hdigits, hcommon⟩ :=
        tooLong_of_closes hclaims hcloses hnumber
      -- the separator that is added stands behind the number
      obtain ⟨after', hafter⟩ : ∃ after', rest = word ++ after' := by
        obtain ⟨d, ds, rfl, -⟩ := hcloses.separated
        obtain ⟨init, last, hlast⟩ := (List.eq_nil_or_concat' (d :: ds)).resolve_left (by simp)
        rw [hlast, ← List.append_assoc] at hcs
        exact ⟨init, (List.append_inj' hcs rfl).1⟩
      refine ⟨front, negative, digits, blanks ++ after', _, ?_, hopens, by rw [htrim]; rfl, hlimit, hdigits,
        hcommon⟩
      rw [toList_strip, htext, hafter, ← List.cons_append, hsplit]
      simp

/-! ### Storing a whole number -/

/-- The line that stores a whole number. -/
def storing (n : Int) : String := "SET $x " ++ .ofList (canonical n)

section Storing
variable (n : Int)

theorem canonical_chars : ∀ c ∈ canonical n, c ∈ numerals ∨ c = '-' := by
  intro c hc
  rcases List.mem_append.mp hc with hc | hc
  · exact .inr (mem_minus hc)
  · exact .inl (mem_numerals_iff.mpr (.inr (isDigit_of_mem_toDigits c hc)))

/-- A whole number is claimed as a number, and goes up to the next separator. -/
theorem spans_canonical : Spans {} number (canonical n) := by
  obtain ⟨c, cs, hcons, hcs⟩ : ∃ c cs, canonical n = c :: cs ∧ ∀ d ∈ cs, d ∈ numerals := by
    obtain ⟨c, cs, hcons⟩ := List.exists_cons_of_ne_nil (Nat.toDigits_ne_nil (n := n.natAbs) (b := 10))
    have hdigits : ∀ d ∈ c :: cs, d ∈ numerals := by
      intro d hd
      rw [← hcons] at hd
      exact mem_numerals_iff.mpr (.inr (isDigit_of_mem_toDigits d hd))
    unfold canonical
    rw [hcons]
    cases decide (n < 0) with
    | true => exact ⟨'-', c :: cs, rfl, hdigits⟩
    | false => exact ⟨c, cs, rfl, fun d hd => hdigits d (List.mem_cons_of_mem _ hd)⟩
  have hc := canonical_chars n c (by simp [hcons])
  refine ⟨c, cs, {}, hcons, separates_of_numeral hc, claims_number hc, fun rest hrest => ?_⟩
  refine closes_ofClasses rfl ?_ ?_ hrest
  · intro d hd
    simpa using hcs d hd
  · intro d hd
    rcases separates_default_iff.mp hd with rfl | rfl <;> decide

/-- The variable that it is stored in. -/
def target : Value := ⟨TypeName.reference, .text "$x", some "$x"⟩

/-- In front of a separator, the variable is an argument. -/
theorem isArgument_target {rest : List Char} (hrest : ({} : Marks).Separated rest) :
    IsArgument defaults {} ['$', 'x'] rest target := by
  have hwell : (Literal.reference ['x']).WellFormed := ⟨by simp, by decide⟩
  obtain ⟨v, hargument, hdenotes⟩ := isArgument_literal hwell (spans_literal hwell) hrest
  have hv : v = target := hdenotes.unique ⟨rfl, rfl, rfl⟩
  rwa [hv] at hargument

theorem arguments_target : Arguments defaults {} [⟨[' '], ['$', 'x']⟩] [' '] [target] := by
  have hspace : ∀ c ∈ [' '], ({} : Marks).separates c = true := by decide
  exact .next (by simp) hspace (isArgument_target ⟨' ', [], rfl, rfl⟩) (.none hspace)

/-- The line that prints the variable is read so. -/
theorem read_printing : read defaults {} "PRINT $x" = .ok ⟨"PRINT", [target]⟩ := by
  have hline : "PRINT $x" = .ofList (['P', 'R', 'I', 'N', 'T'] ++ joined [⟨[' '], ['$', 'x']⟩] []) := rfl
  have hword : IsCommandWord ['P', 'R', 'I', 'N', 'T'] :=
    isCommandWord_of_isNameChar (by simp) (by decide)
  have hread := read_joined hword (by decide) arguments_target
  rw [hline, hread]
  rfl

/-- Behind the variable and a space, the next argument can begin. -/
theorem opens_storing : Opens defaults {} "SET $x ".toList :=
  ⟨⟨"SET", _⟩, ⟨[], ['S', 'E', 'T'], [⟨[' '], ['$', 'x']⟩], [' ']⟩,
    ⟨rfl, nofun, by simp, by decide, rfl, arguments_target⟩, by simp⟩

theorem canonical_ne_nil : canonical n ≠ [] :=
  List.append_ne_nil_of_right_ne_nil _ Nat.toDigits_ne_nil

theorem trim_canonical : trim (canonical n) = canonical n :=
  trim_eq_self_of_forall fun c hc => isBlank_of_numeral (canonical_chars n c hc)

theorem storing_eq :
    storing n = .ofList (['S', 'E', 'T'] ++ joined [⟨[' '], ['$', 'x']⟩, ⟨[' '], canonical n⟩] []) := by
  rw [storing, ← String.ofList_toList (s := "SET $x " ++ String.ofList (canonical n))]
  simp [joined]

/-- Within the limit the number is an argument. -/
theorem isArgument_canonical (hlimit : (Nat.toDigits 10 n.natAbs).length ≤ digitLimit) :
    IsArgument defaults {} (canonical n) [' '] ⟨TypeName.number, .whole n, some (.ofList (canonical n))⟩ := by
  have hparse := parseNumber_canonical n
  rw [if_pos hlimit] at hparse
  have hargument := isArgument_of_spans (spans_canonical n) ⟨' ', [], rfl, rfl⟩
    (parse_number_eq_ok_iff.mpr hparse) rfl
  rwa [strip_ofList (trim_canonical n)] at hargument

/-- Beyond the limit the reader stumbles over it. -/
theorem stumbles_canonical (hlimit : digitLimit < (Nat.toDigits 10 n.natAbs).length) :
    ∃ c cs origin, canonical n = c :: cs ∧ ({} : Marks).separates c = false ∧
      Stumbles defaults {} 7 c (cs ++ [' '])
        (.parserFailed TypeName.number (.ofList (canonical n)) origin 7) := by
  have hparse := parseNumber_canonical n
  rw [if_neg (by omega)] at hparse
  obtain ⟨c, cs, scratch, hcons, hc, hclaims, hcloses⟩ := spans_canonical n
  have hfails : number.lexis.parse (.ofList (c :: cs)) = .error (.ofConversion
      (.numeral (.tooLong (Nat.toDigits 10 n.natAbs).length))) := by
    rw [← hcons]
    simp only [number, Lexis.ofClasses, hparse]
  have hstumbles : Stumbles defaults {} 7 c (cs ++ [' ']) _ :=
    .misread hclaims (hcloses [' '] ⟨' ', [], rfl, rfl⟩) rfl (.failed hfails)
  rw [← hcons, trim_canonical] at hstumbles
  exact ⟨c, cs, _, hcons, hc, hstumbles⟩

/-- The line is read as the command with the variable and the number, or fails in the column of the number
because it has too many digits. -/
theorem read_storing :
    ((Nat.toDigits 10 n.natAbs).length ≤ digitLimit →
      read defaults {} (storing n) =
        .ok ⟨"SET", [target, ⟨TypeName.number, .whole n, some (.ofList (canonical n))⟩]⟩) ∧
    (digitLimit < (Nat.toDigits 10 n.natAbs).length → ∃ origin,
      read defaults {} (storing n) = .error (.ofReason
        (.parserFailed TypeName.number (.ofList (canonical n)) origin 7))) := by
  have hword : IsCommandWord ['S', 'E', 'T'] := isCommandWord_of_isNameChar (by simp) (by decide)
  have hpieces : ∀ p ∈ [(⟨[' '], ['$', 'x']⟩ : Piece), ⟨[' '], canonical n⟩],
      p.word ≠ [] ∧ trim p.word = p.word := by
    simpa using ⟨by decide, canonical_ne_nil n, trim_canonical n⟩
  constructor
  · intro hlimit
    have hspace : ∀ c ∈ [' '], ({} : Marks).separates c = true := by decide
    have harguments : Arguments defaults {} [⟨[' '], canonical n⟩] [' '] _ :=
      .next (by simp) hspace (isArgument_canonical n hlimit) (.none hspace)
    have hread := read_joined hword hpieces (.next (by simp) hspace
      (isArgument_target (harguments.separated ⟨' ', [], rfl, rfl⟩)) harguments)
    rw [storing_eq, hread]
    rfl
  · intro hlimit
    obtain ⟨c, cs, origin, hcons, hc, hstumbles⟩ := stumbles_canonical n hlimit
    have htext : trim (storing n).toList = "SET $x ".toList ++ c :: cs := by
      rw [storing_eq, String.toList_ofList,
        trim_joined hword.nonempty hword.begins (fun _ => hword.ends) hpieces, hcons]
      simp [joined]
    have hcomment : ({} : Marks).isComment (trim (storing n).toList) = false := by
      rw [htext]
      rfl
    exact ⟨origin, (read_eq_reason_iff defaults_steady rfl).mpr
      ⟨hcomment, "SET $x ".toList, c, cs, htext, opens_storing, hc, hstumbles⟩⟩

end Storing

end CommandBatch.Line
