import CommandBatch.Proofs.Line.Extension
import CommandBatch.Proofs.Line.Segmentation

/-!
# Lines that cannot be read

A line that cannot be read has complete arguments up to a character that begins one that is not.  Either no
type claims this character, or the type that does finds no end of the argument, or an end with no separator
behind it, or makes no value of it.  `Stumbles` has a constructor for each, and none of them speaks of the
reader; `read_eq_error_iff` says that the reader fails for such a reason and for no other, if the types do
not break off.
-/

namespace CommandBatch

/-- The type that has made no value of an argument, if a line fails for that. -/
def Reason.misreader : Reason → Option String
  | .parserFailed type .. | .parserAnswered type .. | .invalidLiteral type .. => some type
  | _ => none

namespace Line

open Text

variable {types : List TokenType} {marks : Marks}

/-- What holds of the last character of a text holds of the last of its end. -/
theorem last_of_append {p : Char → Prop} (front : List Char) {rest : List Char}
    (h : ∀ d ∈ (front ++ rest).getLast?, p d) : ∀ d ∈ rest.getLast?, p d := by
  cases rest with
  | nil => simp
  | cons c cs => rwa [List.getLast?_append_of_ne_nil _ (List.cons_ne_nil c cs)] at h

/-! ### Arguments without an end -/

/-- Inside an argument about which `scratch` is noted, no character of the text ends it. -/
inductive Lasts (type : TokenType) : Scratch → List Char → Prop
  | nil {s} : Lasts type s []
  | goesOn {c s s' cs} : type.lexis.ends c s = .ok (false, s') → Lasts type s' cs → Lasts type s (c :: cs)

/-- Inside an argument about which `scratch` is noted, the last character of the text is the first to end
it, and no separator. -/
inductive Shuts (marks : Marks) (type : TokenType) : Scratch → List Char → Prop
  | last {c s s'} : type.lexis.ends c s = .ok (true, s') → marks.separates c = false →
      Shuts marks type s [c]
  | goesOn {c s s' word} : type.lexis.ends c s = .ok (false, s') → Shuts marks type s' word →
      Shuts marks type s (c :: word)

section Ends
variable {type : TokenType} {s : Scratch} {word cs rest more : List Char}

/-- A text that ends in a separator holds the end of an argument, or has no end of it, or an end that no
separator follows. -/
theorem closes_or_not (steady : type.lexis.Steady) (s : Scratch)
    (hlast : ∀ d ∈ cs.getLast?, marks.separates d = true) :
    (∃ word rest, cs = word ++ rest ∧ Closes marks type s word rest) ∨ Lasts type s cs ∨
      ∃ word next rest, cs = word ++ next :: rest ∧ Shuts marks type s word ∧
        marks.separates next = false := by
  induction cs generalizing s with
  | nil => exact .inr (.inl .nil)
  | cons c cs ih =>
    obtain ⟨⟨ends, s'⟩, hends⟩ := steady.2 c s
    cases ends with
    | false =>
      rcases ih s' (last_of_append [c] hlast) with ⟨word, rest, rfl, hcloses⟩ | hlasts | ⟨word, next, rest, rfl, hshuts, hnext⟩
      · exact .inl ⟨c :: word, rest, rfl, .goesOn hends hcloses⟩
      · exact .inr (.inl (.goesOn hends hlasts))
      · exact .inr (.inr ⟨c :: word, next, rest, rfl, .goesOn hends hshuts, hnext⟩)
    | true =>
      cases hc : marks.separates c with
      | true => exact .inl ⟨[], c :: cs, rfl, .dropped hends hc⟩
      | false =>
        cases cs with
        | nil =>
          have hseparates := hlast c rfl
          rw [hc] at hseparates
          cases hseparates
        | cons next rest =>
          cases hnext : marks.separates next with
          | true => exact .inl ⟨[c], next :: rest, rfl, .kept hends hc hnext⟩
          | false => exact .inr (.inr ⟨[c], next, rest, rfl, .last hends hc, hnext⟩)

theorem closes_cons_iff {c : Char} {b : Bool} {s' : Scratch} (hends : type.lexis.ends c s = .ok (b, s')) :
    Closes marks type s (c :: cs) rest ↔
      (b = true ∧ marks.separates c = false ∧ cs = [] ∧ marks.Separated rest) ∨
        b = false ∧ Closes marks type s' cs rest := by
  constructor
  · intro h
    cases h with
    | kept hends' hc hd =>
      rw [hends] at hends'
      cases hends'
      exact .inl ⟨rfl, hc, rfl, _, _, rfl, hd⟩
    | goesOn hends' h =>
      rw [hends] at hends'
      cases hends'
      exact .inr ⟨rfl, h⟩
  · rintro (⟨rfl, hc, rfl, d, ds, rfl, hd⟩ | ⟨rfl, h⟩)
    · exact .kept hends hc hd
    · exact .goesOn hends h

theorem lasts_cons_iff {c : Char} {b : Bool} {s' : Scratch} (hends : type.lexis.ends c s = .ok (b, s')) :
    Lasts type s (c :: cs) ↔ b = false ∧ Lasts type s' cs := by
  constructor
  · intro h
    cases h with
    | goesOn hends' h =>
      rw [hends] at hends'
      cases hends'
      exact ⟨rfl, h⟩
  · rintro ⟨rfl, h⟩
    exact .goesOn hends h

theorem Lasts.readArguments (h : Lasts type s cs) (start column : Nat) (read : List Char) :
    readArguments types marks (.inside type s start read) column cs =
      .error (.ofReason (.unclosed type.name start)) := by
  induction h generalizing column read with
  | nil => rfl
  | goesOn hends _ ih => rw [readArguments_goesOn hends, ih]

theorem Shuts.readArguments {next : Char} (h : Shuts marks type s word)
    (hnext : marks.separates next = false) (start column : Nat) (read : List Char) :
    readArguments types marks (.inside type s start read) column (word ++ next :: rest) =
      .error (.ofReason (.glued next type.name (column + word.length))) := by
  induction h generalizing column read with
  | last hends hc =>
    rw [List.singleton_append, readArguments_ends hends, if_neg (by simp [hc]), readArguments_glued hnext,
      List.length_singleton]
  | goesOn hends _ ih =>
    rw [List.cons_append, readArguments_goesOn hends, ih, List.length_cons, Nat.add_right_comm,
      Nat.add_assoc]

/-- Where an argument ends is seen from the character behind it. -/
theorem Closes.of_append (h : Closes marks type s word (rest ++ more)) (hne : rest ≠ []) :
    Closes marks type s word rest := by
  generalize he : rest ++ more = whole at h
  obtain ⟨d, ds, rfl⟩ := List.exists_cons_of_ne_nil hne
  induction h with
  | dropped hends hc =>
    obtain ⟨rfl, -⟩ := List.cons.inj he
    exact .dropped hends hc
  | kept hends hc hd =>
    obtain ⟨rfl, -⟩ := List.cons.inj he
    exact .kept hends hc hd
  | goesOn hends _ ih => exact .goesOn hends (ih he)

theorem IsArgument.of_append {v : Value} (h : IsArgument types marks word (rest ++ more) v)
    (hne : rest ≠ []) : IsArgument types marks word rest v := by
  obtain ⟨c, cs, type, scratch, u, hword, hc, hclaims, hcloses, hparse⟩ := h
  exact ⟨c, cs, type, scratch, u, hword, hc, hclaims, hcloses.of_append hne, hparse⟩

end Ends

/-! ### Arguments without a value -/

/-- The type makes no value of a text that begins in a column, for this reason. -/
inductive Misread (type : TokenType) (text : List Char) (start : Nat) : Reason → Prop
  | failed {f : Fault} (hparse : type.lexis.parse (.ofList text) = .error f) :
      Misread type text start (.parserFailed type.name (.ofList (trim text)) f.asOrigin start)
  | answered {d : Datum} (hparse : type.lexis.parse (.ofList text) = .ok (.data d)) :
      Misread type text start (.parserAnswered type.name d.kind start)
  | refused {v : Value} (hparse : type.lexis.parse (.ofList text) = .ok (.value v))
      (herror : v.isError = true) :
      Misread type text start (.invalidLiteral type.name (.ofList (trim text)) start)

theorem Misread.misreader {type : TokenType} {text : List Char} {start : Nat} {r : Reason}
    (h : Misread type text start r) : r.misreader = some type.name := by
  cases h <;> rfl

theorem finish_eq_error_iff {type : TokenType} {text : List Char} {start : Nat} {f : Fault} :
    finish type text start = .error f ↔ ∃ r, Misread type text start r ∧ f = .ofReason r := by
  constructor
  · intro h
    unfold finish at h
    cases hparse : type.lexis.parse (.ofList text) with
    | error g =>
      simp only [hparse] at h
      exact ⟨_, .failed hparse, (Except.error.inj h).symm⟩
    | ok reading =>
      cases reading with
      | data d =>
        simp only [hparse] at h
        exact ⟨_, .answered hparse, (Except.error.inj h).symm⟩
      | value v =>
        simp only [hparse] at h
        split at h
        · next herror => exact ⟨_, .refused hparse herror, (Except.error.inj h).symm⟩
        · cases h
  · rintro ⟨r, h, rfl⟩
    cases h with
    | failed hparse => rw [finish, hparse]
    | answered hparse => rw [finish, hparse]
    | refused hparse herror =>
      simp only [finish, hparse]
      rw [if_pos herror]

/-! ### Where a line stumbles -/

/-- Types that do not break off refuse a character, or one of them is the first to claim it. -/
theorem refuse_or_claims (steady : ∀ type ∈ types, type.lexis.Steady) (c : Char) :
    (∀ type ∈ types, type.Refuses c) ∨ ∃ type scratch, Claims types c type scratch := by
  induction types with
  | nil => exact .inl nofun
  | cons first types ih =>
    obtain ⟨hfirst, hothers⟩ := List.forall_mem_cons.mp steady
    obtain ⟨⟨begins, scratch⟩, hbegins⟩ := hfirst.1 c {}
    cases begins with
    | true => exact .inr ⟨first, scratch, claims_cons_iff.mpr (.inl ⟨rfl, hbegins⟩)⟩
    | false =>
      rcases ih hothers with hrefuse | ⟨type, scratch', hclaims⟩
      · exact .inl (List.forall_mem_cons.mpr ⟨⟨scratch, hbegins⟩, hrefuse⟩)
      · exact .inr ⟨type, scratch', claims_cons_iff.mpr (.inr ⟨⟨scratch, hbegins⟩, hclaims⟩)⟩

/-- The argument that begins with `c` in a column, and has `cs` behind `c`, cannot be read for this
reason. -/
inductive Stumbles (types : List TokenType) (marks : Marks) (start : Nat) (c : Char) (cs : List Char) :
    Reason → Prop
  /-- No type claims its first character. -/
  | unclaimed (hrefuse : ∀ type ∈ types, type.Refuses c) :
      Stumbles types marks start c cs (.unclaimed c start)
  /-- Nothing ends it. -/
  | unclosed {type : TokenType} {scratch : Scratch} (hclaims : Claims types c type scratch)
      (hlasts : Lasts type scratch cs) : Stumbles types marks start c cs (.unclosed type.name start)
  /-- Its last character is no separator, and none follows. -/
  | glued {type : TokenType} {scratch : Scratch} {word rest : List Char} {next : Char}
      (hclaims : Claims types c type scratch) (hshuts : Shuts marks type scratch word)
      (hcs : cs = word ++ next :: rest) (hnext : marks.separates next = false) :
      Stumbles types marks start c cs (.glued next type.name (start + (c :: word).length))
  /-- It has an end, and its type makes no value of it. -/
  | misread {type : TokenType} {scratch : Scratch} {word rest : List Char} {r : Reason}
      (hclaims : Claims types c type scratch) (hcloses : Closes marks type scratch word rest)
      (hcs : cs = word ++ rest) (hmisread : Misread type (c :: word) start r) :
      Stumbles types marks start c cs r

section Stumbles
variable {start column : Nat} {c : Char} {cs rest : List Char} {r : Reason}

theorem Stumbles.readArguments (h : Stumbles types marks start c cs r)
    (hc : marks.separates c = false) :
    readArguments types marks .between start (c :: cs) = .error (.ofReason r) := by
  rw [readArguments_begins hc]
  cases h with
  | unclaimed hrefuse =>
    rw [claim_of_all_refuse hrefuse]
    rfl
  | unclosed hclaims hlasts =>
    rw [claim_eq_ok_iff.mpr hclaims]
    exact hlasts.readArguments _ _ _
  | @glued type scratch word rest next hclaims hshuts hcs hnext =>
    rw [claim_eq_ok_iff.mpr hclaims, hcs]
    refine (hshuts.readArguments hnext start (start + 1) [c]).trans ?_
    rw [List.length_cons, Nat.add_comm word.length, ← Nat.add_assoc]
  | misread hclaims hcloses hcs hmisread =>
    rw [claim_eq_ok_iff.mpr hclaims, hcs]
    refine (readArguments_closes hcloses start (start + 1) [c]).trans ?_
    rw [List.reverse_singleton, List.singleton_append, finish_eq_error_iff.mpr ⟨r, hmisread, rfl⟩]
    rfl

/-- In front of a separator at the end, what begins with a character outside the separators is an argument,
or the reader stumbles over it. -/
theorem stumbles_or_argument (steady : ∀ type ∈ types, type.lexis.Steady)
    (hlast : ∀ d ∈ cs.getLast?, marks.separates d = true) (hc : marks.separates c = false)
    (start : Nat) :
    (∃ r, Stumbles types marks start c cs r) ∨
      ∃ word rest v, cs = word ++ rest ∧ marks.Separated rest ∧
        IsArgument types marks (c :: word) rest v := by
  rcases refuse_or_claims steady c with hrefuse | ⟨type, scratch, hclaims⟩
  · exact .inl ⟨_, .unclaimed hrefuse⟩
  rcases closes_or_not (steady type hclaims.mem) scratch hlast with
    ⟨word, rest, rfl, hcloses⟩ | hlasts | ⟨word, next, rest, rfl, hshuts, hnext⟩
  · cases hfinish : finish type (c :: word) start with
    | error f =>
      obtain ⟨r, hmisread, -⟩ := finish_eq_error_iff.mp hfinish
      exact .inl ⟨r, .misread hclaims hcloses rfl hmisread⟩
    | ok v =>
      obtain ⟨u, hparse, herror, -⟩ := finish_eq_ok_iff.mp hfinish
      exact .inr ⟨word, rest, _, rfl, hcloses.separated, c, word, type, scratch, u, rfl, hc, hclaims,
        hcloses, hparse, herror, rfl⟩
  · exact .inl ⟨_, .unclosed hclaims hlasts⟩
  · exact .inl ⟨_, .glued hclaims hshuts rfl hnext⟩

end Stumbles

/-- A reader that fails has read complete arguments, and stumbles over what begins behind them. -/
theorem stumbles_of_readArguments (steady : ∀ type ∈ types, type.lexis.Steady) {text : List Char}
    {column : Nat} {f : Fault} (htext : marks.Separated text)
    (hlast : ∀ d ∈ text.getLast?, marks.separates d = true)
    (h : readArguments types marks .between column text = .error f) :
    ∃ pieces tail vs c rest r, text = joined pieces tail ++ c :: rest ∧ tail ≠ [] ∧
      Arguments types marks pieces tail vs ∧ marks.separates c = false ∧
      Stumbles types marks (column + (joined pieces tail).length) c rest r ∧ f = .ofReason r := by
  -- what is left behind an argument is shorter, and begins and ends with a separator again
  induction hn : text.length using Nat.strongRecOn generalizing text column with
  | ind n ih =>
    have hgap : ∀ c ∈ text.takeWhile marks.separates, marks.separates c = true :=
      fun c hc => List.mem_takeWhile_imp hc
    have hne : text.takeWhile marks.separates ≠ [] := by
      obtain ⟨s, ss, rfl, hs⟩ := htext
      simp [hs]
    have he : text.takeWhile marks.separates ++ text.dropWhile marks.separates = text :=
      List.takeWhile_append_dropWhile
    generalize text.takeWhile marks.separates = gap at hgap hne he
    cases hdrop : text.dropWhile marks.separates with
    | nil =>
      rw [hdrop, List.append_nil] at he
      rw [← he, ← List.append_nil gap, readArguments_gap hgap] at h
      cases h
    | cons c cs =>
      have hc : marks.separates c = false := by
        simpa [hdrop] using List.head_dropWhile_not marks.separates (l := text) (by simp [hdrop])
      rw [hdrop] at he
      have hlastCs : ∀ d ∈ cs.getLast?, marks.separates d = true := by
        refine last_of_append (gap ++ [c]) ?_
        rwa [List.append_assoc, List.singleton_append, he]
      rcases stumbles_or_argument steady hlastCs hc (column + gap.length) with
        ⟨r, hstumbles⟩ | ⟨word, rest, v, rfl, hrest, hargument⟩
      · refine ⟨[], gap, [], c, cs, r, he.symm, hne, .none hgap, hc, hstumbles, ?_⟩
        rw [← he, readArguments_gap hgap, hstumbles.readArguments hc] at h
        exact (Except.error.inj h).symm
      · rw [← he, readArguments_gap hgap, ← List.cons_append, readArguments_argument hargument] at h
        have hlength : rest.length < n := by
          rw [← hn, ← he]
          simp only [List.length_append, List.length_cons]
          omega
        obtain ⟨pieces, tail, vs, c', rest', r, rfl, htail, harguments, hc', hstumbles, hf⟩ :=
          ih _ hlength hrest (last_of_append (_ : List Char) hlastCs) (map_eq_error_iff.mp h) rfl
        have hjoined : joined pieces tail ≠ [] := by
          obtain ⟨_, _, hcons, -⟩ := harguments.separated_of_ne_nil htail
          simp [hcons]
        refine ⟨⟨gap, c :: word⟩ :: pieces, tail, v :: vs, c', rest', r, ?_, htail,
          .next hne hgap (hargument.of_append hjoined) harguments, hc', ?_, hf⟩
        · rw [← he, joined]
          simp
        · have hcolumn : column + gap.length + (c :: word).length + (joined pieces tail).length =
              column + (joined (⟨gap, c :: word⟩ :: pieces) tail).length := by
            simp only [joined, List.length_append]
            omega
          rwa [hcolumn] at hstumbles

/-! ### Lines -/

/-- The text is a command and complete arguments, with a separator behind them: the next argument can
begin. -/
def Opens (types : List TokenType) (marks : Marks) (text : List Char) : Prop :=
  ∃ l s, Split.Of types marks text l s ∧ s.tail ≠ []

theorem Opens.ne_nil {text : List Char} (h : Opens types marks text) : text ≠ [] := by
  obtain ⟨l, s, hof, htail⟩ := h
  rintro rfl
  have hwhole := hof.whole
  rw [Split.text, List.append_eq_nil_iff, List.append_eq_nil_iff] at hwhole
  exact hof.nonempty hwhole.1.2

/-- **Why a line cannot be read.**  For types that do not break off, a line that is no comment fails exactly
when, behind a command and complete arguments, an argument begins that cannot be read. -/
theorem read_eq_error_iff (steady : ∀ type ∈ types, type.lexis.Steady) {separator : Char}
    {separators : List Char} (hs : marks.separators = separator :: separators) {line : String} {f : Fault} :
    read types marks line = .error f ↔
      marks.isComment (trim line.toList) = false ∧ ∃ front c rest r,
        trim line.toList = front ++ c :: rest ∧ Opens types marks front ∧ marks.separates c = false ∧
        Stumbles types marks front.length c (rest ++ [separator]) r ∧ f = .ofReason r := by
  have hseparator : marks.separates separator = true := by simp [Marks.separates, hs]
  constructor
  · intro h
    have hcases : read types marks line = .ok {} ∨ _ := read_cases hs line
    rcases hcases with hempty | ⟨-, hcomment, margin, word, text, he, hmargin, hword, hwne, htext, hread⟩
    · rw [hempty] at h
      cases h
    rw [hread] at h
    have hlast : ∀ d ∈ text.getLast?, marks.separates d = true := by
      obtain ⟨d, ds, hcons, -⟩ := htext
      have hend := congrArg List.getLast? he
      rw [hcons, List.getLast?_append_of_ne_nil _ (List.cons_ne_nil d ds), List.getLast?_concat] at hend
      rw [hcons, ← hend]
      rintro _ ⟨⟩
      exact hseparator
    obtain ⟨pieces, tail, vs, c, rest, r, rfl, htail, harguments, hc, hstumbles, rfl⟩ :=
      stumbles_of_readArguments steady htext hlast (map_eq_error_iff.mp h)
    have hcne : c ≠ separator := by
      rintro rfl
      rw [hc] at hseparator
      cases hseparator
    rw [← List.append_assoc] at he
    obtain ⟨init, rfl, htrim⟩ := cut_of_concat he hcne
    refine ⟨hcomment, margin ++ word ++ joined pieces tail, c, init, r, htrim, ?_, hc, ?_, rfl⟩
    · exact ⟨⟨.ofList (upperList word), vs⟩, ⟨margin, word, pieces, tail⟩,
        ⟨rfl, hmargin, hwne, hword, rfl, harguments⟩, htail⟩
    · simpa only [List.length_append] using hstumbles
  · rintro ⟨hcomment, front, c, rest, r, htrim, ⟨l, s, hof, htail⟩, hc, hstumbles, rfl⟩
    obtain ⟨margin, word, pieces, tail⟩ := s
    obtain ⟨rfl, hmargin, hwne, hword, -, harguments⟩ := hof
    simp only [Split.text] at htrim hmargin hwne hword harguments hstumbles
    have he : trim line.toList ++ [separator] =
        margin ++ word ++ (joined pieces tail ++ c :: (rest ++ [separator])) := by
      rw [htrim]
      simp
    obtain ⟨d, ds, hcons, hd⟩ := harguments.separated_of_ne_nil htail
    have hread : readText types marks (trim line.toList) = _ :=
      readText_behind hs hmargin hword hwne (readArguments_joined harguments _) he
        ⟨d, ds ++ c :: (rest ++ [separator]), by rw [hcons, List.cons_append], hd⟩
    rw [read_eq_readText (by simp [htrim]) hcomment, hread]
    have hcolumn : (margin ++ word ++ joined pieces tail).length =
        margin.length + word.length + (joined pieces tail).length := by simp [Nat.add_assoc]
    rw [hcolumn] at hstumbles
    rw [hstumbles.readArguments hc]
    rfl

theorem read_eq_reason_iff (steady : ∀ type ∈ types, type.lexis.Steady) {separator : Char}
    {separators : List Char} (hs : marks.separators = separator :: separators) {line : String} {r : Reason} :
    read types marks line = .error (.ofReason r) ↔
      marks.isComment (trim line.toList) = false ∧ ∃ front c rest,
        trim line.toList = front ++ c :: rest ∧ Opens types marks front ∧ marks.separates c = false ∧
        Stumbles types marks front.length c (rest ++ [separator]) r := by
  rw [read_eq_error_iff steady hs]
  constructor
  · rintro ⟨hcomment, front, c, rest, r', htext, hopens, hc, hstumbles, he⟩
    obtain rfl : r = r' := congrArg Failure.reason (Fault.failure.inj he)
    exact ⟨hcomment, front, c, rest, htext, hopens, hc, hstumbles⟩
  · rintro ⟨hcomment, front, c, rest, htext, hopens, hc, hstumbles⟩
    exact ⟨hcomment, front, c, rest, r, htext, hopens, hc, hstumbles, rfl⟩

end Line

end CommandBatch
