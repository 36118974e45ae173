import CommandBatch.Proofs.Line.Concatenation
import CommandBatch.Proofs.Registry.Types
import CommandBatch.Token.Array

/-!
# Lines read with more types

The types are asked in one place only: between two arguments, about the first character of the next.  So
if more types change the answer there about nothing but characters that nobody claimed before, a line is
read as before unless it failed at such a character (`read_extends`); and where it did, it is read as before
up to this character (`unclaimed_of_read`).  Two registrations are of this kind.  A type that is registered
once more lands behind itself and is never chosen (`read_registered_again`).  The type of arrays comes
first and claims the opening bracket, which no other type begins with (`read_with_tensor`).
-/

namespace CommandBatch

/-- A reader counts its columns from the left margin. -/
theorem Reason.OfReading.exists_column {r : Reason} (h : r.OfReading) :
    ∃ column : Nat, r.column = some (column : Int) := by
  cases r with
  | unclaimed | glued | unclosed | parserFailed | parserAnswered | invalidLiteral =>
    exact ⟨_, rfl⟩
  | _ => cases h

namespace Line

open Text StableOrder

variable {types more : List TokenType} {marks : Marks} {fresh : Char → Prop}

/-! ### Types that claim more characters -/

/-- With the types `more`, each character is claimed as with `types`, except the fresh ones, which
`types` leave unclaimed. -/
structure Extends (more types : List TokenType) (fresh : Char → Prop) : Prop where
  same : ∀ c column, ¬fresh c → claim more c column = claim types c column
  unclaimed : ∀ c column, fresh c → claim types c column = .error (.ofReason (.unclaimed c column))

theorem Extends.step (h : Extends more types fresh) (c : Char) (column : Nat) (p : Position) :
    step more marks c column p = step types marks c column p ∨
      fresh c ∧ step types marks c column p = .error (.ofReason (.unclaimed c column)) := by
  cases p with
  | between =>
    by_cases hc : marks.separates c = true
    · exact .inl (by simp only [Line.step, hc, ↓reduceIte])
    · by_cases hfresh : fresh c
      · exact .inr ⟨hfresh, by simp [Line.step, hc, h.unclaimed c column hfresh, Except.map]⟩
      · exact .inl (by simp only [Line.step, hc, h.same c column hfresh])
  | inside => exact .inl rfl
  | closed => exact .inl rfl

/-- Unless the reader fails at a fresh character, it does the same with more types. -/
theorem readArguments_extends (h : Extends more types fresh) {p : Position} {column : Nat}
    {cs : List Char}
    (hread : ∀ c k, fresh c →
      readArguments types marks p column cs ≠ .error (.ofReason (.unclaimed c k))) :
    readArguments more marks p column cs = readArguments types marks p column cs := by
  induction cs generalizing p column with
  | nil => cases p <;> rfl
  | cons c cs ih =>
    simp only [readArguments_cons c cs] at hread ⊢
    have hstep : Line.step more marks c column p = Line.step types marks c column p ∨ _ :=
      h.step c column p
    rcases hstep with hsame | ⟨hfresh, hfails⟩
    · rw [hsame]
      cases hr : Line.step types marks c column p with
      | error f => rfl
      | ok r =>
        simp only [hr, Except.bind] at hread ⊢
        rw [ih]
        intro d k hd hfails
        exact hread d k hd (by rw [hfails]; rfl)
    · exact absurd (by rw [hfails]; rfl) (hread c column hfresh)

theorem readText_extends (h : Extends more types fresh) {text : List Char}
    (hread : ∀ c k, fresh c → readText types marks text ≠ .error (.ofReason (.unclaimed c k))) :
    readText more marks text = readText types marks text := by
  cases hs : marks.separators with
  | nil => simp only [readText, hs]
  | cons separator separators =>
    rcases separates_or_split hs text with hall | ⟨margin, word, rest, he, hmargin, hword, hne, hrest⟩
    · rw [readText_separators hs hall, readText_separators hs hall]
    · rw [readText_eq hs he hmargin hword hne hrest] at hread
      rw [readText_eq hs he hmargin hword hne hrest, readText_eq hs he hmargin hword hne hrest,
        readArguments_extends h]
      intro c k hc hfails
      exact hread c k hc (by rw [hfails]; rfl)

/-- **More types** change nothing for a line that does not fail at a fresh character. -/
theorem read_extends (h : Extends more types fresh) {line : String}
    (hread : ∀ c k, fresh c → read types marks line ≠ .error (.ofReason (.unclaimed c k))) :
    read more marks line = read types marks line := by
  unfold read at hread ⊢
  dsimp only at hread ⊢
  split
  · rfl
  · next hline =>
    rw [if_neg hline] at hread
    exact readText_extends h hread

/-! ### A type that is registered once more -/

section Again
variable {before after : List TokenType} {type : TokenType} {c : Char}

/-- A type that refuses a character may be left out. -/
theorem claim_without (h : type.Refuses c) (column : Nat) :
    claim (before ++ type :: after) c column = claim (before ++ after) c column := by
  induction before with
  | nil => exact claim_cons_of_refuses h
  | cons first before ih => rw [List.cons_append, List.cons_append, claim, claim, ih]

/-- Behind a type, the same type once more is never chosen. -/
theorem claim_duplicate (hmem : type ∈ before) (column : Nat) :
    claim (before ++ type :: after) c column = claim (before ++ after) c column := by
  induction before with
  | nil => cases hmem
  | cons first before ih =>
    rw [List.cons_append, List.cons_append, claim, claim]
    cases hbegins : first.lexis.begins c {} with
    | error f => rfl
    | ok r =>
      obtain ⟨begins, scratch⟩ := r
      cases begins with
      | true => rfl
      | false =>
        rcases List.mem_cons.mp hmem with rfl | hmem
        · exact claim_without ⟨scratch, hbegins⟩ column
        · exact ih hmem

/-- In sorted types, a type that is there already lands behind itself. -/
theorem claim_insert_of_mem (hsorted : types.Pairwise (·.rank ≤ ·.rank)) (hmem : type ∈ types)
    (column : Nat) : claim (TypeRegistry.insert type types) c column = claim types c column := by
  have hbefore : type ∈ types.takeWhile (·.rank ≤ type.rank) := by
    rw [← List.takeWhile_append_dropWhile (p := (·.rank ≤ type.rank)) (l := types)] at hmem
    rcases List.mem_append.mp hmem with hmem | hmem
    · exact hmem
    · exact absurd (lt_of_mem_dropWhile hsorted hmem) (lt_irrefl _)
  rw [TypeRegistry.insert_eq_place, place, claim_duplicate hbefore, List.takeWhile_append_dropWhile]

/-- **A type that is registered once more** changes nothing: the registry takes it, and every line is read
as before or fails as before. -/
theorem read_registered_again {qs : List TypeRequest}
    (hmem : type ∈ (TypeRegistry.filled qs).types) (marks : Marks) (line : String) :
    ∃ r, (TypeRegistry.filled qs).registerType type = .ok r ∧
      read r.types marks line = read (TypeRegistry.filled qs).types marks line := by
  have htypes := TypeRegistry.types_filled qs
  have hsorted : (TypeRegistry.filled qs).types.Pairwise (·.rank ≤ ·.rank) :=
    htypes ▸ sorted_pairwise _
  obtain ⟨q, -, hq⟩ := List.mem_filterMap.mp (mem_sorted.mp (htypes ▸ hmem))
  obtain ⟨rfl, -⟩ := TypeRequest.granted?_eq_some_iff.mp hq
  refine ⟨_, TypeRegistry.register_eq_ok hq _, ?_⟩
  have hextends : Extends (place TokenType.rank type (TypeRegistry.filled qs).types)
      (TypeRegistry.filled qs).types fun _ => False :=
    { same := fun c column _ => by
        rw [← TypeRegistry.insert_eq_place, claim_insert_of_mem hsorted hmem]
      unclaimed := fun _ _ h => h.elim }
  exact read_extends hextends fun _ _ h => h.elim

/-- Numbers are registered once more in a registry with arrays, where they are tried second and last. -/
theorem read_registered_again_number :
    ∃ r, (TypeRegistry.filled ((Token.defaults ++ [Token.tensor]).map fun type =>
        ⟨.text type.name, type.lexis, type.priority⟩)).registerType Token.number = .ok r ∧
      r.types = Token.tensor :: Token.defaults ++ [Token.number] ∧
      read r.types {} "add -1 'two' $x" = .ok ⟨"ADD", [⟨TypeName.number, .whole (-1), some "-1"⟩,
        ⟨TypeName.string, .text "two", some "'two'"⟩,
        ⟨TypeName.reference, .text "$x", some "$x"⟩]⟩ := by
  have hmem : Token.number ∈ (TypeRegistry.filled ((Token.defaults ++ [Token.tensor]).map fun type =>
      ⟨.text type.name, type.lexis, type.priority⟩)).types :=
    List.mem_cons_of_mem Token.tensor (List.mem_cons_self ..)
  obtain ⟨r, hr, hread⟩ := read_registered_again hmem {} "add -1 'two' $x"
  cases hr
  exact ⟨_, rfl, rfl, hread.trans rfl⟩

end Again

/-! ### Characters that nobody claims -/

theorem eq_of_claim_unclaimed (steady : ∀ type ∈ types, type.lexis.Steady) {c d : Char}
    {column k : Nat} (h : claim types d column = .error (.ofReason (.unclaimed c k))) :
    d = c ∧ k = column := by
  induction types with
  | nil => cases h; exact ⟨rfl, rfl⟩
  | cons type types ih =>
    obtain ⟨⟨begins, scratch⟩, hbegins⟩ := (steady type (List.mem_cons_self ..)).1 d {}
    rw [claim, hbegins] at h
    cases begins with
    | true => cases h
    | false => exact ih (fun other ho => steady other (List.mem_cons_of_mem _ ho)) h

theorem finish_ne_unclaimed {type : TokenType} {literal : List Char} {start k : Nat} {c : Char} :
    finish type literal start ≠ .error (.ofReason (.unclaimed c k)) := by
  unfold finish
  split
  · exact fun h => by cases h
  · exact fun h => by cases h
  · split <;> exact fun h => by cases h

/-- A character that nobody claims stands outside the separators and between two arguments. -/
theorem step_unclaimed (steady : ∀ type ∈ types, type.lexis.Steady) {p : Position}
    (hp : Position.TypeIn types p) {c d : Char} {column k : Nat}
    (h : step types marks d column p = .error (.ofReason (.unclaimed c k))) :
    p = .between ∧ d = c ∧ k = column ∧ marks.separates c = false := by
  cases p with
  | between =>
    simp only [step] at h
    split at h
    · cases h
    · next hc =>
      obtain ⟨rfl, rfl⟩ := eq_of_claim_unclaimed steady (map_eq_error_iff.mp h)
      exact ⟨rfl, rfl, rfl, by simpa using hc⟩
  | inside type scratch start read =>
    obtain ⟨r, hends⟩ := (steady type hp).2 d scratch
    simp only [step, hends, Except.bind] at h
    split at h
    · split at h
      · exact absurd (map_eq_error_iff.mp h) finish_ne_unclaimed
      · cases h
    · cases h
  | closed type start read =>
    simp only [step] at h
    split at h
    · exact absurd (map_eq_error_iff.mp h) finish_ne_unclaimed
    · cases h

/-- Up to a character that nobody claims, the reader has read some arguments. -/
theorem readArguments_unclaimed (steady : ∀ type ∈ types, type.lexis.Steady) {p : Position}
    (hp : Position.TypeIn types p) {column k : Nat} {cs : List Char} {c : Char}
    (h : readArguments types marks p column cs = .error (.ofReason (.unclaimed c k))) :
    marks.separates c = false ∧ ∃ before after vs, cs = before ++ c :: after ∧
      k = column + before.length ∧ readArguments types marks p column before = .ok vs := by
  induction cs generalizing p column with
  | nil => cases p <;> cases h
  | cons d cs ih =>
    rw [readArguments_cons] at h
    rcases bind_eq_error_iff.mp h with hstep | ⟨r, hstep, hrest⟩
    · obtain ⟨rfl, rfl, rfl, hc⟩ := step_unclaimed steady hp hstep
      exact ⟨hc, [], cs, [], rfl, rfl, rfl⟩
    · obtain ⟨hc, before, after, vs, rfl, rfl, hread⟩ :=
        ih (step_typeIn hp hstep) (map_eq_error_iff.mp hrest)
      refine ⟨hc, d :: before, after, r.1 ++ vs, rfl, ?_, ?_⟩
      · rw [List.length_cons]
        omega
      · rw [readArguments_cons, hstep]
        simp only [Except.bind, hread]
        rfl

/-- A reader that starts between two arguments fails no further to the left. -/
theorem le_column_of_readArguments (steady : ∀ type ∈ types, type.lexis.Steady) {start : Nat}
    {cs : List Char} {f : Fault} (h : readArguments types marks .between start cs = .error f) :
    ∃ r : Reason, ∃ column : Nat, f = .ofReason r ∧ r.column = some (column : Int) ∧
      start ≤ column := by
  have hmoved : readArguments types marks .between (0 + start) cs = _ :=
    readArguments_moved steady (p := .between) trivial start 0 cs
  rw [Nat.zero_add, h] at hmoved
  cases h0 : readArguments types marks .between 0 cs with
  | ok vs => rw [h0] at hmoved; cases hmoved
  | error e =>
    obtain ⟨r, rfl, hr⟩ := readArguments_error steady (p := .between) trivial h0
    obtain ⟨column, hcolumn⟩ := hr.exists_column
    rw [h0] at hmoved
    refine ⟨r.moved start, column + start, Except.error.inj hmoved, ?_, Nat.le_add_left ..⟩
    rw [Reason.column_moved, hcolumn]
    rfl

theorem separated_of_append {before after : List Char} {c : Char}
    (h : marks.Separated (before ++ c :: after)) (hc : marks.separates c = false) :
    marks.Separated before := by
  obtain ⟨d, ds, hd, hds⟩ := h
  cases before with
  | nil =>
    obtain ⟨rfl, -⟩ := List.cons.inj hd
    rw [hc] at hds
    cases hds
  | cons b bs =>
    obtain ⟨rfl, -⟩ := List.cons.inj hd
    exact ⟨b, bs, rfl, hds⟩

section Behind
variable {separator : Char} {separators margin word before rest : List Char} {vs : List Value}
  (hs : marks.separators = separator :: separators)
  (hmargin : ∀ c ∈ margin, marks.separates c = true)
  (hword : ∀ c ∈ word, marks.separates c = false) (hne : word ≠ [])
  (hbefore : readArguments types marks .between (margin.length + word.length) before = .ok vs)

include hs hmargin hword hne hbefore

/-- Behind complete arguments, the reader adds those of the rest. -/
theorem readText_behind {text : List Char}
    (he : text ++ [separator] = margin ++ word ++ (before ++ rest))
    (hrest : marks.Separated (before ++ rest)) :
    readText types marks text =
      (readArguments types marks .between (margin.length + word.length + before.length) rest).map
        fun args => ⟨.ofList (upperList word), vs ++ args⟩ := by
  rw [readText_eq hs he hmargin hword hne hrest, readArguments_append hbefore]
  cases readArguments types marks .between (margin.length + word.length + before.length) rest <;> rfl

/-- A text that ends behind complete arguments is read as its command and these arguments. -/
theorem readText_of_readArguments (hseparated : marks.Separated before) :
    readText types marks (margin ++ word ++ before) = .ok ⟨.ofList (upperList word), vs⟩ := by
  have hseparator : marks.separates separator = true := by simp [Marks.separates, hs]
  obtain ⟨d, ds, rfl, hd⟩ := hseparated
  have hend : margin ++ word ++ d :: ds ++ [separator] = margin ++ word ++ (d :: ds ++ [separator]) :=
    List.append_assoc ..
  rw [readText_behind hs hmargin hword hne hbefore hend ⟨d, ds ++ [separator], rfl, hd⟩,
    readArguments_separator hseparator]
  simp [readArguments, Except.map]

end Behind

theorem cut_of_concat {text before after : List Char} {c d : Char}
    (he : text ++ [d] = before ++ c :: after) (hc : c ≠ d) :
    ∃ init, after = init ++ [d] ∧ text = before ++ c :: init := by
  rcases List.eq_nil_or_concat' after with rfl | ⟨init, last, rfl⟩
  · obtain ⟨-, hlast⟩ := List.append_inj' he rfl
    exact absurd (List.cons.inj hlast).1.symm hc
  · have he' : text ++ [d] = before ++ c :: init ++ [last] := by simpa using he
    obtain ⟨rfl, hlast⟩ := List.append_inj' he' rfl
    exact ⟨init, by rw [hlast], rfl⟩

theorem exists_separator_of_read {line : String} {r : Reason}
    (h : read types marks line = .error (.ofReason r)) :
    ∃ separator separators, marks.separators = separator :: separators := by
  refine List.exists_cons_of_ne_nil fun hs => ?_
  unfold read at h
  dsimp only at h
  split at h
  · cases h
  · rw [readText, hs] at h
    cases h

/-- **A line that fails at a character that nobody claims** is read alike with more types up to this
character: the text in front of it has the same command and the same arguments, and what the line holds
behind it adds arguments to these or fails no further to the left. -/
theorem unclaimed_of_read (h : Extends more types fresh)
    (steady : ∀ type ∈ types, type.lexis.Steady) (steady' : ∀ type ∈ more, type.lexis.Steady)
    {line : String} {c : Char} {k : Nat}
    (hread : read types marks line = .error (.ofReason (.unclaimed c k))) :
    ∃ before after l, trim line.toList = before ++ c :: after ∧ before.length = k ∧
      readText types marks before = .ok l ∧ readText more marks before = .ok l ∧
      (∀ l', read more marks line = .ok l' → l'.command = l.command ∧ l.args <+: l'.args) ∧
      ∀ f, read more marks line = .error f →
        ∃ r : Reason, ∃ column : Nat, f = .ofReason r ∧ r.column = some (column : Int) ∧ k ≤ column := by
  obtain ⟨separator, separators, hs⟩ := exists_separator_of_read hread
  have hseparator : marks.separates separator = true := by simp [Marks.separates, hs]
  have hcases : read types marks line = .ok {} ∨ _ := read_cases hs line
  rcases hcases with hempty | ⟨hne, hcomment, margin, word, rest, he, hmargin, hword, hwne, hrest, hline⟩
  · rw [hempty] at hread
    cases hread
  rw [hline] at hread
  obtain ⟨hc, before, after, vs, rfl, rfl, hbefore⟩ :=
    readArguments_unclaimed steady (p := .between) trivial (map_eq_error_iff.mp hread)
  have hbefore' : readArguments more marks .between (margin.length + word.length) before = .ok vs := by
    rw [readArguments_extends h (fun _ _ _ hfails => by rw [hbefore] at hfails; cases hfails), hbefore]
  have hseparated : marks.Separated before := separated_of_append hrest hc
  -- behind the text in front, the reader with more types begins with the character
  have hmore : read more marks line = (readArguments more marks .between
      (margin.length + word.length + before.length) (c :: after)).map
        fun args => ⟨.ofList (upperList word), vs ++ args⟩ := by
    rw [read_eq_readText hne hcomment, readText_behind hs hmargin hword hwne hbefore' he hrest]
  have hcne : c ≠ separator := by
    rintro rfl
    rw [hc] at hseparator
    cases hseparator
  rw [← List.append_assoc] at he
  obtain ⟨init, rfl, htext⟩ := cut_of_concat he hcne
  refine ⟨_, init, _, htext, by simp [Nat.add_assoc],
    readText_of_readArguments hs hmargin hword hwne hbefore hseparated,
    readText_of_readArguments hs hmargin hword hwne hbefore' hseparated, ?_, ?_⟩
  · intro l' hl'
    rw [hmore] at hl'
    obtain ⟨args, -, rfl⟩ := map_eq_ok_iff.mp hl'
    exact ⟨rfl, List.prefix_append ..⟩
  · intro f hf
    rw [hmore] at hf
    exact le_column_of_readArguments steady' (map_eq_error_iff.mp hf)

/-! ### Arrays -/

theorem tensor_steady : Token.tensor.lexis.Steady :=
  ⟨fun _ _ => ⟨_, rfl⟩, fun _ _ => ⟨_, rfl⟩⟩

/-- The type of arrays begins with the opening bracket, and no type that every engine has does. -/
theorem extends_tensor : Extends (Token.tensor :: Token.defaults) Token.defaults (· = '[') where
  same c column hc := claim_cons_of_refuses ⟨{}, by simp [Token.tensor, Token.tensorLexis, hc]⟩
  unclaimed c column hc := by
    rw [hc]
    rfl

/-- **The type of arrays is conservative.**  The registry puts it in front of the types that every engine
has.  Then a line is read as with these alone, unless with these it fails at an opening bracket, which no
type begins with; and in that case it has the same command and the same arguments up to this bracket, and
what follows adds arguments to these or fails no further to the left. -/
theorem read_with_tensor (marks : Marks) (line : String) :
    ∃ r, TypeRegistry.registerType ⟨Token.defaults⟩ Token.tensor = .ok r ∧
      ((∀ k, read Token.defaults marks line ≠ .error (.ofReason (.unclaimed '[' k))) →
        read r.types marks line = read Token.defaults marks line) ∧
      ∀ k, read Token.defaults marks line = .error (.ofReason (.unclaimed '[' k)) →
        ∃ before after l, trim line.toList = before ++ '[' :: after ∧ before.length = k ∧
          readText Token.defaults marks before = .ok l ∧ readText r.types marks before = .ok l ∧
          (∀ l', read r.types marks line = .ok l' → l'.command = l.command ∧ l.args <+: l'.args) ∧
          ∀ f, read r.types marks line = .error f →
            ∃ r : Reason, ∃ column : Nat, f = .ofReason r ∧ r.column = some (column : Int) ∧
              k ≤ column := by
  refine ⟨⟨Token.tensor :: Token.defaults⟩, rfl, ?_, ?_⟩
  · intro h
    refine read_extends extends_tensor ?_
    rintro c k rfl
    exact h k
  · intro k h
    exact unclaimed_of_read extends_tensor Token.defaults_steady
      (List.forall_mem_cons.mpr ⟨tensor_steady, Token.defaults_steady⟩) h

/-- A bracket inside a string is none that begins an argument; one that does is read alike up to where it
stands, even though the array is not closed. -/
theorem read_with_tensor_open :
    ∃ r, TypeRegistry.registerType ⟨Token.defaults⟩ Token.tensor = .ok r ∧
      read r.types {} "put '['" = read Token.defaults {} "put '['" ∧
      read Token.defaults {} "put 1 [2" = .error (.ofReason (.unclaimed '[' 6)) ∧
      ∃ before l, before.length = 6 ∧ readText Token.defaults {} before = .ok l ∧
        readText r.types {} before = .ok l := by
  have hstring : read Token.defaults {} "put '['" =
      .ok ⟨"PUT", [⟨TypeName.string, .text "[", some "'['"⟩]⟩ := rfl
  have hopen : read Token.defaults {} "put 1 [2" = .error (.ofReason (.unclaimed '[' 6)) := rfl
  obtain ⟨r, hr, hsame, -⟩ := read_with_tensor {} "put '['"
  obtain ⟨r', hr', -, hfails⟩ := read_with_tensor {} "put 1 [2"
  obtain ⟨before, after, l, -, hlength, hbefore, hbefore', -⟩ := hfails 6 hopen
  cases hr.symm.trans hr'
  exact ⟨r, hr, hsame (by simp [hstring]), hopen, before, l, hlength, hbefore, hbefore'⟩

end Line

end CommandBatch
