import CommandBatch.Line.Basic
import CommandBatch.Proofs.Outcome
import Mathlib.Data.List.TakeWhile

/-!
# How the reader of arguments moves

The reader is between two arguments, inside one, or behind one that a character of its own has
closed.  This module says once what it does from each place: a gap is passed over, the first type
that claims a character is chosen, and an argument is read up to the character that ends it.  The
end of an argument is described by `Closes`, which speaks of characters and scratch only and not of
columns or of what has been read; `readArguments_closes` and `closes_of_readArguments` tie it to the
reader in both directions.
-/

namespace CommandBatch

open Text

/-- The text begins with a separator. -/
def Marks.Separated (m : Marks) (text : List Char) : Prop :=
  ∃ c cs, text = c :: cs ∧ m.separates c = true

namespace Line

variable {types : List TokenType} {marks : Marks}

/-! ### Choosing a type -/

/-- `type` is the first type that claims `c`, and notes `scratch` about it. -/
def Claims (types : List TokenType) (c : Char) (type : TokenType) (scratch : Scratch) : Prop :=
  ∃ before after, types = before ++ type :: after ∧
    (∀ other ∈ before, ∃ s, other.lexis.begins c {} = .ok (false, s)) ∧
    type.lexis.begins c {} = .ok (true, scratch)

theorem claims_nil {c : Char} {type : TokenType} {scratch : Scratch} :
    ¬ Claims [] c type scratch := by
  rintro ⟨before, after, he, _⟩
  simp at he

/-- The first of the types claims a character, or refuses it and one of the others claims it. -/
theorem claims_cons_iff {c : Char} {first type : TokenType} {scratch : Scratch} :
    Claims (first :: types) c type scratch ↔
      (first = type ∧ first.lexis.begins c {} = .ok (true, scratch)) ∨
        ((∃ s, first.lexis.begins c {} = .ok (false, s)) ∧ Claims types c type scratch) := by
  constructor
  · rintro ⟨before, after, he, hbefore, htype⟩
    cases before with
    | nil =>
      obtain ⟨rfl, rfl⟩ := List.cons.inj he
      exact Or.inl ⟨rfl, htype⟩
    | cons other before =>
      obtain ⟨rfl, rfl⟩ := List.cons.inj he
      exact Or.inr ⟨hbefore first (List.mem_cons_self ..), before, after, rfl,
        fun other ho => hbefore other (List.mem_cons_of_mem _ ho), htype⟩
  · rintro (⟨rfl, h⟩ | ⟨hs, before, after, rfl, hbefore, htype⟩)
    · exact ⟨[], types, rfl, by simp, h⟩
    · refine ⟨first :: before, after, rfl, ?_, htype⟩
      intro other ho
      rcases List.mem_cons.mp ho with rfl | ho
      · exact hs
      · exact hbefore other ho

theorem claim_eq_ok_iff {c : Char} {column : Nat} {type : TokenType} {scratch : Scratch} :
    claim types c column = .ok (type, scratch) ↔ Claims types c type scratch := by
  induction types with
  | nil => simp [claim, claims_nil]
  | cons first types ih =>
    rw [claims_cons_iff, ← ih, claim]
    cases hb : first.lexis.begins c {} with
    | error f => simp [bind, Except.bind]
    | ok r =>
      obtain ⟨begins, s⟩ := r
      cases begins <;> simp [bind, Except.bind, pure, Except.pure]

theorem Claims.mem {c : Char} {type : TokenType} {scratch : Scratch}
    (h : Claims types c type scratch) : type ∈ types := by
  obtain ⟨before, after, rfl, _⟩ := h
  simp

theorem Claims.begins {c : Char} {type : TokenType} {scratch : Scratch}
    (h : Claims types c type scratch) : type.lexis.begins c {} = .ok (true, scratch) := by
  obtain ⟨_, _, _, _, hbegins⟩ := h
  exact hbegins

/-- The types, in their order, settle who claims a character. -/
theorem Claims.unique {c : Char} {type type' : TokenType} {scratch scratch' : Scratch}
    (h : Claims types c type scratch) (h' : Claims types c type' scratch') :
    type = type' ∧ scratch = scratch' := by
  have h1 : claim types c 0 = .ok (type, scratch) := claim_eq_ok_iff.mpr h
  have h2 : claim types c 0 = .ok (type', scratch') := claim_eq_ok_iff.mpr h'
  rw [h1] at h2
  cases h2
  exact ⟨rfl, rfl⟩

/-! ### The end of an argument -/

/-- Inside an argument about which `scratch` is noted, the characters `word` still belong to it and
`rest` follows: `word` goes up to the first character that ends the argument. -/
inductive Closes (marks : Marks) (type : TokenType) : Scratch → List Char → List Char → Prop
  /-- A separator that ends the argument is not part of it. -/
  | dropped {c s s' rest} : type.lexis.ends c s = .ok (true, s') → marks.separates c = true →
      Closes marks type s [] (c :: rest)
  /-- Any other character that ends the argument is its last, and a separator follows. -/
  | kept {c d s s' rest} : type.lexis.ends c s = .ok (true, s') → marks.separates c = false →
      marks.separates d = true → Closes marks type s [c] (d :: rest)
  | goesOn {c s s' word rest} : type.lexis.ends c s = .ok (false, s') →
      Closes marks type s' word rest → Closes marks type s (c :: word) rest

/-- What follows an argument begins with a separator. -/
theorem Closes.separated {type : TokenType} {s : Scratch} {word rest : List Char}
    (h : Closes marks type s word rest) : marks.Separated rest := by
  induction h with
  | dropped _ hc => exact ⟨_, _, rfl, hc⟩
  | kept _ _ hd => exact ⟨_, _, rfl, hd⟩
  | goesOn _ _ ih => exact ih

/-- An argument ends in one place only. -/
theorem Closes.unique {type : TokenType} {s : Scratch} {word rest word' rest' : List Char}
    (h : Closes marks type s word rest) (h' : Closes marks type s word' rest')
    (he : word ++ rest = word' ++ rest') : word = word' ∧ rest = rest' := by
  -- both runs meet the same character with the same scratch, so they go the same way
  induction h generalizing word' with
  | dropped hends hc =>
    cases h' with
    | dropped _ _ => exact ⟨rfl, he⟩
    | kept _ hc' _ =>
      obtain ⟨rfl, _⟩ := List.cons.inj he
      rw [hc] at hc'; cases hc'
    | goesOn hends' _ =>
      obtain ⟨rfl, _⟩ := List.cons.inj he
      rw [hends] at hends'; cases hends'
  | kept hends hc hd =>
    cases h' with
    | dropped _ hc' =>
      obtain ⟨rfl, _⟩ := List.cons.inj he
      rw [hc] at hc'; cases hc'
    | kept _ _ _ =>
      obtain ⟨rfl, htail⟩ := List.cons.inj he
      exact ⟨rfl, htail⟩
    | goesOn hends' _ =>
      obtain ⟨rfl, _⟩ := List.cons.inj he
      rw [hends] at hends'; cases hends'
  | goesOn hends _ ih =>
    cases h' with
    | dropped hends' _ =>
      obtain ⟨rfl, _⟩ := List.cons.inj he
      rw [hends] at hends'; cases hends'
    | kept hends' _ _ =>
      obtain ⟨rfl, _⟩ := List.cons.inj he
      rw [hends] at hends'; cases hends'
    | goesOn hends' h' =>
      obtain ⟨rfl, htail⟩ := List.cons.inj he
      rw [hends] at hends'; cases hends'
      obtain ⟨rfl, rfl⟩ := ih h' htail
      exact ⟨rfl, rfl⟩

/-! ### One step of the reader -/

section Steps
variable {c : Char} {cs read : List Char} {column start : Nat} {type : TokenType} {s s' : Scratch}

theorem readArguments_separator (hc : marks.separates c = true) :
    readArguments types marks .between column (c :: cs) =
      readArguments types marks .between (column + 1) cs := by
  rw [readArguments, if_pos hc]

/-- An argument begins at a character outside the separators. -/
theorem readArguments_begins (hc : marks.separates c = false) :
    readArguments types marks .between column (c :: cs) =
      (claim types c column).bind fun r =>
        readArguments types marks (.inside r.1 r.2 column [c]) (column + 1) cs := by
  rw [readArguments, if_neg (by simp [hc])]
  rfl

theorem readArguments_goesOn (h : type.lexis.ends c s = .ok (false, s')) :
    readArguments types marks (.inside type s start read) column (c :: cs) =
      readArguments types marks (.inside type s' start (c :: read)) (column + 1) cs := by
  rw [readArguments, h]
  rfl

theorem readArguments_ends (h : type.lexis.ends c s = .ok (true, s')) :
    readArguments types marks (.inside type s start read) column (c :: cs) =
      if marks.separates c then
        (finish type read.reverse start).bind fun v =>
          (readArguments types marks .between (column + 1) cs).map (v :: ·)
      else readArguments types marks (.closed type start (c :: read)) (column + 1) cs := by
  rw [readArguments, h]
  rfl

theorem readArguments_closed_separator (hc : marks.separates c = true) :
    readArguments types marks (.closed type start read) column (c :: cs) =
      (finish type read.reverse start).bind fun v =>
        (readArguments types marks .between (column + 1) cs).map (v :: ·) := by
  rw [readArguments, if_pos hc]
  rfl

theorem readArguments_glued (hc : marks.separates c = false) :
    readArguments types marks (.closed type start read) column (c :: cs) =
      .error (.ofReason (.glued c type.name column)) := by
  rw [readArguments, if_neg (by simp [hc])]

end Steps

/-! ### Runs of the reader -/

theorem finish_eq_ok_iff {type : TokenType} {literal : List Char} {start : Nat} {v : Value} :
    finish type literal start = .ok v ↔
      ∃ u, type.lexis.parse (.ofList literal) = .ok (.value u) ∧ u.isError = false ∧
        v = { u with literal := some (.ofList (trim literal)) } := by
  unfold finish
  cases type.lexis.parse (.ofList literal) with
  | error f => simp
  | ok r =>
    cases r with
    | data d => simp
    | value u =>
      cases hu : u.isError with
      | true => simp [hu]
      | false =>
        simp only [hu, Bool.false_eq_true, ↓reduceIte, Except.ok.injEq, Reading.value.injEq,
          exists_eq_left', true_and]
        exact eq_comm

theorem readArguments_gap {gap cs : List Char} (h : ∀ c ∈ gap, marks.separates c = true)
    (column : Nat) :
    readArguments types marks .between column (gap ++ cs) =
      readArguments types marks .between (column + gap.length) cs := by
  induction gap generalizing column with
  | nil => rfl
  | cons c gap ih =>
    rw [List.cons_append, readArguments_separator (h c (List.mem_cons_self ..)),
      ih (fun d hd => h d (List.mem_cons_of_mem _ hd)), List.length_cons]
    congr 1
    omega

/-- The reader finishes an argument at its end and goes on behind it. -/
theorem readArguments_closes {type : TokenType} {s : Scratch} {word rest : List Char}
    (h : Closes marks type s word rest) (start column : Nat) (read : List Char) :
    readArguments types marks (.inside type s start read) column (word ++ rest) =
      (finish type (read.reverse ++ word) start).bind fun v =>
        (readArguments types marks .between (column + word.length) rest).map (v :: ·) := by
  induction h generalizing column read with
  | dropped hends hc =>
    rw [List.nil_append, readArguments_ends hends, if_pos hc, List.append_nil,
      List.length_nil, Nat.add_zero, readArguments_separator hc]
  | kept hends hc hd =>
    rw [List.singleton_append, readArguments_ends hends, if_neg (by simp [hc]),
      readArguments_closed_separator hd, List.reverse_cons, List.length_singleton,
      readArguments_separator hd]
  | goesOn hends _ ih =>
    rw [List.cons_append, readArguments_goesOn hends, ih, List.reverse_cons, List.append_assoc,
      List.singleton_append, List.length_cons, Nat.add_right_comm, Nat.add_assoc]

/-- Where the reader succeeds from inside an argument, the argument has an end. -/
theorem closes_of_readArguments {type : TokenType} {cs : List Char} {vs : List Value}
    {start : Nat} :
    ∀ {s : Scratch} {column : Nat} {read : List Char},
      readArguments types marks (.inside type s start read) column cs = .ok vs →
      ∃ word rest, cs = word ++ rest ∧ Closes marks type s word rest := by
  induction cs with
  | nil => intro s column read h; cases h
  | cons c cs ih =>
    intro s column read h
    cases hends : type.lexis.ends c s with
    | error f => rw [readArguments, hends] at h; cases h
    | ok r =>
      obtain ⟨ends, s'⟩ := r
      cases ends with
      | false =>
        rw [readArguments_goesOn hends] at h
        obtain ⟨word, rest, rfl, hcloses⟩ := ih h
        exact ⟨c :: word, rest, rfl, .goesOn hends hcloses⟩
      | true =>
        rw [readArguments_ends hends] at h
        cases hc : marks.separates c with
        | true => exact ⟨[], c :: cs, rfl, .dropped hends hc⟩
        | false =>
          rw [if_neg (by simp [hc])] at h
          -- the character is kept, so only a separator can follow
          cases cs with
          | nil => cases h
          | cons d cs =>
            cases hd : marks.separates d with
            | true => exact ⟨[c], d :: cs, rfl, .kept hends hc hd⟩
            | false => rw [readArguments_glued hd] at h; cases h

/-! ### Opening a line -/

/-- A text falls into a margin of separators, a word without any, and what the reader of arguments
gets.  The separator at the end of the text is the one that the reader adds. -/
theorem readText_eq {text margin word rest : List Char} {separator : Char}
    {separators : List Char} (hs : marks.separators = separator :: separators)
    (he : text ++ [separator] = margin ++ word ++ rest)
    (hmargin : ∀ c ∈ margin, marks.separates c = true)
    (hword : ∀ c ∈ word, marks.separates c = false) (hne : word ≠ [])
    (hrest : marks.Separated rest) :
    readText types marks text =
      (readArguments types marks .between (margin.length + word.length) rest).map
        fun args => ⟨.ofList (upperList word), args⟩ := by
  obtain ⟨d, ds, rfl, hd⟩ := hrest
  obtain ⟨c, cs, rfl⟩ := List.exists_cons_of_ne_nil hne
  have hc : marks.separates c = false := hword c (List.mem_cons_self ..)
  have htake : (margin ++ (c :: cs ++ d :: ds)).takeWhile marks.separates = margin := by
    rw [List.takeWhile_append_of_pos hmargin]
    simp [hc]
  have hdrop : (margin ++ (c :: cs ++ d :: ds)).dropWhile marks.separates = c :: cs ++ d :: ds := by
    rw [List.dropWhile_append_of_pos hmargin]
    simp [hc]
  have hword' : ∀ x ∈ c :: cs, (!marks.separates x) = true := fun x hx => by simp [hword x hx]
  unfold readText
  rw [hs]
  simp only [he, List.append_assoc, htake, hdrop]
  rw [List.takeWhile_append_of_pos hword', List.dropWhile_append_of_pos hword']
  simp [hd]
  rfl

/-- A text with its separator at the end is nothing but separators, or falls apart as `readText_eq`
wants it. -/
theorem separates_or_split {separator : Char} {separators : List Char}
    (hs : marks.separators = separator :: separators) (text : List Char) :
    (∀ c ∈ text, marks.separates c = true) ∨
      ∃ margin word rest, text ++ [separator] = margin ++ word ++ rest ∧
        (∀ c ∈ margin, marks.separates c = true) ∧ (∀ c ∈ word, marks.separates c = false) ∧
        word ≠ [] ∧ marks.Separated rest := by
  have hseparator : marks.separates separator = true := by simp [Marks.separates, hs]
  induction text with
  | nil => exact Or.inl (by simp)
  | cons c text ih =>
    cases hc : marks.separates c with
    | true =>
      rcases ih with hall | ⟨margin, word, rest, he, hmargin, hword, hne, hrest⟩
      · exact Or.inl (List.forall_mem_cons.mpr ⟨hc, hall⟩)
      · exact Or.inr ⟨c :: margin, word, rest, by simp [he],
          List.forall_mem_cons.mpr ⟨hc, hmargin⟩, hword, hne, hrest⟩
    | false =>
      -- the word goes up to the next separator; the one at the end of the text is the last
      right
      refine ⟨[], c :: (text ++ [separator]).takeWhile (!marks.separates ·),
        (text ++ [separator]).dropWhile (!marks.separates ·), ?_, by simp, ?_, by simp, ?_⟩
      · simp
      · intro x hx
        rcases List.mem_cons.mp hx with rfl | hx
        · exact hc
        · simpa using List.mem_takeWhile_imp hx
      · have hne : (text ++ [separator]).dropWhile (!marks.separates ·) ≠ [] := by
          intro he
          have := List.dropWhile_eq_nil_iff.mp he separator (by simp)
          simp [hseparator] at this
        refine ⟨_, _, (List.cons_head_tail hne).symm, ?_⟩
        simpa using List.head_dropWhile_not (fun x => !marks.separates x) hne

theorem readText_separators {text : List Char} {separator : Char} {separators : List Char}
    (hs : marks.separators = separator :: separators)
    (h : ∀ c ∈ text, marks.separates c = true) : readText types marks text = .ok {} := by
  have hseparator : marks.separates separator = true := by simp [Marks.separates, hs]
  have hdrop : (text ++ [separator]).dropWhile marks.separates = [] := by
    rw [List.dropWhile_append_of_pos h]
    simp [hseparator]
  simp only [readText, hs, hdrop]
  rfl

theorem read_eq_readText {line : String} (hne : trim line.toList ≠ [])
    (hc : marks.isComment (trim line.toList) = false) :
    read types marks line = readText types marks (trim line.toList) := by
  simp [read, hne, hc]

/-- A line comes out empty, or it is a command word and what the reader of arguments makes of the
rest. -/
theorem read_cases {separator : Char} {separators : List Char}
    (hs : marks.separators = separator :: separators) (line : String) :
    read types marks line = .ok {} ∨
      trim line.toList ≠ [] ∧ marks.isComment (trim line.toList) = false ∧
      ∃ margin word rest, trim line.toList ++ [separator] = margin ++ word ++ rest ∧
        (∀ c ∈ margin, marks.separates c = true) ∧ (∀ c ∈ word, marks.separates c = false) ∧
        word ≠ [] ∧ marks.Separated rest ∧
        read types marks line =
          (readArguments types marks .between (margin.length + word.length) rest).map
            fun args => ⟨.ofList (upperList word), args⟩ := by
  by_cases hne : trim line.toList = []
  · exact Or.inl (by simp [read, hne])
  cases hcomment : marks.isComment (trim line.toList) with
  | true => exact Or.inl (by simp [read, hcomment])
  | false =>
    have hread : read types marks line = _ := read_eq_readText hne hcomment
    rcases separates_or_split hs (trim line.toList) with hall | hsplit
    · exact Or.inl (hread.trans (readText_separators hs hall))
    · obtain ⟨margin, word, rest, he, hmargin, hword, hwne, hrest⟩ := hsplit
      rw [readText_eq hs he hmargin hword hwne hrest] at hread
      exact Or.inr ⟨hne, rfl, margin, word, rest, he, hmargin, hword, hwne, hrest, hread⟩

/-- A line that does not come out empty is the command word and arguments that the reader
accepts. -/
theorem split_of_read {line : String} {l : Line} (h : read types marks line = .ok l)
    (hne : l ≠ {}) :
    ∃ separator separators margin word rest, marks.separators = separator :: separators ∧
      trim line.toList ++ [separator] = margin ++ word ++ rest ∧
      (∀ c ∈ margin, marks.separates c = true) ∧ (∀ c ∈ word, marks.separates c = false) ∧
      word ≠ [] ∧ marks.Separated rest ∧ l.command = .ofList (upperList word) ∧
      readArguments types marks .between (margin.length + word.length) rest = .ok l.args := by
  cases hs : marks.separators with
  | nil =>
    -- without a separator, only an empty line is read
    by_cases hcond : (trim line.toList).isEmpty || marks.isComment (trim line.toList)
    · simp only [read, hcond, ↓reduceIte, Except.ok.injEq] at h
      exact absurd h.symm hne
    · simp only [read, hcond, readText, hs] at h
      cases h
  | cons separator separators =>
    have hcases : read types marks line = .ok {} ∨ _ := read_cases hs line
    rcases hcases with hread | ⟨_, _, margin, word, rest, he, hmargin, hword, hwne, hrest, hread⟩
    · rw [hread] at h
      exact absurd (Except.ok.inj h).symm hne
    · rw [hread] at h
      obtain ⟨args, hargs, rfl⟩ := map_eq_ok_iff.mp h
      exact ⟨separator, separators, margin, word, rest, rfl, he, hmargin, hword, hwne, hrest, rfl,
        hargs⟩

end Line

end CommandBatch
