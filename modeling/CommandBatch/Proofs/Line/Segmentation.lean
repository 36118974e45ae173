import CommandBatch.Proofs.Line.Reading
import CommandBatch.Token.Defaults

/-!
# The split of a line

A line that is read with a command falls into a margin, the command word, and arguments with gaps
between them.  This module says what such a split is without the reader: gaps hold separators only,
a gap goes up to the next character that is none, the first type that claims this character begins
the argument, and the argument goes up to the first character that ends it.  `splits_of_read` says
that the reader finds a split of the whole line and that there is no other; so each character
belongs to one gap or to one argument, and none is lost.
-/

namespace CommandBatch.Line

open Text

variable {types : List TokenType} {marks : Marks}

/-! ### Arguments and the gaps in front of them -/

/-- The characters `word`, with `rest` behind them, are an argument of the value `v`: the type and
the datum are what the type makes of `word`, and the literal is `word` without blank margins. -/
def IsArgument (types : List TokenType) (marks : Marks) (word rest : List Char) (v : Value) :
    Prop :=
  ∃ c cs type scratch u, word = c :: cs ∧ marks.separates c = false ∧
    Claims types c type scratch ∧ Closes marks type scratch cs rest ∧
    type.lexis.parse (.ofList word) = .ok (.value u) ∧ u.isError = false ∧
    v = { u with literal := some (strip (.ofList word)) }

/-- An argument with the gap in front of it. -/
structure Piece where
  gap : List Char
  word : List Char
  deriving DecidableEq, Repr

/-- The text of pieces and of what follows the last of them. -/
def joined : List Piece → List Char → List Char
  | [], tail => tail
  | p :: pieces, tail => p.gap ++ p.word ++ joined pieces tail

/-- The pieces, with `tail` behind the last of them, are arguments of these values. -/
inductive Arguments (types : List TokenType) (marks : Marks) :
    List Piece → List Char → List Value → Prop
  | none {tail} : (∀ c ∈ tail, marks.separates c = true) → Arguments types marks [] tail []
  | next {p pieces tail v vs} : p.gap ≠ [] → (∀ c ∈ p.gap, marks.separates c = true) →
      IsArgument types marks p.word (joined pieces tail) v → Arguments types marks pieces tail vs →
      Arguments types marks (p :: pieces) tail (v :: vs)

theorem Arguments.length_eq {pieces : List Piece} {tail : List Char} {vs : List Value}
    (h : Arguments types marks pieces tail vs) : vs.length = pieces.length := by
  induction h with
  | none _ => rfl
  | next _ _ _ _ ih => rw [List.length_cons, List.length_cons, ih]

/-! ### The reader finds the arguments, and only them -/

/-- Over an argument, the reader yields its value and goes on behind it. -/
theorem readArguments_argument {word rest : List Char} {v : Value}
    (h : IsArgument types marks word rest v) (column : Nat) :
    readArguments types marks .between column (word ++ rest) =
      (readArguments types marks .between (column + word.length) rest).map (v :: ·) := by
  obtain ⟨c, cs, type, scratch, u, rfl, hc, hclaims, hcloses, hparse, herror, rfl⟩ := h
  have hfinish : finish type (c :: cs) column =
      .ok { u with literal := some (strip (.ofList (c :: cs))) } := by
    refine finish_eq_ok_iff.mpr ⟨u, hparse, herror, ?_⟩
    simp [strip]
  rw [List.cons_append, readArguments_begins hc, claim_eq_ok_iff.mpr hclaims]
  simp only [Except.bind]
  rw [readArguments_closes hcloses, List.reverse_singleton, List.singleton_append, hfinish,
    List.length_cons, Nat.add_right_comm, Nat.add_assoc]
  rfl

theorem readArguments_joined {pieces : List Piece} {tail : List Char} {vs : List Value}
    (h : Arguments types marks pieces tail vs) (column : Nat) :
    readArguments types marks .between column (joined pieces tail) = .ok vs := by
  induction h generalizing column with
  | @none tail htail =>
    rw [joined, ← List.append_nil tail, readArguments_gap htail]
    rfl
  | next _ hgap hargument _ ih =>
    rw [joined, List.append_assoc, readArguments_gap hgap, readArguments_argument hargument, ih]
    rfl

/-- At a character outside the separators, a reader that succeeds reads one argument first. -/
theorem argument_of_readArguments {c : Char} {cs : List Char} {column : Nat} {vs : List Value}
    (hc : marks.separates c = false)
    (h : readArguments types marks .between column (c :: cs) = .ok vs) :
    ∃ word rest v vs', c :: cs = c :: word ++ rest ∧ marks.Separated rest ∧
      IsArgument types marks (c :: word) rest v ∧ vs = v :: vs' ∧
      readArguments types marks .between (column + (c :: word).length) rest = .ok vs' := by
  rw [readArguments_begins hc] at h
  obtain ⟨⟨type, scratch⟩, hclaim, h⟩ := bind_eq_ok_iff.mp h
  obtain ⟨word, rest, rfl, hcloses⟩ := closes_of_readArguments h
  rw [readArguments_closes hcloses] at h
  obtain ⟨v, hfinish, h⟩ := bind_eq_ok_iff.mp h
  obtain ⟨vs', hrest, rfl⟩ := map_eq_ok_iff.mp h
  obtain ⟨u, hparse, herror, rfl⟩ := finish_eq_ok_iff.mp hfinish
  refine ⟨word, rest, _, vs', rfl, hcloses.separated, ?_, rfl, ?_⟩
  · refine ⟨c, word, type, scratch, u, rfl, hc, claim_eq_ok_iff.mp hclaim, hcloses, hparse, herror,
      ?_⟩
    simp [strip]
  · rw [List.length_cons, Nat.add_comm word.length, ← Nat.add_assoc]
    exact hrest

/-- The reader succeeds only on arguments with gaps in front of them. -/
theorem arguments_of_readArguments {text : List Char} {column : Nat} {vs : List Value}
    (htext : marks.Separated text)
    (h : readArguments types marks .between column text = .ok vs) :
    ∃ pieces tail, joined pieces tail = text ∧ Arguments types marks pieces tail vs := by
  -- what is left behind an argument is shorter and begins with a separator again
  induction hn : text.length using Nat.strongRecOn generalizing text column vs with
  | ind n ih =>
    obtain ⟨s, ss, rfl, hs⟩ := htext
    have hgap : ∀ c ∈ (s :: ss).takeWhile marks.separates, marks.separates c = true :=
      fun c hc => List.mem_takeWhile_imp hc
    have hne : (s :: ss).takeWhile marks.separates ≠ [] := by simp [hs]
    have he : (s :: ss).takeWhile marks.separates ++ (s :: ss).dropWhile marks.separates =
        s :: ss :=
      List.takeWhile_append_dropWhile
    generalize (s :: ss).takeWhile marks.separates = gap at hgap hne he
    cases hdrop : (s :: ss).dropWhile marks.separates with
    | nil =>
      rw [hdrop, List.append_nil] at he
      rw [← he, ← List.append_nil gap, readArguments_gap hgap] at h
      cases h
      exact ⟨[], s :: ss, rfl, .none (he ▸ hgap)⟩
    | cons c cs =>
      have hc : marks.separates c = false := by
        simpa [hdrop] using List.head_dropWhile_not marks.separates (l := s :: ss) (by simp [hdrop])
      rw [hdrop] at he
      rw [← he, readArguments_gap hgap] at h
      obtain ⟨word, rest, v, vs', hcs, hrest, hargument, rfl, hread⟩ :=
        argument_of_readArguments hc h
      have hlength : rest.length < n := by
        rw [← hn, ← he, hcs]
        simp only [List.length_append, List.length_cons]
        omega
      obtain ⟨pieces, tail, hjoined, harguments⟩ := ih _ hlength hrest hread rfl
      refine ⟨⟨gap, c :: word⟩ :: pieces, tail, ?_, .next hne hgap ?_ harguments⟩
      · rw [joined, hjoined, ← he, hcs, List.append_assoc]
      · rw [hjoined]
        exact hargument

theorem Arguments.mem {pieces : List Piece} {tail : List Char} {vs : List Value} {v : Value}
    (h : Arguments types marks pieces tail vs) (hv : v ∈ vs) :
    ∃ word rest, IsArgument types marks word rest v := by
  induction h with
  | none _ => cases hv
  | next _ _ hargument _ ih =>
    rcases List.mem_cons.mp hv with rfl | hv
    · exact ⟨_, _, hargument⟩
    · exact ih hv

/-- Every argument of a line stands somewhere in it. -/
theorem isArgument_of_read {line : String} {l : Line} {v : Value}
    (h : read types marks line = .ok l) (hv : v ∈ l.args) :
    ∃ word rest, IsArgument types marks word rest v := by
  have hne : l ≠ {} := by
    rintro rfl
    cases hv
  obtain ⟨_, _, _, _, _, _, _, _, _, _, hrest, _, hargs⟩ := split_of_read h hne
  obtain ⟨_, _, _, harguments⟩ := arguments_of_readArguments hrest hargs
  exact harguments.mem hv

/-! ### One split only -/

/-- A gap ends at the first character outside the separators, so it is the same in both texts. -/
theorem gap_unique {gap gap' : List Char} {c c' : Char} {cs cs' : List Char}
    (hgap : ∀ x ∈ gap, marks.separates x = true) (hgap' : ∀ x ∈ gap', marks.separates x = true)
    (hc : marks.separates c = false) (hc' : marks.separates c' = false)
    (he : gap ++ c :: cs = gap' ++ c' :: cs') : gap = gap' ∧ c :: cs = c' :: cs' := by
  have h : (gap ++ c :: cs).takeWhile marks.separates = gap := by
    rw [List.takeWhile_append_of_pos hgap]
    simp [hc]
  have h' : (gap' ++ c' :: cs').takeWhile marks.separates = gap' := by
    rw [List.takeWhile_append_of_pos hgap']
    simp [hc']
  rw [he, h'] at h
  subst h
  exact ⟨rfl, List.append_cancel_left he⟩

theorem IsArgument.head {word rest : List Char} {v : Value}
    (h : IsArgument types marks word rest v) :
    ∃ c cs, word = c :: cs ∧ marks.separates c = false := by
  obtain ⟨c, cs, _, _, _, hword, hc, _⟩ := h
  exact ⟨c, cs, hword, hc⟩

/-- The text settles where an argument at its front ends. -/
theorem IsArgument.unique {word rest word' rest' : List Char} {v v' : Value}
    (h : IsArgument types marks word rest v) (h' : IsArgument types marks word' rest' v')
    (he : word ++ rest = word' ++ rest') : word = word' ∧ rest = rest' := by
  obtain ⟨c, cs, type, scratch, _, rfl, _, hclaims, hcloses, _⟩ := h
  obtain ⟨c', cs', type', scratch', _, rfl, _, hclaims', hcloses', _⟩ := h'
  obtain ⟨rfl, hcs⟩ := List.cons.inj he
  obtain ⟨rfl, rfl⟩ := hclaims.unique hclaims'
  obtain ⟨rfl, rfl⟩ := hcloses.unique hcloses' hcs
  exact ⟨rfl, rfl⟩

/-- The first piece of a text begins with a separator and holds one more character that is none. -/
theorem joined_cons_ne {p : Piece} {pieces : List Piece} {tail tail' : List Char} {v : Value}
    (hargument : IsArgument types marks p.word (joined pieces tail) v)
    (htail : ∀ c ∈ tail', marks.separates c = true) : joined (p :: pieces) tail ≠ tail' := by
  intro he
  obtain ⟨c, cs, hword, hc⟩ := hargument.head
  have hmem : c ∈ joined (p :: pieces) tail := by simp [joined, hword]
  rw [he] at hmem
  rw [htail c hmem] at hc
  cases hc

theorem Arguments.unique {pieces pieces' : List Piece} {tail tail' : List Char}
    {vs vs' : List Value}
    (h : Arguments types marks pieces tail vs) (h' : Arguments types marks pieces' tail' vs')
    (he : joined pieces tail = joined pieces' tail') : pieces = pieces' ∧ tail = tail' := by
  induction h generalizing pieces' vs' with
  | none htail =>
    cases h' with
    | none _ => exact ⟨rfl, he⟩
    | next _ _ hargument _ => exact absurd he.symm (joined_cons_ne hargument htail)
  | @next p pieces tail v vs _ hgap hargument _ ih =>
    cases h' with
    | none htail => exact absurd he (joined_cons_ne hargument htail)
    | @next p' pieces' _ v' vs' _ hgap' hargument' h' =>
      obtain ⟨c, cs, hword, hc⟩ := hargument.head
      obtain ⟨c', cs', hword', hc'⟩ := hargument'.head
      simp only [joined, hword, hword', List.append_assoc, List.cons_append] at he
      obtain ⟨hgaps, hrest⟩ := gap_unique hgap hgap' hc hc' he
      obtain ⟨hwords, hjoined⟩ := hargument.unique hargument' (by
        simpa only [hword, hword', List.cons_append] using hrest)
      obtain ⟨rfl, rfl⟩ := ih h' hjoined
      obtain ⟨gap, word⟩ := p
      obtain ⟨gap', word'⟩ := p'
      cases hgaps
      cases hwords
      exact ⟨rfl, rfl⟩

/-! ### The split of a whole line -/

/-- A way to cut a text into a margin, a command word, and arguments with gaps. -/
structure Split where
  margin : List Char
  word : List Char
  pieces : List Piece
  tail : List Char
  deriving DecidableEq, Repr

/-- All of the text that is cut. -/
def Split.text (s : Split) : List Char := s.margin ++ s.word ++ joined s.pieces s.tail

/-- The split cuts `text` into the command and the arguments of `l`. -/
structure Split.Of (types : List TokenType) (marks : Marks) (text : List Char) (l : Line)
    (s : Split) : Prop where
  whole : s.text = text
  margin : ∀ c ∈ s.margin, marks.separates c = true
  nonempty : s.word ≠ []
  word : ∀ c ∈ s.word, marks.separates c = false
  command : l.command = .ofList (upperList s.word)
  args : Arguments types marks s.pieces s.tail l.args

theorem separated_joined_cons {p : Piece} {pieces : List Piece} {tail : List Char}
    (hne : p.gap ≠ []) (hgap : ∀ c ∈ p.gap, marks.separates c = true) :
    marks.Separated (joined (p :: pieces) tail) := by
  obtain ⟨c, cs, hcons⟩ := List.exists_cons_of_ne_nil hne
  exact ⟨c, cs ++ p.word ++ joined pieces tail, by simp [joined, hcons], hgap c (by simp [hcons])⟩

/-- Arguments begin with a separator if what stands behind them does. -/
theorem Arguments.separated {pieces : List Piece} {tail : List Char} {vs : List Value}
    (h : Arguments types marks pieces tail vs) (htail : marks.Separated tail) :
    marks.Separated (joined pieces tail) := by
  cases h with
  | none _ => exact htail
  | next hne hgap _ _ => exact separated_joined_cons hne hgap

/-- Arguments with something behind them begin with a separator. -/
theorem Arguments.separated_of_ne_nil {pieces : List Piece} {tail : List Char} {vs : List Value}
    (h : Arguments types marks pieces tail vs) (hne : tail ≠ []) :
    marks.Separated (joined pieces tail) := by
  have htail : ∀ c ∈ tail, marks.separates c = true := by
    clear hne
    induction h with
    | none htail => exact htail
    | next _ _ _ _ ih => exact ih
  obtain ⟨c, cs, rfl⟩ := List.exists_cons_of_ne_nil hne
  exact h.separated ⟨c, cs, rfl, htail c (List.mem_cons_self ..)⟩

/-- Behind the command word stands a separator, or nothing. -/
theorem Arguments.joined_cases {pieces : List Piece} {tail : List Char} {vs : List Value}
    (h : Arguments types marks pieces tail vs) :
    joined pieces tail = [] ∨ marks.Separated (joined pieces tail) := by
  cases h with
  | @none tail htail =>
    cases tail with
    | nil => exact Or.inl rfl
    | cons c cs => exact Or.inr ⟨c, cs, rfl, htail c (List.mem_cons_self ..)⟩
  | next hne hgap _ _ => exact Or.inr (separated_joined_cons hne hgap)

theorem word_unique {word word' rest rest' : List Char}
    (hword : ∀ c ∈ word, marks.separates c = false)
    (hword' : ∀ c ∈ word', marks.separates c = false)
    (hrest : rest = [] ∨ marks.Separated rest) (hrest' : rest' = [] ∨ marks.Separated rest')
    (he : word ++ rest = word' ++ rest') : word = word' ∧ rest = rest' := by
  have key : ∀ {word rest : List Char}, (∀ c ∈ word, marks.separates c = false) →
      (rest = [] ∨ marks.Separated rest) →
      (word ++ rest).takeWhile (!marks.separates ·) = word := by
    intro word rest hword hrest
    rw [List.takeWhile_append_of_pos (fun c hc => by simp [hword c hc])]
    rcases hrest with rfl | ⟨c, cs, rfl, hc⟩
    · simp
    · simp [hc]
  have h := key hword hrest
  rw [he, key hword' hrest'] at h
  subst h
  exact ⟨rfl, List.append_cancel_left he⟩

theorem Split.Of.unique {text : List Char} {l : Line} {s s' : Split}
    (h : Split.Of types marks text l s) (h' : Split.Of types marks text l s') : s = s' := by
  obtain ⟨margin, word, pieces, tail⟩ := s
  obtain ⟨margin', word', pieces', tail'⟩ := s'
  obtain ⟨hwhole, hmargin, hne, hword, _, hargs⟩ := h
  obtain ⟨hwhole', hmargin', hne', hword', _, hargs'⟩ := h'
  simp only [Split.text] at hwhole hwhole' hmargin hmargin' hne hne' hword hword' hargs hargs'
  obtain ⟨c, cs, rfl⟩ := List.exists_cons_of_ne_nil hne
  obtain ⟨c', cs', rfl⟩ := List.exists_cons_of_ne_nil hne'
  have he := hwhole.trans hwhole'.symm
  simp only [List.append_assoc, List.cons_append] at he
  obtain ⟨rfl, hrest⟩ := gap_unique hmargin hmargin' (hword c (List.mem_cons_self ..))
    (hword' c' (List.mem_cons_self ..)) he
  rw [← List.cons_append, ← List.cons_append] at hrest
  obtain ⟨hwords, hjoined⟩ := word_unique hword hword' hargs.joined_cases hargs'.joined_cases hrest
  cases hwords
  obtain ⟨rfl, rfl⟩ := hargs.unique hargs' hjoined
  rfl

/-- **The split of a line.**  A line that is read with a command, with the first separator behind
it, has one and only one split: the command is the word in upper case, and there are as many
arguments as pieces, each the value that the first type claiming its first character makes of it.
The types may be any at all, and so may the separators and the comment mark. -/
theorem splits_of_read {line : String} {l : Line} (h : read types marks line = .ok l)
    (hne : l.command ≠ "") :
    ∃ separator separators, marks.separators = separator :: separators ∧
      ∃ s, Split.Of types marks ((strip line).toList ++ [separator]) l s ∧
        l.args.length = s.pieces.length ∧
        ∀ s', Split.Of types marks ((strip line).toList ++ [separator]) l s' → s' = s := by
  obtain ⟨separator, separators, margin, word, rest, hs, he, hmargin, hword, hwne, hrest, hcommand,
    hargs⟩ := split_of_read h (fun he => hne (he ▸ rfl))
  obtain ⟨pieces, tail, rfl, harguments⟩ := arguments_of_readArguments hrest hargs
  have hof : Split.Of types marks ((strip line).toList ++ [separator]) l
      ⟨margin, word, pieces, tail⟩ :=
    { whole := by rw [toList_strip, he]; rfl
      margin := hmargin
      nonempty := hwne
      word := hword
      command := hcommand
      args := harguments }
  exact ⟨separator, separators, hs, _, hof, harguments.length_eq, fun s' h' => h'.unique hof⟩

/-- The blank inside the string belongs to an argument, the two in front of it to a gap. -/
theorem split_of_greeting :
    ∃ s, Split.Of Token.defaults {} "say  'a b' -= ".toList
        ⟨"SAY", [⟨TypeName.string, .text "a b", some "'a b'"⟩,
          ⟨TypeName.symbol, .text "-=", some "-="⟩]⟩ s ∧ s.pieces.length = 2 := by
  have hread : read Token.defaults {} "say  'a b' -=" =
      .ok ⟨"SAY", [⟨TypeName.string, .text "a b", some "'a b'"⟩,
        ⟨TypeName.symbol, .text "-=", some "-="⟩]⟩ := rfl
  obtain ⟨separator, separators, hs, s, hof, hlength, -⟩ := splits_of_read hread (by decide)
  obtain ⟨rfl, -⟩ := List.cons.inj hs
  exact ⟨s, hof, hlength.symm⟩

end CommandBatch.Line
