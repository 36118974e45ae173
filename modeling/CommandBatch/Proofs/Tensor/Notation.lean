import CommandBatch.Tensor.Reader
import CommandBatch.Proofs.Text.Words
import Mathlib.Data.List.Basic
import Mathlib.Data.List.TakeWhile

/-!
# How arrays are written

The notation of arrays, without the reader.  A text spells a row of tokens if it is these tokens with gaps of
blanks and commas between them, where a numeral goes up to the next gap or bracket (`Spells`); every text
spells one row, the one that the reader works on (`spells_iff`).  A row of tokens writes some items if it is
their numerals, and for each group what its items are written by, between brackets (`Writes`).

The reader goes from left to right and keeps the groups that are still open on a stack.  That what it has
passed is, group by group, written by what it holds is its invariant (`Opened`); so it succeeds exactly on
items with a closing bracket behind them (`readItems_eq_ok_iff`).
-/

namespace CommandBatch.Tensor

open Text Decimal

/-! ## The tokens of a text -/

/-- A character that parts numerals: a blank or a comma. -/
def isGap (c : Char) : Bool := isBlank c || c = ','

/-- A character of a numeral, as far as the tokens go: neither a gap nor a bracket. -/
def isInner (c : Char) : Bool := !isGap c && c != '[' && c != ']'

theorem isInner_iff {c : Char} :
    isInner c = true ↔ isBlank c = false ∧ c ≠ ',' ∧ c ≠ '[' ∧ c ≠ ']' := by
  simp [isInner, isGap, and_assoc]

/-- The text is these tokens with gaps between them.  A numeral goes up to the next gap or bracket. -/
inductive Spells : List Char → List Token → Prop
  | nil : Spells [] []
  | gap {c : Char} {cs : List Char} {ts : List Token} (hc : isGap c = true) (h : Spells cs ts) :
      Spells (c :: cs) ts
  | opening {cs : List Char} {ts : List Token} (h : Spells cs ts) : Spells ('[' :: cs) (.opening :: ts)
  | closing {cs : List Char} {ts : List Token} (h : Spells cs ts) : Spells (']' :: cs) (.closing :: ts)
  | numeral {word cs : List Char} {ts : List Token} (hne : word ≠ [])
      (hword : ∀ c ∈ word, isInner c = true) (hcs : ∀ c ∈ cs.head?, isInner c = false) (h : Spells cs ts) :
      Spells (word ++ cs) (.numeral word :: ts)

theorem tokens_cons (c : Char) (cs : List Char) :
    tokens (c :: cs) = (words (spaced c ++ cs.flatMap spaced)).map Token.ofWord := rfl

theorem tokens_gap {c : Char} (hc : isGap c = true) (cs : List Char) : tokens (c :: cs) = tokens cs := by
  rw [tokens_cons]
  by_cases hcomma : c = ','
  · subst hcomma
    exact congrArg (List.map _) (words_cons rfl _)
  · have hblank : isBlank c = true := by simpa [isGap, hcomma] using hc
    have hbracket : ¬(c = '[' ∨ c = ']') := by
      rintro (rfl | rfl) <;> cases hblank
    rw [spaced, if_neg hbracket, if_neg hcomma]
    exact congrArg (List.map _) (words_cons hblank _)

/-- A bracket is a token of its own. -/
theorem tokens_bracket {c : Char} (hc : c = '[' ∨ c = ']') (cs : List Char) :
    tokens (c :: cs) = Token.ofWord [c] :: tokens cs := by
  have hblank : isBlank c = false := by
    rcases hc with rfl | rfl <;> rfl
  rw [tokens_cons, spaced, if_pos hc]
  show (words (' ' :: ([c] ++ ' ' :: cs.flatMap spaced))).map Token.ofWord = _
  rw [words_cons rfl, words_append rfl, words_of_forall (List.cons_ne_nil _ _) (by simpa using hblank)]
  rfl

/-- What begins with a gap or a bracket, or not at all, is parted from what stands in front of it. -/
theorem words_append_spaced {word cs : List Char} (hcs : ∀ c ∈ cs.head?, isInner c = false) :
    words (word ++ cs.flatMap spaced) = words word ++ words (cs.flatMap spaced) := by
  cases cs with
  | nil => simp [words, wordsFrom]
  | cons c cs =>
    have hc : ∃ b rest, isBlank b = true ∧ (c :: cs).flatMap spaced = b :: rest := by
      rw [List.flatMap_cons, spaced]
      by_cases hbracket : c = '[' ∨ c = ']'
      · exact ⟨' ', c :: ' ' :: cs.flatMap spaced, rfl, by rw [if_pos hbracket]; rfl⟩
      by_cases hcomma : c = ','
      · exact ⟨' ', cs.flatMap spaced, rfl, by rw [if_neg hbracket, if_pos hcomma]; rfl⟩
      · refine ⟨c, cs.flatMap spaced, ?_, by rw [if_neg hbracket, if_neg hcomma]; rfl⟩
        by_contra hblank
        obtain ⟨hopen, hclose⟩ := not_or.mp hbracket
        have hinner := isInner_iff.mpr ⟨Bool.eq_false_iff.mpr hblank, hcomma, hopen, hclose⟩
        rw [hcs c rfl] at hinner
        cases hinner
    obtain ⟨b, rest, hb, he⟩ := hc
    rw [he, words_append hb, words_cons hb]

theorem tokens_numeral {word cs : List Char} (hne : word ≠ []) (hword : ∀ c ∈ word, isInner c = true)
    (hcs : ∀ c ∈ cs.head?, isInner c = false) : tokens (word ++ cs) = .numeral word :: tokens cs := by
  have hself : word.flatMap spaced = word := by
    have hspaced : ∀ c ∈ word, spaced c = [c] := by
      intro c hc
      obtain ⟨-, hcomma, hopen, hclose⟩ := isInner_iff.mp (hword c hc)
      simp [spaced, hcomma, hopen, hclose]
    rw [List.flatMap_congr hspaced, List.flatMap_singleton']
  have hblank : ∀ c ∈ word, isBlank c = false := fun c hc => (isInner_iff.mp (hword c hc)).1
  have hofWord : Token.ofWord word = .numeral word := by
    unfold Token.ofWord
    rw [if_neg, if_neg] <;> rintro rfl <;> cases hword _ (List.mem_singleton_self _)
  rw [tokens, List.flatMap_append, hself, words_append_spaced hcs, words_of_forall hne hblank,
    List.singleton_append, List.map_cons, hofWord]
  rfl

theorem Spells.tokens_eq {cs : List Char} {ts : List Token} (h : Spells cs ts) : tokens cs = ts := by
  induction h with
  | nil => rfl
  | gap hc _ ih => rw [tokens_gap hc, ih]
  | opening _ ih => rw [tokens_bracket (.inl rfl), ih]; rfl
  | closing _ ih => rw [tokens_bracket (.inr rfl), ih]; rfl
  | numeral hne hword hcs _ ih => rw [tokens_numeral hne hword hcs, ih]

theorem exists_spells (cs : List Char) : ∃ ts, Spells cs ts := by
  -- what is left behind a numeral is shorter, though not the tail of the text
  induction hn : cs.length using Nat.strongRecOn generalizing cs with
  | ind n ih =>
    match cs with
    | [] => exact ⟨[], .nil⟩
    | c :: cs =>
      obtain ⟨ts, hts⟩ := ih cs.length (by simp [← hn]) cs rfl
      by_cases hgap : isGap c = true
      · exact ⟨ts, .gap hgap hts⟩
      by_cases hopen : c = '['
      · exact ⟨.opening :: ts, hopen ▸ .opening hts⟩
      by_cases hclose : c = ']'
      · exact ⟨.closing :: ts, hclose ▸ .closing hts⟩
      have hc : isInner c = true := by simp [isInner, hgap, hopen, hclose]
      obtain ⟨us, hus⟩ := ih (cs.dropWhile isInner).length
        (by rw [← hn]; exact Nat.lt_succ_of_le (List.dropWhile_suffix isInner).length_le) _ rfl
      refine ⟨.numeral (c :: cs.takeWhile isInner) :: us, ?_⟩
      have hwhole : c :: cs = c :: cs.takeWhile isInner ++ cs.dropWhile isInner := by
        rw [List.cons_append, List.takeWhile_append_dropWhile]
      rw [hwhole]
      refine .numeral (List.cons_ne_nil _ _) (List.forall_mem_cons.mpr ⟨hc, fun d hd => ?_⟩) ?_ hus
      · exact List.mem_takeWhile_imp hd
      · intro d hd
        have hnot := List.head?_dropWhile_not isInner cs
        rw [Option.mem_def.mp hd] at hnot
        simpa using hnot

/-- **Every text spells one row of tokens**, which the reader works on. -/
theorem spells_iff {cs : List Char} {ts : List Token} : Spells cs ts ↔ tokens cs = ts := by
  refine ⟨Spells.tokens_eq, ?_⟩
  rintro rfl
  obtain ⟨ts, hts⟩ := exists_spells cs
  exact hts.tokens_eq ▸ hts

/-! ## The items of a row of tokens -/

/-- The tokens write these items: a numeral its number, and brackets a group of what is written between
them. -/
inductive Writes : List Nested → List Token → Prop
  | nil : Writes [] []
  | number {text : List Char} {x : Float} {items : List Nested} {ts : List Token}
      (htext : readFloat (.ofList text) = .ok x) (h : Writes items ts) :
      Writes (.number x :: items) (.numeral text :: ts)
  | group {inner items : List Nested} {us ts : List Token} (hinner : Writes inner us) (h : Writes items ts) :
      Writes (.group inner :: items) (.opening :: us ++ .closing :: ts)

namespace Writes

variable {items ns : List Nested} {ts us : List Token}

theorem append (h : Writes items ts) (h' : Writes ns us) : Writes (items ++ ns) (ts ++ us) := by
  induction h with
  | nil => exact h'
  | number htext _ ih => exact .number htext ih
  | @group inner items vs ts hinner _ _ ih =>
    simpa using Writes.group hinner ih

theorem singleton_group_iff : Writes [.group items] ts ↔ ∃ us, ts = .opening :: us ++ [.closing] ∧ Writes items us := by
  constructor
  · rintro (_ | _ | ⟨hinner, _ | _ | _⟩)
    exact ⟨_, rfl, hinner⟩
  · rintro ⟨us, rfl, h⟩
    exact .group h .nil

end Writes

/-! ## The reader of items -/

/-- These tokens have been read where `items` are those of the innermost open group and `outer` those of the
groups around it, all of them last first. -/
inductive Opened : List Nested → List (List Nested) → List Token → Prop
  | outermost {items : List Nested} {ts : List Token} (h : Writes items.reverse ts) : Opened items [] ts
  | inside {items around : List Nested} {outer : List (List Nested)} {ts us : List Token}
      (houter : Opened around outer ts) (h : Writes items.reverse us) :
      Opened items (around :: outer) (ts ++ .opening :: us)

namespace Opened

variable {items around : List Nested} {outer : List (List Nested)} {ts us : List Token}

/-- What is read into the innermost group. -/
theorem append (h : Opened items outer ts) {ns : List Nested} (hns : Writes ns.reverse us) :
    Opened (ns ++ items) outer (ts ++ us) := by
  cases h with
  | outermost h => exact .outermost (by simpa using h.append hns)
  | inside houter h =>
    rw [List.append_assoc, List.cons_append]
    exact .inside houter (by simpa using h.append hns)

theorem opens (h : Opened items outer ts) : Opened [] (items :: outer) (ts ++ [.opening]) :=
  .inside h .nil

/-- A closing bracket makes the innermost group an item of the one around it. -/
theorem closes (h : Opened items (around :: outer) ts) :
    Opened (.group items.reverse :: around) outer (ts ++ [.closing]) := by
  cases h with
  | inside houter h =>
    have hgroup : Writes [.group items.reverse].reverse _ := .group h .nil
    simpa using houter.append hgroup

/-- The reader succeeds only on items and the bracket that closes their group. -/
theorem of_readItems (h : Opened items outer ts) {res : List Nested} {rest : List Token}
    (hread : readItems items outer us = .ok (res, rest)) :
    ∃ body, Writes res body ∧ ts ++ us = body ++ .closing :: rest := by
  fun_induction readItems items outer us generalizing ts with
  | case1 => cases hread
  | case2 items us =>
    cases hread
    cases h with
    | outermost h => exact ⟨ts, h, rfl⟩
  | case3 items us around outer ih => simpa using ih h.closes hread
  | case4 items outer us ih => simpa using ih h.opens hread
  | case5 items outer text us x hx ih =>
    have hnumber : Writes [.number x].reverse [.numeral text] := .number hx .nil
    simpa using ih (h.append hnumber) hread
  | case6 => cases hread

end Opened

/-- Over tokens that write items, the reader takes up the items. -/
theorem readItems_of_writes {ns : List Nested} {ts : List Token} (h : Writes ns ts) (items : List Nested)
    (outer : List (List Nested)) (rest : List Token) :
    readItems items outer (ts ++ rest) = readItems (ns.reverse ++ items) outer rest := by
  induction h generalizing items outer rest with
  | nil => rfl
  | number htext _ ih =>
    rw [List.cons_append, readItems, htext]
    simpa using ih ..
  | group _ _ ihinner ih =>
    rw [List.append_assoc, List.cons_append, readItems, ihinner, List.cons_append, readItems, ih]
    simp

/-- **What the reader accepts**: items, and the bracket that closes their group. -/
theorem readItems_eq_ok_iff {items : List Nested} {ts rest : List Token} :
    readItems [] [] ts = .ok (items, rest) ↔ ∃ body, Writes items body ∧ ts = body ++ .closing :: rest := by
  constructor
  · intro h
    have hopened : Opened [] [] [] := .outermost .nil
    exact hopened.of_readItems h
  · rintro ⟨body, hwrites, rfl⟩
    rw [readItems_of_writes hwrites, readItems, List.append_nil, List.reverse_reverse]

/-- The reader never looks at the first token, and accepts the rest if it follows an opening bracket as the
rest of a group does. -/
theorem readItems_drop_one_iff {items : List Nested} {ts : List Token} :
    readItems [] [] (ts.drop 1) = .ok (items, []) ↔ Writes [.group items] (.opening :: ts.drop 1) := by
  rw [readItems_eq_ok_iff, Writes.singleton_group_iff]
  constructor
  · rintro ⟨body, hwrites, he⟩
    exact ⟨body, by rw [he]; rfl, hwrites⟩
  · rintro ⟨body, he, hwrites⟩
    exact ⟨body, hwrites, (List.cons.inj he).2⟩

end CommandBatch.Tensor
