import CommandBatch.Proofs.Tensor.Grammar
import CommandBatch.Proofs.Line.Reading
import CommandBatch.Proofs.Text.Margins

/-!
# Counting brackets and nesting groups

Two things look at the brackets of an array.  While a line is read, the type of arrays counts the brackets that
are open, and ends the array where none is left; then the reader nests groups on a stack.  They agree: on
a text that the count delimits, the stack is never left with an open group, and no token is left behind the
outermost one (`brackets_agree`).

The count goes over characters and the stack over tokens.  What they have in common is said of the tokens alone,
with the number of groups that are open around the innermost one (`ClosesAtLast`): the count gives it, by induction
on how the text spells its tokens, and it settles what the reader can come to, by induction on itself.
-/

namespace CommandBatch

open Text Decimal

namespace Lexis

/-- In a token about which `scratch` is noted, these characters go up to the first that ends it. -/
inductive EndsAtLast (l : Lexis) : Scratch → List Char → Prop
  | last {c : Char} {s s' : Scratch} (h : l.ends c s = .ok (true, s')) : EndsAtLast l s [c]
  | goesOn {c : Char} {s s' : Scratch} {cs : List Char} (h : l.ends c s = .ok (false, s')) (hcs : EndsAtLast l s' cs) :
      EndsAtLast l s (c :: cs)

/-- The functions of the type delimit the text: its first character begins a token, and its last is the first
that ends it. -/
def Delimits (l : Lexis) : List Char → Prop
  | [] => False
  | c :: cs => ∃ s, l.begins c {} = .ok (true, s) ∧ l.EndsAtLast s cs

end Lexis

namespace Nested

mutual

/-- The number of groups in the nesting. -/
def groups : Nested → Nat
  | .number _ => 0
  | .group items => groupsAll items + 1

/-- The number of groups in all the items. -/
def groupsAll : List Nested → Nat
  | [] => 0
  | item :: items => groups item + groupsAll items

end

end Nested

namespace Tensor

/-! ## What the tokens of items hold -/

/-- The text of a numeral. -/
def Token.numeral? : Token → Option (List Char)
  | .numeral text => some text
  | _ => none

/-- The numerals among the tokens. -/
def numerals (ts : List Token) : List (List Char) := ts.filterMap Token.numeral?

theorem numerals_append (ts us : List Token) : numerals (ts ++ us) = numerals ts ++ numerals us :=
  List.filterMap_append

@[simp] theorem numerals_opening (ts : List Token) : numerals (.opening :: ts) = numerals ts := rfl

@[simp] theorem numerals_closing (ts : List Token) : numerals (.closing :: ts) = numerals ts := rfl

@[simp] theorem numerals_numeral (text : List Char) (ts : List Token) :
    numerals (.numeral text :: ts) = text :: numerals ts := rfl

namespace Writes

variable {items ns : List Nested} {ts : List Token}

/-- The numbers of the items are those of the numerals, in their order. -/
theorem numbers_eq (h : Writes items ts) :
    (numerals ts).map (fun text => readFloat (.ofList text)) = (Nested.numbersAll items).map .ok := by
  induction h with
  | nil => rfl
  | number htext _ ih =>
    rw [numerals_numeral, List.map_cons, htext, ih]
    rfl
  | group _ _ ihinner ih =>
    rw [List.cons_append, numerals_opening, numerals_append, numerals_closing, List.map_append, ihinner, ih,
      Nested.numbersAll, Nested.numbers, List.map_append]

/-- Every numeral among the tokens is a number. -/
theorem readable (h : Writes items ts) : ∀ text ∈ numerals ts, ∃ x, readFloat (.ofList text) = .ok x := by
  intro text hmem
  have hread := List.mem_map_of_mem (f := fun text => readFloat (.ofList text)) hmem
  rw [h.numbers_eq] at hread
  obtain ⟨x, -, hx⟩ := List.mem_map.mp hread
  exact ⟨x, hx.symm⟩

/-- Each pair of brackets is a group. -/
theorem groups_eq (h : Writes items ts) :
    ts.count .opening = Nested.groupsAll items ∧ ts.count .closing = Nested.groupsAll items := by
  induction h with
  | nil => exact ⟨rfl, rfl⟩
  | number _ _ ih => simpa [Nested.groupsAll, Nested.groups] using ih
  | group _ _ ihinner ih =>
    simp only [List.cons_append, List.count_append, List.count_cons, Nested.groupsAll, Nested.groups, ihinner, ih]
    constructor <;> simp <;> omega

/-- Tokens write one group at most. -/
theorem unique (h : Writes [.group items] ts) (h' : Writes [.group ns] ts) : items = ns := by
  obtain ⟨us, rfl, hus⟩ := singleton_group_iff.mp h
  obtain ⟨vs, he, hvs⟩ := singleton_group_iff.mp h'
  have hread : readItems [] [] (us ++ [.closing]) = .ok (items, []) := readItems_eq_ok_iff.mpr ⟨us, hus, rfl⟩
  have hread' : readItems [] [] (us ++ [.closing]) = .ok (ns, []) :=
    readItems_eq_ok_iff.mpr ⟨vs, hvs, (List.cons.inj he).2⟩
  rw [hread] at hread'
  cases hread'
  rfl

end Writes

/-! ## Tokens that end with the outermost group -/

/-- With so many groups open around the innermost one, the tokens go up to the bracket that closes the
outermost. -/
inductive ClosesAtLast : Nat → List Token → Prop
  | last : ClosesAtLast 0 [.closing]
  | closing {depth : Nat} {ts : List Token} (h : ClosesAtLast depth ts) : ClosesAtLast (depth + 1) (.closing :: ts)
  | opening {depth : Nat} {ts : List Token} (h : ClosesAtLast (depth + 1) ts) : ClosesAtLast depth (.opening :: ts)
  | numeral {depth : Nat} {text : List Char} {ts : List Token} (h : ClosesAtLast depth ts) :
      ClosesAtLast depth (.numeral text :: ts)

/-- **What the reader comes to** on tokens that end with the outermost group: it reads them all, or meets a
numeral that is none. -/
theorem ClosesAtLast.outcome {depth : Nat} {ts : List Token} (h : ClosesAtLast depth ts) (items : List Nested)
    {outer : List (List Nested)} (hdepth : outer.length = depth) :
    (∃ res, readItems items outer ts = .ok (res, [])) ∨
      ∃ text ∈ numerals ts, ∃ e, readFloat (.ofList text) = .error e ∧
        readItems items outer ts = .error (.numeral e) := by
  induction h generalizing items outer with
  | last =>
    obtain rfl := List.length_eq_zero_iff.mp hdepth
    exact .inl ⟨_, rfl⟩
  | closing _ ih =>
    match outer with
    | around :: outer => exact ih (.group items.reverse :: around) (Nat.succ.inj hdepth)
  | opening _ ih => exact ih [] (congrArg Nat.succ hdepth)
  | @numeral depth text ts _ ih =>
    rw [readItems]
    cases hx : readFloat (.ofList text) with
    | ok x =>
      refine (ih (.number x :: items) hdepth).imp_right ?_
      rintro ⟨text', hmem, herror⟩
      exact ⟨text', List.mem_cons_of_mem _ hmem, herror⟩
    | error e => exact .inr ⟨text, List.mem_cons_self .., e, hx, rfl⟩

/-! ## The count of brackets -/

theorem depthAfter_of_ne {c : Char} (hopen : c ≠ '[') (hclose : c ≠ ']') (depth : Int) :
    Token.depthAfter c depth = depth := by
  rw [Token.depthAfter, if_neg hopen, if_neg hclose]

/-- While brackets are open, only a closing one leaves none. -/
theorem depthAfter_pos {c : Char} {depth : Int} (hdepth : 0 < depth) :
    0 < Token.depthAfter c depth ∨ c = ']' ∧ Token.depthAfter c depth = 0 := by
  unfold Token.depthAfter
  split_ifs with hopen hclose
  · omega
  · rcases eq_or_ne (depth - 1) 0 with hzero | hne
    · exact .inr ⟨hclose, hzero⟩
    · omega
  · exact .inl hdepth

/-- While brackets are open, only a closing one ends the array, and otherwise some stay open. -/
theorem ends_tensor_cases {c : Char} {s s' : Scratch} {ends : Bool} (hs : 0 < s.depth)
    (h : Token.tensorLexis.ends c s = .ok (ends, s')) : ends = true ∧ c = ']' ∨ ends = false ∧ 0 < s'.depth := by
  obtain ⟨rfl, rfl⟩ := Prod.mk.inj (Except.ok.inj h)
  rcases depthAfter_pos (c := c) hs with hpos | ⟨rfl, hzero⟩
  · exact .inr ⟨beq_eq_false_iff_ne.mpr (Int.ne_of_gt hpos), hpos⟩
  · exact .inl ⟨beq_iff_eq.mpr hzero, rfl⟩

/-- A character at which brackets stay open does not end the array. -/
theorem endsAtLast_cons_of_ne {c : Char} {cs : List Char} {s : Scratch}
    (h : Token.tensorLexis.EndsAtLast s (c :: cs)) (hne : Token.depthAfter c s.depth ≠ 0) :
    Token.tensorLexis.EndsAtLast { s with depth := Token.depthAfter c s.depth } cs := by
  cases h with
  | last hends =>
    obtain ⟨hzero, -⟩ := Prod.mk.inj (Except.ok.inj hends)
    exact absurd (eq_of_beq hzero) hne
  | goesOn hends hcs =>
    obtain ⟨-, rfl⟩ := Prod.mk.inj (Except.ok.inj hends)
    exact hcs

/-- The character at which the last bracket is closed ends the array. -/
theorem eq_nil_of_endsAtLast {c : Char} {cs : List Char} {s : Scratch}
    (h : Token.tensorLexis.EndsAtLast s (c :: cs)) (hzero : Token.depthAfter c s.depth = 0) : cs = [] := by
  cases h with
  | last => rfl
  | goesOn hends =>
    obtain ⟨hne, -⟩ := Prod.mk.inj (Except.ok.inj hends)
    rw [hzero] at hne
    cases hne

/-- Characters that are no brackets leave the count alone. -/
theorem endsAtLast_append_of_ne {word cs : List Char} {s : Scratch} (hword : ∀ c ∈ word, c ≠ '[' ∧ c ≠ ']')
    (h : Token.tensorLexis.EndsAtLast s (word ++ cs)) (hs : s.depth ≠ 0) : Token.tensorLexis.EndsAtLast s cs := by
  induction word with
  | nil => exact h
  | cons c word ih =>
    obtain ⟨⟨hopen, hclose⟩, hword⟩ := List.forall_mem_cons.mp hword
    have hsame := depthAfter_of_ne hopen hclose s.depth
    have hrest := endsAtLast_cons_of_ne h (by rwa [hsame])
    rw [hsame] at hrest
    exact ih hword hrest

theorem ne_brackets_of_isGap {c : Char} (h : isGap c = true) : c ≠ '[' ∧ c ≠ ']' := by
  constructor <;> rintro rfl <;> cases h

theorem Spells.eq_nil {ts : List Token} (h : Spells [] ts) : ts = [] := (spells_iff.mp h).symm

/-- **Where the count ends, the outermost group does.** -/
theorem Spells.closesAtLast {cs : List Char} {ts : List Token} (h : Spells cs ts) {s : Scratch} {depth : Nat}
    (hends : Token.tensorLexis.EndsAtLast s cs) (hdepth : s.depth = depth + 1) : ClosesAtLast depth ts := by
  induction h generalizing s depth with
  | nil => cases hends
  | @gap c cs ts hc _ ih =>
    have hgap : ∀ d ∈ [c], d ≠ '[' ∧ d ≠ ']' := by simpa using ne_brackets_of_isGap hc
    exact ih (endsAtLast_append_of_ne hgap hends (by omega)) hdepth
  | @opening cs ts _ ih =>
    have hopen : Token.depthAfter '[' s.depth = (depth + 1 : Nat) + 1 := by
      rw [Token.depthAfter, if_pos rfl, hdepth]
      rfl
    exact .opening (ih (endsAtLast_cons_of_ne hends (by omega)) hopen)
  | @closing cs ts hcs ih =>
    have hclose : Token.depthAfter ']' s.depth = depth := by
      rw [Token.depthAfter, if_neg (by decide), if_pos rfl, hdepth]
      omega
    cases depth with
    | zero =>
      obtain rfl := eq_nil_of_endsAtLast hends hclose
      rw [hcs.eq_nil]
      exact .last
    | succ depth =>
      exact .closing (ih (endsAtLast_cons_of_ne hends (by omega)) hclose)
  | @numeral word cs ts _ hword _ _ ih =>
    refine .numeral (ih (endsAtLast_append_of_ne (fun c hc => ?_) hends (by omega)) hdepth)
    obtain ⟨-, -, hopen, hclose⟩ := isInner_iff.mp (hword c hc)
    exact ⟨hopen, hclose⟩

theorem opening_of_begins {c : Char} {s : Scratch} (h : Token.tensorLexis.begins c {} = .ok (true, s)) :
    c = '[' ∧ s = { depth := 1 } := by
  simp only [Token.tensorLexis] at h
  by_cases hc : c = '['
  · rw [if_pos hc] at h
    exact ⟨hc, (Prod.mk.inj (Except.ok.inj h)).2.symm⟩
  · rw [if_neg hc] at h
    cases h

/-- What the type of arrays delimits begins with an opening bracket, and its tokens end with the group that it
opens. -/
theorem closesAtLast_of_delimits {cs : List Char} (h : Token.tensorLexis.Delimits cs) :
    ∃ ts, Spells cs (.opening :: ts) ∧ ClosesAtLast 0 ts := by
  match cs with
  | c :: cs =>
    obtain ⟨s, hbegins, hends⟩ := h
    obtain ⟨rfl, rfl⟩ := opening_of_begins hbegins
    obtain ⟨ts, hts⟩ := exists_spells cs
    exact ⟨ts, .opening hts, hts.closesAtLast hends rfl⟩

/-- The text ends with a closing bracket. -/
theorem getLast?_of_endsAtLast {cs : List Char} {s : Scratch} (h : Token.tensorLexis.EndsAtLast s cs)
    (hs : 0 < s.depth) : cs.getLast? = some ']' := by
  induction h with
  | last hends =>
    rcases ends_tensor_cases hs hends with ⟨-, rfl⟩ | ⟨⟨⟩, -⟩
    rfl
  | goesOn hends _ ih =>
    rcases ends_tensor_cases hs hends with ⟨⟨⟩, -⟩ | ⟨-, hopen⟩
    rw [List.getLast?_cons, ih hopen]
    rfl

/-- The text has no margins. -/
theorem trim_of_delimits {cs : List Char} (h : Token.tensorLexis.Delimits cs) : trim cs = cs := by
  match cs with
  | c :: cs =>
    obtain ⟨s, hbegins, hends⟩ := h
    obtain ⟨rfl, rfl⟩ := opening_of_begins hbegins
    have hlast : ('[' :: cs).getLast? = some ']' := by
      rw [List.getLast?_cons, getLast?_of_endsAtLast hends Int.one_pos]
      rfl
    refine trim_eq_self_iff.mpr ⟨?_, ?_⟩
    · rintro d ⟨⟩
      rfl
    · rw [hlast]
      rintro d ⟨⟩
      rfl

/-! ## Agreement -/

/-- An array that is not refused denotes the items that its tokens write. -/
theorem read?_eq_none_iff {cs : List Char} {ts : List Token} (hts : tokens cs = .opening :: ts) :
    read? cs = none ↔ ∀ items, Writes [.group items] (.opening :: ts) →
      (∀ shape, ¬(Nested.group items).HasShape shape) ∨ axisLimit < (Nested.group items).depth ∨
        (Nested.group items).numbers = [] := by
  rw [Option.eq_none_iff_forall_ne_some]
  constructor
  · intro hnone items hwrites
    by_contra hgood
    obtain ⟨hshape, hdepth, hnumbers⟩ := by simpa only [not_or, not_forall, not_not] using hgood
    obtain ⟨shape, hshape⟩ := hshape
    refine hnone ⟨shape, (Nested.group items).numbers⟩ (read?_eq_some_iff.mpr ⟨items, ?_, ⟨hshape, rfl, hnumbers⟩, ?_⟩)
    · rwa [hts]
    · exact Nat.le_of_not_lt hdepth
  · intro hbad t hread
    obtain ⟨items, hwrites, hdenotes, hdepth⟩ := read?_eq_some_iff.mp hread
    rw [hts] at hwrites
    rcases hbad items hwrites with hshape | hlimit | hnumbers
    · exact hshape _ hdenotes.shape
    · exact absurd hdepth (Nat.not_le_of_lt hlimit)
    · exact hdenotes.nonempty (hdenotes.entries.trans hnumbers)

theorem refused_iff {cs : List Char} (htrim : trim cs = cs) :
    Token.parseTensor (.ofList cs) = .refused (.ofList cs) ↔ read? cs = none := by
  rw [Token.parseTensor_eq, strip, String.toList_ofList, htrim]
  cases read? cs with
  | some t => simp [Value.refused]
  | none => simp

/-- On a text that the type of arrays delimits, the reader comes to items that the tokens write, or meets a numeral
that is no number. -/
theorem outcome_of_delimits {cs : List Char} (h : Token.tensorLexis.Delimits cs) :
    ∃ ts, Spells cs (.opening :: ts) ∧
      ((∃ items, readItems [] [] ts = .ok (items, []) ∧ Writes [.group items] (.opening :: ts)) ∨
        ∃ text ∈ numerals ts, ∃ e, readFloat (.ofList text) = .error e ∧
          readItems [] [] ts = .error (.numeral e)) := by
  obtain ⟨ts, hspells, hends⟩ := closesAtLast_of_delimits h
  refine ⟨ts, hspells, (hends.outcome [] List.length_nil).imp_left ?_⟩
  rintro ⟨items, hread⟩
  have hdrop : readItems [] [] ((.opening :: ts).drop 1) = .ok (items, []) := hread
  exact ⟨items, hread, readItems_drop_one_iff.mp hdrop⟩

/-- **Counting brackets and nesting groups agree.**  A text that the type of arrays delimits is an opening bracket
and tokens on which the reader is never left with an open group, nor with a token behind the outermost one.  If
every numeral is a number, the reader comes to items that these tokens write: the numbers in them, from left to
right, are those of the numerals, and there is a group for each pair of brackets.  So such a text is refused only
for a numeral that is no number, or for a nesting that is not rectangular, deeper than 64 levels or without a
number. -/
theorem brackets_agree {cs : List Char} (h : Token.tensorLexis.Delimits cs) :
    ∃ ts, Spells cs (.opening :: ts) ∧
      readItems [] [] ts ≠ .error .unbalanced ∧
      (∀ items rest, readItems [] [] ts = .ok (items, rest) → rest = []) ∧
      ((∀ text ∈ numerals ts, ∃ x, readFloat (.ofList text) = .ok x) →
        ∃ items, readItems [] [] ts = .ok (items, []) ∧ Writes [.group items] (.opening :: ts) ∧
          (numerals ts).map (fun text => readFloat (.ofList text)) = (Nested.group items).numbers.map .ok ∧
          (Token.opening :: ts).count .opening = (Nested.group items).groups ∧
          (Token.opening :: ts).count .closing = (Nested.group items).groups) ∧
      (Token.parseTensor (.ofList cs) = .refused (.ofList cs) ↔
        (∃ text ∈ numerals ts, ∃ e, readFloat (.ofList text) = .error e) ∨
        ∃ items, Writes [.group items] (.opening :: ts) ∧
          ((∀ shape, ¬(Nested.group items).HasShape shape) ∨ 64 < (Nested.group items).depth ∨
            (Nested.group items).numbers = [])) := by
  obtain ⟨ts, hspells, houtcome⟩ := outcome_of_delimits h
  have hrefused := (refused_iff (trim_of_delimits h)).trans (read?_eq_none_iff hspells.tokens_eq)
  -- numerals of tokens that write a group are numbers
  have hclash {items : List Nested} (hgroup : Writes [.group items] (.opening :: ts)) {text : List Char}
      (hmem : text ∈ numerals ts) {e : NumeralError} (herror : readFloat (.ofList text) = .error e) : False := by
    obtain ⟨x, hx⟩ := hgroup.readable text hmem
    rw [herror] at hx
    cases hx
  refine ⟨ts, hspells, ?_⟩
  rcases houtcome with ⟨items, hread, hgroup⟩ | ⟨text, hmem, e, herror, hread⟩
  · refine ⟨by simp [hread], fun items' rest hread' => ?_, fun _ => ?_, hrefused.trans ⟨fun hbad => ?_, ?_⟩⟩
    · rw [hread] at hread'
      cases hread'
      rfl
    · obtain ⟨hopen, hclose⟩ := hgroup.groups_eq
      exact ⟨items, hread, hgroup, by simpa [Nested.numbersAll] using hgroup.numbers_eq, hopen, hclose⟩
    · exact .inr ⟨items, hgroup, hbad items hgroup⟩
    · rintro (⟨text, hmem, e, herror⟩ | ⟨items', hgroup', hbad⟩) ns hns
      · exact (hclash hgroup hmem herror).elim
      · rwa [hns.unique hgroup']
  · refine ⟨by simp [hread], fun items rest hread' => ?_, fun hgood => ?_, hrefused.trans ⟨fun _ => ?_, fun _ => ?_⟩⟩
    · rw [hread] at hread'
      cases hread'
    · obtain ⟨x, hx⟩ := hgood text hmem
      rw [herror] at hx
      cases hx
    · exact .inl ⟨text, hmem, e, herror⟩
    · exact fun ns hns => (hclash hns hmem herror).elim

/-- A text that is delimited and read to its end, and refused because its items have different shapes. -/
def ragged : List Char := ['[', '[', '1', ']', ',', '2', ']']

theorem brackets_agree_ragged :
    Token.tensorLexis.Delimits ragged ∧
    ∃ ts items, Spells ragged (.opening :: ts) ∧ readItems [] [] ts = .ok (items, []) ∧
      (Token.opening :: ts).count .opening = (Nested.group items).groups := by
  have hdelimits : Token.tensorLexis.Delimits ragged :=
    ⟨_, rfl, .goesOn rfl (.goesOn rfl (.goesOn rfl (.goesOn rfl (.goesOn rfl (.last rfl)))))⟩
  obtain ⟨ts, hspells, -, -, hreads, -⟩ := brackets_agree hdelimits
  have hts : ts = [.opening, .numeral ['1'], .closing, .numeral ['2'], .closing] :=
    (List.cons.inj (spells_iff.mp hspells)).2.symm
  have hnumerals : ∀ text ∈ numerals ts, ∃ x, readFloat (.ofList text) = .ok x := by
    rw [hts]
    simp only [numerals_opening, numerals_numeral, numerals_closing, List.forall_mem_cons]
    exact ⟨⟨_, rfl⟩, ⟨_, rfl⟩, nofun⟩
  obtain ⟨items, hread, -, -, hgroups, -⟩ := hreads hnumerals
  exact ⟨hdelimits, ts, items, hspells, hread, hgroups⟩

end Tensor

end CommandBatch
