import CommandBatch.Proofs.Line.Concatenation
import CommandBatch.Proofs.Line.Literals
import Mathlib.Data.List.Forall2

/-!
# Other separators

A line may have any separator.  If it has no meaning in literals, then literals with runs of it in front of
them are read as they are behind spaces, with one exception: a word for a truth value is ended by a space or
a tab only, so that with any other separator the first such word runs to the end of the line and is never
closed (`read_separated`).
-/

namespace CommandBatch.Line

open Text Token Decimal

/-- The marks of lines with one separator. -/
def separatedBy (w : Char) : Marks := { separators := [w] }

variable {w : Char}

theorem separates_separatedBy {c : Char} : (separatedBy w).separates c = true ↔ c = w := by
  simp [Marks.separates, separatedBy]

theorem separates_of_not_mem {cs : List Char} (h : w ∉ cs) :
    ∀ c ∈ cs, (separatedBy w).separates c = false := by
  intro c hc
  rw [Bool.eq_false_iff, Ne, separates_separatedBy]
  rintro rfl
  exact h hc

theorem freeMarks_separatedBy (hw : IsFree w) : FreeMarks (separatedBy w) := by
  intro c hc
  rwa [separates_separatedBy.mp hc]

/-! ### Arguments without an end -/

/-- Where nothing ends a token told by its characters alone, it is not closed. -/
theorem readArguments_unclosed {types : List TokenType} {marks : Marks} {type : TokenType}
    {begins ends : Char → Bool} {parse : String → Except Fault Reading}
    (htype : type.lexis = .ofClasses begins ends parse) {cs : List Char}
    (hcs : ∀ c ∈ cs, ends c = false) (s : Scratch) (start column : Nat) (read : List Char) :
    readArguments types marks (.inside type s start read) column cs =
      .error (.ofReason (.unclosed type.name start)) := by
  induction cs generalizing column read with
  | nil => rfl
  | cons c cs ih =>
    obtain ⟨hc, hcs⟩ := List.forall_mem_cons.mp hcs
    have hgoes : type.lexis.ends c s = .ok (false, s) := by simp [htype, Lexis.ofClasses, hc]
    rw [readArguments_goesOn hgoes, ih hcs]

/-- A word for a truth value with no space or tab behind it is not closed. -/
theorem readArguments_truth {marks : Marks} {b : Bool} {word rest : List Char}
    (h : (Literal.truth b word).WellFormed) (hkept : ∀ c ∈ word, marks.separates c = false)
    (hrest : ∀ c ∈ rest, c ≠ ' ' ∧ c ≠ '\t') (column : Nat) :
    readArguments defaults marks .between column (word ++ rest) =
      .error (.ofReason (.unclosed TypeName.bool column)) := by
  obtain ⟨c, cs, rfl, hc⟩ := cons_of_truthWord h.1 h.2
  rw [List.cons_append, readArguments_begins (hkept c (List.mem_cons_self ..)),
    claim_eq_ok_iff.mpr (claims_bool hc)]
  refine readArguments_unclosed (show Token.bool.lexis = _ from rfl) ?_ _ _ _ _
  intro d hd
  rcases List.mem_append.mp hd with hd | hd
  · exact ends_bool_of_mem h.1 (List.mem_cons_of_mem _ hd)
  · simp [hrest d hd]

/-! ### Lines of literals -/

theorem exists_truth_of_type {l : Literal} (h : l.type = TypeName.bool) :
    ∃ b word, l = .truth b word := by
  cases l with
  | truth b word => exact ⟨b, word, rfl⟩
  | _ => simp [Literal.type, TypeName.bool, TypeName.number, TypeName.symbol, TypeName.string,
      TypeName.reference] at h

/-- Literals denote one list of values. -/
theorem denotes_unique {args args' : List Spaced} {vs vs' : List Value}
    (hsame : args.map Spaced.literal = args'.map Spaced.literal)
    (h : List.Forall₂ (fun a v => a.literal.Denotes v) args vs)
    (h' : List.Forall₂ (fun a v => a.literal.Denotes v) args' vs') : vs = vs' := by
  have hunique : Relator.RightUnique Literal.Denotes := fun _ _ _ h h' => h.unique h'
  have h : List.Forall₂ Literal.Denotes (args.map Spaced.literal) vs := List.forall₂_map_left_iff.mpr h
  have h' : List.Forall₂ Literal.Denotes (args'.map Spaced.literal) vs' := List.forall₂_map_left_iff.mpr h'
  rw [hsame] at h
  exact List.right_unique_forall₂' hunique h h'

theorem trim_pieces {args : List Spaced} (h : ∀ a ∈ args, a.literal.WellFormed) :
    ∀ p ∈ args.map Spaced.piece, p.word ≠ [] ∧ trim p.word = p.word := by
  intro p hp
  obtain ⟨a, ha, rfl⟩ := List.mem_map.mp hp
  obtain ⟨c, cs, _, htext, -⟩ := spans_literal (h a ha)
  exact ⟨by simp [Spaced.piece, htext], (h a ha).trim_text⟩

/-- The literal stands behind a run of `w`, and neither `w` nor a space nor a tab occurs in it. -/
structure Spaced.Behind (w : Char) (a : Spaced) : Prop where
  nonempty : a.gap ≠ []
  run : ∀ c ∈ a.gap, c = w
  literal : a.literal.WellFormed
  clear : ∀ c ∈ a.literal.text, c ≠ w ∧ c ≠ ' ' ∧ c ≠ '\t'

section Behind
variable {word : List Char} {args : List Spaced}

theorem read_word_and_literals (hword : IsCommandWord word) (hw : w ∉ word)
    (hargs : ∀ a ∈ args, a.Behind w) :
    read defaults (separatedBy w) (.ofList (word ++ args.flatMap Spaced.text)) =
      (readArguments defaults (separatedBy w) .between word.length
        (args.flatMap Spaced.text ++ [w])).map fun vs => ⟨.ofList (upperList word), vs⟩ := by
  have hrest : (separatedBy w).Separated (args.flatMap Spaced.text ++ [w]) := by
    cases args with
    | nil => exact ⟨w, [], rfl, separates_separatedBy.mpr rfl⟩
    | cons a args =>
      have ha := hargs a (List.mem_cons_self ..)
      obtain ⟨c, cs, hcons⟩ := List.exists_cons_of_ne_nil ha.nonempty
      refine ⟨c, cs ++ a.literal.text ++ args.flatMap Spaced.text ++ [w], ?_,
        separates_separatedBy.mpr (ha.run c (by simp [hcons]))⟩
      simp [Spaced.text, hcons]
  have htrim := trim_joined hword.nonempty hword.begins (fun _ => hword.ends)
    (trim_pieces fun a ha => (hargs a ha).literal)
  rw [joined_piece, List.append_nil] at htrim
  exact read_word_and_rest rfl hword.nonempty (separates_of_not_mem hw) hrest htrim
    (isComment_word hword.nonempty hword.uncommented rfl _)

/-- Without words for truth values, or with a space or a tab for the separator, all literals are
arguments. -/
theorem arguments_behind (hw : IsFree w) (hargs : ∀ a ∈ args, a.Behind w)
    (htruth : ∀ a ∈ args, a.literal.type = TypeName.bool → w = ' ' ∨ w = '\t') {tail : List Char}
    (htail : ∀ c ∈ tail, c = w) (hne : tail ≠ []) :
    ∃ vs, Arguments defaults (separatedBy w) (args.map Spaced.piece) tail vs ∧
      List.Forall₂ (fun a v => a.literal.Denotes v) args vs := by
  refine arguments_of_spans ?_ ?_ (fun c hc => separates_separatedBy.mpr (htail c hc)) hne
  · exact fun a ha => ⟨(hargs a ha).nonempty,
      fun c hc => separates_separatedBy.mpr ((hargs a ha).run c hc)⟩
  · refine fun a ha => ⟨(hargs a ha).literal, ?_⟩
    refine (freeMarks_separatedBy hw).spans_literal (hargs a ha).literal fun htype c hc => ?_
    rw [separates_separatedBy.mp hc]
    exact htruth a ha htype

/-- Literals and runs of `w` hold no space and no tab if `w` is none. -/
theorem spaceless_of_behind (hargs : ∀ a ∈ args, a.Behind w) (hspace : w ≠ ' ') (htab : w ≠ '\t') :
    ∀ c ∈ args.flatMap Spaced.text ++ [w], c ≠ ' ' ∧ c ≠ '\t' := by
  intro c hc
  rcases List.mem_append.mp hc with hc | hc
  · obtain ⟨a, ha, hc⟩ := List.mem_flatMap.mp hc
    rcases List.mem_append.mp hc with hc | hc
    · rw [(hargs a ha).run c hc]
      exact ⟨hspace, htab⟩
    · exact ((hargs a ha).clear c hc).2
  · rw [List.mem_singleton.mp hc]
    exact ⟨hspace, htab⟩

/-- If the separator is neither a space nor a tab, the first word for a truth value is not closed. -/
theorem read_behind_truth (hw : IsFree w) (hword : IsCommandWord word) (hwword : w ∉ word)
    (hspace : w ≠ ' ') (htab : w ≠ '\t') {before after : List Spaced} {a : Spaced}
    (hargs : ∀ b ∈ before ++ a :: after, b.Behind w)
    (hbefore : ∀ b ∈ before, b.literal.type ≠ TypeName.bool) (ha : a.literal.type = TypeName.bool) :
    read defaults (separatedBy w) (.ofList (word ++ (before ++ a :: after).flatMap Spaced.text)) =
      .error (.ofReason (.unclosed TypeName.bool
        (word ++ before.flatMap Spaced.text ++ a.gap).length)) := by
  rw [read_word_and_literals hword hwword hargs]
  obtain ⟨hargsBefore, hargs⟩ := List.forall_mem_append.mp hargs
  obtain ⟨hbehind, hargsAfter⟩ := List.forall_mem_cons.mp hargs
  obtain ⟨gap, literal⟩ := a
  obtain ⟨b, truth, rfl⟩ := exists_truth_of_type ha
  obtain ⟨vs, harguments, -⟩ := arguments_behind hw hargsBefore
    (fun b hb htype => absurd htype (hbefore b hb)) hbehind.run hbehind.nonempty
  have hsplit : (before ++ ⟨gap, .truth b truth⟩ :: after).flatMap Spaced.text ++ [w] =
      joined (before.map Spaced.piece) gap ++ (truth ++ (after.flatMap Spaced.text ++ [w])) := by
    simp [joined_piece, Spaced.text, Literal.text]
  have hkept : ∀ c ∈ truth, (separatedBy w).separates c = false :=
    separates_of_not_mem fun hw => (hbehind.clear w hw).1 rfl
  have hrest := spaceless_of_behind hargsAfter hspace htab
  rw [hsplit, readArguments_append (readArguments_joined harguments _),
    readArguments_truth hbehind.literal hkept hrest]
  simp [Except.map, joined_piece]

/-- **Literals behind another separator.**  Let `w` be a character without a meaning in literals.  A command
word and literals, in which neither `w` nor a space nor a tab occurs, are read alike with runs of spaces and
tabs between them and, by the separator `w`, with runs of `w`, as long as `w` is a space or a tab or no
literal is a word for a truth value.  With any other `w`, the line fails at the first such word, as an
argument that is never closed. -/
theorem read_separated (hw : IsFree w) (hword : IsCommandWord word) (hwword : w ∉ word)
    (hargs : ∀ a ∈ args, a.Behind w) {args' : List Spaced} (hargs' : ∀ a ∈ args', a.WellFormed)
    (hsame : args.map Spaced.literal = args'.map Spaced.literal) :
    ∃ l, read defaults {} (.ofList (word ++ args'.flatMap Spaced.text)) = .ok l ∧
      ((w = ' ' ∨ w = '\t' ∨ ∀ a ∈ args, a.literal.type ≠ TypeName.bool) →
        read defaults (separatedBy w) (.ofList (word ++ args.flatMap Spaced.text)) = .ok l) ∧
      ∀ before a after, args = before ++ a :: after →
        (∀ b ∈ before, b.literal.type ≠ TypeName.bool) → a.literal.type = TypeName.bool →
        w ≠ ' ' → w ≠ '\t' →
          read defaults (separatedBy w) (.ofList (word ++ args.flatMap Spaced.text)) =
            .error (.ofReason (.unclosed TypeName.bool
              (word ++ before.flatMap Spaced.text ++ a.gap).length)) := by
  obtain ⟨vs, harguments, hdenotes⟩ := arguments_of_literals hargs'
  have hread := read_joined hword (trim_pieces fun a ha => (hargs' a ha).literal) harguments
  rw [joined_piece, List.append_nil] at hread
  refine ⟨_, hread, ?_, ?_⟩
  · intro hcond
    have htruth : ∀ a ∈ args, a.literal.type = TypeName.bool → w = ' ' ∨ w = '\t' := by
      intro a ha htype
      rcases hcond with h | h | h
      · exact .inl h
      · exact .inr h
      · exact absurd htype (h a ha)
    obtain ⟨vs', harguments', hdenotes'⟩ :=
      arguments_behind hw hargs htruth (List.forall_mem_singleton.mpr rfl) (by simp)
    rw [read_word_and_literals hword hwword hargs, ← joined_piece, readArguments_joined harguments',
      denotes_unique hsame hdenotes' hdenotes]
    rfl
  · rintro before a after rfl hbefore ha hspace htab
    exact read_behind_truth hw hword hwword hspace htab hargs hbefore ha

end Behind

/-- A comma has no meaning in literals, and yet it does not end a word for a truth value. -/
theorem comma_leaves_truth_open :
    IsFree ',' ∧ (Literal.truth true ['t', 'r', 'u', 'e']).WellFormed ∧
      read defaults {} "put true" = .ok ⟨"PUT", [⟨TypeName.bool, .bool true, some "true"⟩]⟩ ∧
      read defaults (separatedBy ',') "put,true" = .error (.ofReason (.unclosed TypeName.bool 4)) := by
  refine ⟨?_, ⟨by decide, rfl⟩, rfl, rfl⟩
  constructor <;> decide

/-- A number and a string are read behind commas as behind spaces; the word behind them is not closed. -/
theorem read_separated_commas :
    (∃ l, read defaults {} "put -1\t'a'" = .ok l ∧
        read defaults (separatedBy ',') "put,-1,,'a'" = .ok l) ∧
      read defaults (separatedBy ',') "put,-1,,'a',t" =
        .error (.ofReason (.unclosed TypeName.bool 12)) := by
  have hcomma : IsFree ',' := by constructor <;> decide
  have hword : IsCommandWord ['p', 'u', 't'] := by
    refine ⟨by decide, by decide, by decide, ?_, ?_⟩ <;> simp [isBlank]
  have hnumber : (Literal.whole true ['1']).WellFormed := ⟨by simp, by decide, by simp [digitLimit]⟩
  have hstring : (Literal.quoted '\'' [.plain 'a']).WellFormed := ⟨by decide, by simp [Glyph.Fits]⟩
  have htruth : (Literal.truth true ['t']).WellFormed := ⟨by decide, rfl⟩
  have hnumberBehind : Spaced.Behind ',' ⟨[','], .whole true ['1']⟩ :=
    ⟨by simp, by simp, hnumber, by decide⟩
  have hstringBehind : Spaced.Behind ',' ⟨[',', ','], .quoted '\'' [.plain 'a']⟩ :=
    ⟨by simp, by simp, hstring, by decide⟩
  have htruthBehind : Spaced.Behind ',' ⟨[','], .truth true ['t']⟩ :=
    ⟨by simp, by simp, htruth, by decide⟩
  constructor
  · have hbehind : ∀ a ∈ [⟨[','], .whole true ['1']⟩, ⟨[',', ','], .quoted '\'' [.plain 'a']⟩],
        Spaced.Behind ',' a := by simpa using ⟨hnumberBehind, hstringBehind⟩
    have hspaced : ∀ a ∈ [⟨[' '], .whole true ['1']⟩, ⟨['\t'], .quoted '\'' [.plain 'a']⟩],
        Spaced.WellFormed a := by simpa using ⟨⟨by simp, by simp, hnumber⟩, ⟨by simp, by simp, hstring⟩⟩
    obtain ⟨l, hspaces, hcommas, -⟩ :=
      read_separated hcomma hword (by decide) hbehind hspaced rfl
    exact ⟨l, hspaces, hcommas (.inr (.inr (by decide)))⟩
  · have hbehind : ∀ a ∈ [⟨[','], .whole true ['1']⟩, ⟨[',', ','], .quoted '\'' [.plain 'a']⟩,
        ⟨[','], .truth true ['t']⟩], Spaced.Behind ',' a := by
      simpa using ⟨hnumberBehind, hstringBehind, htruthBehind⟩
    have hspaced : ∀ a ∈ [⟨[' '], .whole true ['1']⟩, ⟨[' '], .quoted '\'' [.plain 'a']⟩,
        ⟨[' '], .truth true ['t']⟩], Spaced.WellFormed a := by
      simpa using ⟨⟨by simp, by simp, hnumber⟩, ⟨by simp, by simp, hstring⟩, ⟨by simp, by simp, htruth⟩⟩
    obtain ⟨l, -, -, hcommas⟩ := read_separated hcomma hword (by decide) hbehind hspaced rfl
    exact hcommas [_, _] _ [] rfl (by decide) rfl (by decide) (by decide)

end CommandBatch.Line
