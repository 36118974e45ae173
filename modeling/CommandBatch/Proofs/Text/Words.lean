import CommandBatch.Text.Blank
import CommandBatch.Text.Pieces

/-!
# Words and pieces

How a text falls apart at a character: into words at a blank (`words_append`), into pieces at a mark
(`piecesAt_append`).  What stands in front of the character and what stands behind it are taken apart on
their own.
-/

namespace CommandBatch.Text

/-! ## Words -/

theorem wordsFrom_append {c : Char} (hc : isBlank c = true) (word xs ys : List Char) :
    wordsFrom word (xs ++ c :: ys) = wordsFrom word xs ++ words ys := by
  induction xs generalizing word with
  | nil => cases word <;> simp [wordsFrom, words, hc]
  | cons x xs ih =>
    by_cases hx : isBlank x = true
    · cases word <;> simp [wordsFrom, hx, ih]
    · simp [wordsFrom, hx, ih]

/-- **A blank parts the words** in front of it from those behind it. -/
theorem words_append {c : Char} (hc : isBlank c = true) (xs ys : List Char) :
    words (xs ++ c :: ys) = words xs ++ words ys := wordsFrom_append hc [] xs ys

theorem words_cons {c : Char} (hc : isBlank c = true) (cs : List Char) : words (c :: cs) = words cs :=
  words_append hc [] cs

theorem wordsFrom_of_forall {cs : List Char} (h : ∀ c ∈ cs, isBlank c = false) (word : List Char)
    (hne : word ≠ [] ∨ cs ≠ []) : wordsFrom word cs = [word.reverse ++ cs] := by
  induction cs generalizing word with
  | nil => simp [wordsFrom, hne.resolve_right (not_not_intro rfl)]
  | cons c cs ih =>
    obtain ⟨hc, hcs⟩ := List.forall_mem_cons.mp h
    simp [wordsFrom, hc, ih hcs (c :: word) (.inl (List.cons_ne_nil _ _))]

/-- A text without a blank is one word. -/
theorem words_of_forall {cs : List Char} (hne : cs ≠ []) (h : ∀ c ∈ cs, isBlank c = false) :
    words cs = [cs] := wordsFrom_of_forall h [] (.inr hne)

/-! ## Pieces -/

/-- A text without the mark is one piece. -/
theorem piecesAt_of_not_mem {mark : Char} {cs : List Char} (h : mark ∉ cs) : piecesAt mark cs = [cs] := by
  induction cs with
  | nil => rfl
  | cons c cs ih =>
    obtain ⟨hc, hcs⟩ := not_or.mp fun hmem => h (List.mem_cons.mpr hmem)
    rw [piecesAt, if_neg fun he => hc he.symm, ih hcs]

/-- **A mark parts the pieces** in front of it from those behind it. -/
theorem piecesAt_append_mark (mark : Char) (xs ys : List Char) :
    piecesAt mark (xs ++ mark :: ys) = piecesAt mark xs ++ piecesAt mark ys := by
  induction xs with
  | nil => exact if_pos rfl
  | cons x xs ih =>
    rw [List.cons_append, piecesAt, piecesAt, ih]
    by_cases hx : x = mark
    · rw [if_pos hx, if_pos hx, List.cons_append]
    · rw [if_neg hx, if_neg hx]
      cases hpieces : piecesAt mark xs with
      | nil => exact absurd hpieces (piecesAt_ne_nil mark xs)
      | cons piece pieces => rfl

/-- A mark ends the first piece. -/
theorem piecesAt_append {mark : Char} {xs : List Char} (h : mark ∉ xs) (ys : List Char) :
    piecesAt mark (xs ++ mark :: ys) = xs :: piecesAt mark ys := by
  rw [piecesAt_append_mark, piecesAt_of_not_mem h, List.singleton_append]

/-- No piece holds the mark. -/
theorem not_mem_of_mem_piecesAt {mark : Char} {cs piece : List Char} (h : piece ∈ piecesAt mark cs) :
    mark ∉ piece := by
  induction cs generalizing piece with
  | nil =>
    rw [List.mem_singleton.mp h]
    exact List.not_mem_nil
  | cons c cs ih =>
    rw [piecesAt] at h
    split at h
    · rcases List.mem_cons.mp h with rfl | h
      · exact List.not_mem_nil
      · exact ih h
    · rename_i hc
      cases hpieces : piecesAt mark cs with
      | nil => exact absurd hpieces (piecesAt_ne_nil mark cs)
      | cons first pieces =>
        rw [hpieces] at h
        rcases List.mem_cons.mp h with rfl | h
        · rw [List.mem_cons]
          exact not_or.mpr ⟨fun he => hc he.symm, ih (hpieces ▸ List.mem_cons_self ..)⟩
        · exact ih (hpieces ▸ List.mem_cons_of_mem _ h)

/-- Pieces with marks between them are told apart again. -/
theorem piecesAt_intercalate {mark : Char} {pieces : List (List Char)} (hne : pieces ≠ [])
    (h : ∀ piece ∈ pieces, mark ∉ piece) : piecesAt mark ([mark].intercalate pieces) = pieces := by
  induction pieces with
  | nil => exact absurd rfl hne
  | cons piece pieces ih =>
    obtain ⟨hpiece, hpieces⟩ := List.forall_mem_cons.mp h
    cases pieces with
    | nil => simpa using piecesAt_of_not_mem hpiece
    | cons next pieces =>
      rw [List.intercalate_cons_cons, List.append_assoc, List.singleton_append, piecesAt_append hpiece,
        ih (List.cons_ne_nil _ _) hpieces]

/-- One more piece stands behind a mark. -/
theorem intercalate_concat {mark : Char} {pieces : List (List Char)} (hne : pieces ≠ []) (piece : List Char) :
    [mark].intercalate (pieces ++ [piece]) = [mark].intercalate pieces ++ mark :: piece := by
  induction pieces with
  | nil => exact absurd rfl hne
  | cons first pieces ih =>
    cases pieces with
    | nil => simp
    | cons next pieces =>
      have hrest := ih (List.cons_ne_nil next pieces)
      rw [List.cons_append] at hrest
      rw [List.cons_append, List.cons_append, List.intercalate_cons_cons, List.intercalate_cons_cons, hrest,
        List.append_assoc, List.append_assoc, List.append_assoc]

end CommandBatch.Text
