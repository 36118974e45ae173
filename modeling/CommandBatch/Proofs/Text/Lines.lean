import CommandBatch.Text.Blank

/-!
# The lines of joined texts

Texts that are joined by line feeds and read line by line are not always what is read again: a text may hold
another character that ends a line, and then it falls into parts (`lineParts`).  What is read are the parts of
all texts, one after the other.  An empty part at the very end is lost, since a line end with nothing behind it
does not begin another line (`lines_join`).
-/

namespace CommandBatch.Text

/-- The parts of a text at the characters that end lines; there is one more of them than of these. -/
def lineParts (s : String) : List String := (s.toList.splitOnP isLineEnd).map .ofList

/-- A text that holds no character that ends a line is the only part of it. -/
theorem lineParts_eq_singleton {s : String} (h : ∀ c ∈ s.toList, isLineEnd c = false) : lineParts s = [s] := by
  rw [lineParts, List.splitOnP_eq_singleton h, List.map_singleton, String.ofList_toList]

theorem linesFrom_cons {c : Char} {cs : List Char} (h : ∀ rest, c = '\r' → cs = '\n' :: rest → False)
    (line : List Char) :
    linesFrom line (c :: cs) =
      if isLineEnd c then line.reverse :: linesFrom [] cs else linesFrom (c :: line) cs := by
  rw [linesFrom]
  exact h

/-- Without a carriage return, which may make one line end with a line feed, the lines are the parts, but for
an empty part at the end. -/
theorem splitOnP_linesFrom {cs : List Char} (h : '\r' ∉ cs) (line : List Char) :
    cs.splitOnPPrepend isLineEnd line = linesFrom line cs ∨
      cs.splitOnPPrepend isLineEnd line = linesFrom line cs ++ [[]] := by
  induction cs generalizing line with
  | nil =>
    cases line with
    | nil => exact .inr rfl
    | cons c line => exact .inl rfl
  | cons c cs ih =>
    obtain ⟨hc, hcs⟩ := not_or.mp (mt List.mem_cons.mpr h)
    rw [linesFrom_cons fun _ hcr => absurd hcr.symm hc, List.splitOnPPrepend_cons_eq_if]
    by_cases hend : isLineEnd c = true
    · rw [if_pos hend, if_pos hend]
      exact (ih hcs []).imp (congrArg _) (congrArg _)
    · rw [if_neg hend, if_neg hend]
      exact ih hcs (c :: line)

/-- Where an empty line says nothing, the lines say what the parts say: a carriage return and the line feed behind
it have an empty part between them, and a line end at the very end has one behind it. -/
theorem filterMap_linesFrom {β : Type} {f : List Char → Option β} (hf : f [] = none) (line cs : List Char) :
    (linesFrom line cs).filterMap f = (cs.splitOnPPrepend isLineEnd line).filterMap f := by
  induction line, cs using linesFrom.induct with
  | case1 line hline =>
    obtain rfl := List.isEmpty_iff.mp hline
    exact (List.filterMap_cons_none hf).symm
  | case2 line hline =>
    rw [linesFrom, if_neg hline]
    rfl
  | case3 line cs ih =>
    have hreturn : isLineEnd '\r' = true := rfl
    have hfeed : isLineEnd '\n' = true := rfl
    rw [linesFrom, List.splitOnPPrepend_cons_eq_if, if_pos hreturn, ← List.splitOnPPrepend_nil_right,
      List.splitOnPPrepend_cons_eq_if, if_pos hfeed, ← List.splitOnPPrepend_nil_right, List.reverse_nil,
      List.filterMap_cons, List.filterMap_cons, List.filterMap_cons_none hf, ih]
  | case4 line c cs hpair hend ih =>
    rw [linesFrom_cons hpair, if_pos hend, List.splitOnPPrepend_cons_eq_if, if_pos hend,
      ← List.splitOnPPrepend_nil_right, List.filterMap_cons, List.filterMap_cons, ih]
  | case5 line c cs hpair hend ih =>
    rw [linesFrom_cons hpair, if_neg hend, List.splitOnPPrepend_cons_eq_if, if_neg hend, ih]

theorem filterMap_lines {β : Type} {f : String → Option β} (hf : f "" = none) (s : String) :
    (lines s).filterMap f = (lineParts s).filterMap f := by
  rw [lines, lineParts, List.filterMap_map, List.filterMap_map, ← List.splitOnPPrepend_nil_right]
  exact filterMap_linesFrom hf [] s.toList

theorem splitOnP_intercalate {pieces : List (List Char)} (h : pieces ≠ []) :
    (['\n'].intercalate pieces).splitOnP isLineEnd = pieces.flatMap (List.splitOnP isLineEnd) := by
  induction pieces with
  | nil => exact absurd rfl h
  | cons piece pieces ih =>
    cases pieces with
    | nil => simp
    | cons piece' pieces =>
      rw [List.intercalate_cons_cons, List.append_assoc, List.singleton_append,
        List.splitOnP_append_cons _ _ rfl, ih (List.cons_ne_nil _ _)]
      rfl

theorem not_mem_intercalate {pieces : List (List Char)} (h : ∀ piece ∈ pieces, '\r' ∉ piece) :
    '\r' ∉ ['\n'].intercalate pieces := by
  induction pieces with
  | nil => exact List.not_mem_nil
  | cons piece pieces ih =>
    obtain ⟨hpiece, hpieces⟩ := List.forall_mem_cons.mp h
    cases pieces with
    | nil => rwa [List.intercalate_singleton]
    | cons piece' pieces =>
      rw [List.intercalate_cons_cons, List.append_assoc, List.mem_append, List.mem_append]
      exact not_or.mpr ⟨hpiece, not_or.mpr ⟨by decide, ih hpieces⟩⟩

/-- **What is read of texts that are joined** is their parts, but for an empty part at the end. -/
theorem lines_join {texts : List String} (h : ∀ text ∈ texts, '\r' ∉ text.toList) :
    texts.flatMap lineParts = lines ("\n".intercalate texts) ∨
      texts.flatMap lineParts = lines ("\n".intercalate texts) ++ [""] := by
  cases texts with
  | nil => exact .inl rfl
  | cons text texts =>
    have hjoined : ("\n".intercalate (text :: texts)).toList =
        ['\n'].intercalate ((text :: texts).map String.toList) := String.toList_intercalate
    have hparts : (text :: texts).flatMap lineParts =
        (("\n".intercalate (text :: texts)).toList.splitOnP isLineEnd).map .ofList := by
      rw [hjoined, splitOnP_intercalate (by simp), List.flatMap_map, List.map_flatMap]
      rfl
    have hfree : '\r' ∉ ("\n".intercalate (text :: texts)).toList := by
      rw [hjoined]
      exact not_mem_intercalate (List.forall_mem_map.mpr h)
    rw [hparts, lines, ← List.splitOnPPrepend_nil_right]
    rcases splitOnP_linesFrom hfree [] with hsplit | hsplit <;> rw [hsplit]
    · exact .inl rfl
    · exact .inr (by rw [List.map_append]; rfl)

end CommandBatch.Text
