import CommandBatch.Proofs.Text.CaseMap

/-!
# Small letters

The lower-case form of a letter depends on its neighbours in one case only: a capital sigma at the end of a word
has a form of its own.  Blanks, bars and question marks are part of no word, so what stands in front of one and
what stands behind it have their lower-case forms on their own, and the character stays (`lowerList_append`).
No other letter becomes such a character (`parts_of_mem_lowerFrom`).
-/

namespace CommandBatch.Text

/-- The character parts words for the rule of the final sigma: a blank, a bar or a question mark. -/
def parts (c : Char) : Bool := isBlank c || c = '|' || c = '?'

/-- The codes of these characters. -/
def partingCodes : List Nat := '|'.toNat :: '?'.toNat :: blankCodes

theorem mem_partingCodes {c : Char} (h : parts c = true) : c.toNat ∈ partingCodes := by
  simp only [parts, Bool.or_eq_true, decide_eq_true_eq] at h
  rcases h with (hblank | rfl) | rfl
  · exact List.mem_cons_of_mem _ (List.mem_cons_of_mem _ (mem_blankCodes hblank))
  · exact List.mem_cons_self ..
  · exact List.mem_cons_of_mem _ (List.mem_cons_self ..)

/-! ### What the tables say of them -/

/-- The letters of lower-case forms.  A code that is no character stands for the character of code zero. -/
def lowered : List Nat := 0 :: 'ς'.toNat :: 'σ'.toNat :: targets lowerRuns lowerSequences

/-- No form has a parting character in it, and no parting character has another form. -/
theorem lowered_apart :
    bits (lowered ++ 'Σ'.toNat :: sources lowerRuns lowerSequences) &&& bits partingCodes = 0 := by
  decide +kernel

theorem parts_eq_false {c : Char} (h : c.toNat ∈ lowered ++ 'Σ'.toNat :: sources lowerRuns lowerSequences) :
    parts c = false := by
  cases hc : parts c with
  | false => rfl
  | true => exact absurd (mem_partingCodes hc) (not_mem_of_bits lowered_apart h)

/-- A parting character is no letter, and no mark inside a word. -/
theorem uncased_of_parts {c : Char} (h : parts c = true) : isCased c = false ∧ isCaseIgnorable c = false := by
  have hcodes : ∀ code ∈ partingCodes, casedRanges.contains code = false ∧
      caseIgnorableRanges.contains code = false := by decide +kernel
  exact hcodes _ (mem_partingCodes h)

/-! ### One letter -/

theorem lowerChar_cases (before : List Char) (c : Char) (after : List Char) :
    lowerChar before c after = [c] ∨
      lowerChar before c after ≠ [] ∧ ∀ d ∈ lowerChar before c after, parts d = false := by
  unfold lowerChar
  split_ifs with hsigma hfinal
  · refine .inr ⟨List.cons_ne_nil _ _, fun d hd => ?_⟩
    rw [List.mem_singleton.mp hd]
    decide
  · refine .inr ⟨List.cons_ne_nil _ _, fun d hd => ?_⟩
    rw [List.mem_singleton.mp hd]
    decide
  · refine (mapCase_cases (by decide +kernel) c).imp_right ?_
    rintro ⟨codes, he, hne, hcodes⟩
    rw [he]
    refine ⟨fun hnil => hne (List.map_eq_nil_iff.mp hnil), fun d hd => ?_⟩
    obtain ⟨code, hcode, rfl⟩ := List.mem_map.mp hd
    refine parts_eq_false (List.mem_append_left _ ?_)
    rcases List.mem_cons.mp (toNat_ofNat_mem (hcodes code hcode)) with hzero | hmem
    · rw [hzero]
      exact List.mem_cons_self ..
    · exact List.mem_cons_of_mem _ (List.mem_cons_of_mem _ (List.mem_cons_of_mem _ hmem))

theorem lowerChar_ne_nil (before : List Char) (c : Char) (after : List Char) :
    lowerChar before c after ≠ [] := by
  rcases lowerChar_cases before c after with hself | ⟨hne, -⟩
  · rw [hself]
    exact List.cons_ne_nil _ _
  · exact hne

theorem parts_of_mem_lowerChar {before after : List Char} {c d : Char} (h : d ∈ lowerChar before c after)
    (hc : parts c = false) : parts d = false := by
  rcases lowerChar_cases before c after with hself | ⟨-, hall⟩
  · rw [hself] at h
    rwa [List.mem_singleton.mp h]
  · exact hall d h

/-- A parting character stays. -/
theorem lowerChar_of_parts {c : Char} (hc : parts c = true) (before after : List Char) :
    lowerChar before c after = [c] := by
  have hapart := not_imp_not.mpr parts_eq_false (by simp [hc] : ¬parts c = false)
  rw [List.mem_append, List.mem_cons, not_or, not_or] at hapart
  obtain ⟨-, hsigma, hsources⟩ := hapart
  rw [lowerChar, if_neg fun he => hsigma (congrArg Char.toNat he), mapCase_of_not_mem hsources]

/-! ### Texts -/

/-- The rule of the final sigma looks no further than to a parting character. -/
theorem meetsCased_append {c : Char} (hc : parts c = true) (xs ys : List Char) :
    meetsCased (xs ++ c :: ys) = meetsCased xs := by
  obtain ⟨hcased, hignorable⟩ := uncased_of_parts hc
  unfold meetsCased
  rw [List.dropWhile_append]
  by_cases hxs : xs.dropWhile isCaseIgnorable = []
  · simp [hxs, hignorable, hcased]
  · obtain ⟨d, ds, hd⟩ := List.exists_cons_of_ne_nil hxs
    simp [hd]

theorem lowerChar_append {b : Char} (hb : parts b = true) (before : List Char) (c : Char) (xs ys : List Char) :
    lowerChar before c (xs ++ b :: ys) = lowerChar before c xs := by
  rw [lowerChar, lowerChar, meetsCased_append hb]

/-- What stands in front of a parting character does not matter behind it. -/
theorem lowerFrom_behind {b : Char} (hb : parts b = true) (before far cs : List Char) :
    lowerFrom (before ++ b :: far) cs = lowerFrom before cs := by
  induction cs generalizing before with
  | nil => rfl
  | cons c cs ih =>
    rw [lowerFrom, lowerFrom, lowerChar, lowerChar, meetsCased_append hb, ← List.cons_append, ih]

theorem lowerFrom_append {b : Char} (hb : parts b = true) (before xs ys : List Char) :
    lowerFrom before (xs ++ b :: ys) = lowerFrom before xs ++ b :: lowerList ys := by
  induction xs generalizing before with
  | nil =>
    show lowerChar before b ys ++ lowerFrom (b :: before) ys = b :: lowerList ys
    rw [lowerChar_of_parts hb]
    exact congrArg (b :: ·) (lowerFrom_behind hb [] before ys)
  | cons x xs ih =>
    rw [List.cons_append, lowerFrom, lowerFrom, lowerChar_append hb, ih, List.append_assoc]

/-- **A parting character parts the lower-case form** of a text. -/
theorem lowerList_append {b : Char} (hb : parts b = true) (xs ys : List Char) :
    lowerList (xs ++ b :: ys) = lowerList xs ++ b :: lowerList ys := lowerFrom_append hb [] xs ys

theorem lowerList_cons {b : Char} (hb : parts b = true) (ys : List Char) :
    lowerList (b :: ys) = b :: lowerList ys := lowerList_append hb [] ys

/-- Parting characters around a text stay around its lower-case form. -/
theorem lowerList_between {left right : List Char} (hleft : ∀ c ∈ left, parts c = true)
    (hright : ∀ c ∈ right, parts c = true) (cs : List Char) :
    lowerList (left ++ cs ++ right) = left ++ lowerList cs ++ right := by
  have hself : ∀ {ds : List Char}, (∀ c ∈ ds, parts c = true) → lowerList ds = ds := by
    intro ds hds
    induction ds with
    | nil => rfl
    | cons d ds ih =>
      obtain ⟨hd, hds⟩ := List.forall_mem_cons.mp hds
      rw [lowerList_cons hd, ih hds]
  have hbehind : ∀ xs, lowerList (xs ++ right) = lowerList xs ++ right := by
    intro xs
    cases right with
    | nil => simp
    | cons b right =>
      obtain ⟨hb, hright⟩ := List.forall_mem_cons.mp hright
      rw [lowerList_append hb, hself hright]
  rw [hbehind]
  congr 1
  induction left with
  | nil => rfl
  | cons b left ih =>
    obtain ⟨hb, hleft⟩ := List.forall_mem_cons.mp hleft
    rw [List.cons_append, lowerList_cons hb, ih hleft, List.cons_append]

theorem lowerFrom_ne_nil {cs : List Char} (h : cs ≠ []) (before : List Char) : lowerFrom before cs ≠ [] := by
  obtain ⟨c, cs, rfl⟩ := List.exists_cons_of_ne_nil h
  exact List.append_ne_nil_of_left_ne_nil (lowerChar_ne_nil before c cs) _

/-- A lower-case form begins with a parting character exactly where the text does. -/
theorem head?_lowerList_eq_some_iff {b : Char} (hb : parts b = true) {cs : List Char} :
    (lowerList cs).head? = some b ↔ cs.head? = some b := by
  cases cs with
  | nil => exact Iff.rfl
  | cons c cs =>
    rw [lowerList, lowerFrom, List.head?_append_of_ne_nil _ (lowerChar_ne_nil [] c cs), List.head?_cons,
      Option.some.injEq]
    constructor
    · intro hhead
      cases hc : parts c with
      | true => rwa [lowerChar_of_parts hc, List.head?_cons, Option.some.injEq] at hhead
      | false => simp [parts_of_mem_lowerChar (List.mem_of_mem_head? hhead) hc] at hb
    · rintro rfl
      rw [lowerChar_of_parts hb, List.head?_cons]

/-- A text of other characters has a lower-case form of other characters. -/
theorem parts_of_mem_lowerFrom {cs : List Char} (h : ∀ c ∈ cs, parts c = false) (before : List Char) :
    ∀ d ∈ lowerFrom before cs, parts d = false := by
  induction cs generalizing before with
  | nil => nofun
  | cons c cs ih =>
    obtain ⟨hc, hcs⟩ := List.forall_mem_cons.mp h
    intro d hd
    rcases List.mem_append.mp hd with hd | hd
    · exact parts_of_mem_lowerChar hd hc
    · exact ih hcs _ d hd

/-- Between parting characters, the lower-case form of a text is that of each piece. -/
theorem lowerList_intercalate {b : Char} (hb : parts b = true) (pieces : List (List Char)) :
    lowerList ([b].intercalate pieces) = [b].intercalate (pieces.map lowerList) := by
  induction pieces with
  | nil => rfl
  | cons piece pieces ih =>
    cases pieces with
    | nil => simp
    | cons next pieces =>
      rw [List.map_cons, List.map_cons, List.intercalate_cons_cons, List.intercalate_cons_cons, List.append_assoc,
        List.singleton_append, lowerList_append hb, ih]
      simp

end CommandBatch.Text
