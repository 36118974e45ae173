import CommandBatch.Text.Blank
import Mathlib.Data.List.DropRight
import Mathlib.Data.List.TakeWhile

/-!
# Texts without margins

A text has no margins when neither its first character nor its last is blank.  Trimming leaves
exactly these texts alone, and what is trimmed off a text that begins without a margin depends on
its last part only.
-/

namespace CommandBatch.Text

theorem dropWhile_isBlank_eq_self_iff {cs : List Char} :
    cs.dropWhile isBlank = cs ↔ ∀ c ∈ cs.head?, isBlank c = false := by
  cases cs with
  | nil => simp
  | cons c cs =>
    rw [List.dropWhile_eq_self_iff]
    simp

theorem trimRight_eq_self_iff {cs : List Char} :
    trimRight cs = cs ↔ ∀ c ∈ cs.getLast?, isBlank c = false := by
  change cs.rdropWhile isBlank = cs ↔ _
  rw [List.rdropWhile_eq_self_iff]
  constructor
  · intro h c hc
    obtain ⟨hne, rfl⟩ := List.mem_getLast?_eq_getLast hc
    simpa using h hne
  · intro h hne
    simp [h _ (List.getLast_mem_getLast? hne)]

theorem trimRight_initial (cs : List Char) : trimRight cs <+: cs :=
  List.rdropWhile_prefix isBlank cs

/-- Trimming leaves a text alone exactly when neither end of it is blank. -/
theorem trim_eq_self_iff {cs : List Char} :
    trim cs = cs ↔
      (∀ c ∈ cs.head?, isBlank c = false) ∧ ∀ c ∈ cs.getLast?, isBlank c = false := by
  rw [← dropWhile_isBlank_eq_self_iff, ← trimRight_eq_self_iff]
  constructor
  · intro h
    have hdrop : cs.dropWhile isBlank = cs := by
      refine (List.dropWhile_suffix isBlank).eq_of_length_le ?_
      calc cs.length = (trim cs).length := by rw [h]
        _ ≤ (cs.dropWhile isBlank).length := (trimRight_initial _).length_le
    refine ⟨hdrop, ?_⟩
    rw [trim, hdrop] at h
    exact h
  · rintro ⟨hdrop, hright⟩
    rw [trim, hdrop, hright]

theorem trim_eq_self_of_forall {cs : List Char} (h : ∀ c ∈ cs, isBlank c = false) : trim cs = cs :=
  trim_eq_self_iff.mpr
    ⟨fun c hc => h c (List.mem_of_mem_head? hc), fun c hc => h c (List.mem_of_getLast? hc)⟩

theorem strip_ofList {cs : List Char} (h : trim cs = cs) : strip (.ofList cs) = .ofList cs := by
  rw [strip, String.toList_ofList, h]

theorem trimRight_append (xs ys : List Char) :
    trimRight (xs ++ ys) = if trimRight ys = [] then trimRight xs else xs ++ trimRight ys := by
  unfold trimRight
  rw [List.reverse_append, List.dropWhile_append]
  by_cases h : ys.reverse.dropWhile isBlank = []
  · simp [h]
  · simp [h]

theorem trimRight_trimRight (cs : List Char) : trimRight (trimRight cs) = trimRight cs :=
  List.rdropWhile_idempotent isBlank cs

/-- Behind a character that is not blank, only the right margin is trimmed. -/
theorem trim_cons {c : Char} (h : isBlank c = false) (cs : List Char) :
    trim (c :: cs) = c :: trimRight cs := by
  have hsingle : trimRight [c] = [c] := by simp [trimRight, h]
  rw [trim, List.dropWhile_cons_of_neg (by simp [h]), ← List.singleton_append, trimRight_append]
  by_cases hcs : trimRight cs = []
  · rw [if_pos hcs, hcs, hsingle]
  · rw [if_neg hcs, List.singleton_append]

@[simp] theorem trim_trim (cs : List Char) : trim (trim cs) = trim cs := by
  cases hdrop : cs.dropWhile isBlank with
  | nil =>
    have htrim : trim cs = [] := by rw [trim, hdrop]; rfl
    rw [htrim, trim_nil]
  | cons c ds =>
    have hc : isBlank c = false := by
      simpa [hdrop] using List.head_dropWhile_not isBlank (l := cs) (by simp [hdrop])
    have htrim : trim cs = c :: trimRight ds := by
      rw [trim, hdrop, ← trim_cons hc, trim, List.dropWhile_cons_of_neg (by simp [hc])]
    rw [htrim, trim_cons hc, trimRight_trimRight]

@[simp] theorem strip_strip (s : String) : strip (strip s) = strip s := by
  rw [strip, toList_strip, trim_trim]
  rfl

/-- Blanks around a text are trimmed with its own margins. -/
theorem trim_between {left right : List Char} (hleft : ∀ c ∈ left, isBlank c = true)
    (hright : ∀ c ∈ right, isBlank c = true) (cs : List Char) : trim (left ++ cs ++ right) = trim cs := by
  have hend : trimRight right = [] := by simpa [trimRight] using hright
  rw [trim, List.append_assoc, List.dropWhile_append_of_pos hleft, List.dropWhile_append, trim]
  split
  · rename_i hcs
    rw [List.dropWhile_eq_nil_iff.mpr hright, List.isEmpty_iff.mp hcs]
  · rw [trimRight_append, if_pos hend]

/-- Behind a text without margins and a blank, only the right margin of the rest is trimmed, and the
blank with it if nothing is left of the rest. -/
theorem trim_append_cons {a b : List Char} {c : Char} (ha : trim a = a) (hne : a ≠ [])
    (hc : isBlank c = true) :
    trim (a ++ c :: b) = if trimRight b = [] then a else a ++ c :: trimRight b := by
  obtain ⟨hhead, hlast⟩ := trim_eq_self_iff.mp ha
  have hdrop : (a ++ c :: b).dropWhile isBlank = a ++ c :: b := by
    refine dropWhile_isBlank_eq_self_iff.mpr ?_
    rwa [List.head?_append_of_ne_nil _ hne]
  have hblank : trimRight [c] = [] := by simp [trimRight, hc]
  rw [trim, hdrop, trimRight_append, ← List.singleton_append, trimRight_append, hblank]
  by_cases hb : trimRight b = []
  · simp [hb, trimRight_eq_self_iff.mpr hlast]
  · simp [hb]

end CommandBatch.Text
