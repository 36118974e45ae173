import CommandBatch.Proofs.Text.CaseMap

/-!
# Capitals

What the full mapping to upper case leads to: letters that are their own upper-case form, and never
a blank or the mark of a comment (`capitals_apart`).  It follows that a text in upper case stays as it
is (`upperList_upperList`).
-/

namespace CommandBatch.Text

/-! ### The letters of the tables -/

/-- The letters with another upper-case form. -/
def smallLetters : List Nat :=
  upperRuns.flatMap CaseRun.codes ++ upperSequences.map (·.1)

/-- The letters of these forms. -/
def capitals : List Nat :=
  (upperRuns.flatMap fun run => run.codes.map fun code : Nat => (code + run.shift).toNat) ++
    upperSequences.flatMap (·.2)

/-- A letter is its own upper-case form, or the form consists of capitals. -/
theorem upperChar_cases (c : Char) :
    upperChar c = [c] ∨
      ∃ codes, upperChar c = codes.map Char.ofNat ∧ codes ≠ [] ∧ ∀ code ∈ codes, code ∈ capitals :=
  mapCase_cases (by decide +kernel) c

/-! ### What the forms consist of -/

/-- No capital has another upper-case form, is blank or begins a comment.  A code that is no
character stands for the character of code zero. -/
theorem capitals_apart :
    bits (0 :: capitals) &&& bits ('#'.toNat :: (smallLetters ++ blankCodes)) = 0 := by
  decide +kernel

/-- The letter is its own upper-case form, and neither a blank nor the mark of a comment. -/
structure IsCapital (c : Char) : Prop where
  upper : upperChar c = [c]
  notBlank : isBlank c = false
  noComment : c ≠ '#'

theorem isCapital_of_mem {code : Nat} (h : code ∈ capitals) : IsCapital (Char.ofNat code) := by
  have hapart := not_mem_of_bits capitals_apart (toNat_ofNat_mem h)
  rw [List.mem_cons, List.mem_append, not_or, not_or] at hapart
  obtain ⟨hcomment, hsmall, hblank⟩ := hapart
  refine ⟨mapCase_of_not_mem hsmall, ?_, ?_⟩
  · cases hb : isBlank (Char.ofNat code) with
    | false => rfl
    | true => exact absurd (mem_blankCodes hb) hblank
  · intro he
    exact hcomment (congrArg Char.toNat he)

/-- Every letter of an upper-case form is a capital, or the letter itself where it has no other
form. -/
theorem mem_upperChar {c d : Char} (h : d ∈ upperChar c) :
    (d = c ∧ upperChar d = [d]) ∨ IsCapital d := by
  rcases upperChar_cases c with hself | ⟨codes, hcodes, -, hmem⟩
  · rw [hself] at h
    obtain rfl := List.mem_singleton.mp h
    exact Or.inl ⟨rfl, hself⟩
  · rw [hcodes] at h
    obtain ⟨code, hcode, rfl⟩ := List.mem_map.mp h
    exact Or.inr (isCapital_of_mem (hmem code hcode))

theorem upperChar_ne_nil (c : Char) : upperChar c ≠ [] := by
  rcases upperChar_cases c with hself | ⟨codes, hcodes, hne, -⟩
  · rw [hself]
    exact List.cons_ne_nil c []
  · rw [hcodes]
    intro he
    exact hne (List.map_eq_nil_iff.mp he)

theorem upperList_ne_nil {cs : List Char} (h : cs ≠ []) : upperList cs ≠ [] := by
  obtain ⟨c, cs, rfl⟩ := List.exists_cons_of_ne_nil h
  rw [upperList_cons]
  exact List.append_ne_nil_of_left_ne_nil (upperChar_ne_nil c) _

/-- A property of the capitals that a text has in each of its letters stays in upper case. -/
theorem forall_mem_upperList {p : Char → Prop} {cs : List Char} (hp : ∀ c, IsCapital c → p c)
    (h : ∀ c ∈ cs, p c) : ∀ c ∈ upperList cs, p c := by
  intro d hd
  obtain ⟨c, hc, hd⟩ := List.mem_flatMap.mp hd
  rcases mem_upperChar hd with ⟨rfl, -⟩ | hcapital
  · exact h d hc
  · exact hp d hcapital

theorem mem_head?_upperList {c d : Char} {cs : List Char} (h : d ∈ (upperList (c :: cs)).head?) :
    d ∈ upperChar c := by
  rw [upperList_cons, List.head?_append_of_ne_nil _ (upperChar_ne_nil c)] at h
  exact List.mem_of_mem_head? h

theorem mem_getLast?_upperList {c d : Char} {cs : List Char}
    (h : d ∈ (upperList (cs ++ [c])).getLast?) : d ∈ upperChar c := by
  rw [upperList_append, upperList_cons, upperList_nil, List.append_nil,
    List.getLast?_append_of_ne_nil _ (upperChar_ne_nil c)] at h
  exact List.mem_of_getLast? h

/-- **A text in upper case is its own upper-case form.** -/
theorem upperList_upperList (cs : List Char) : upperList (upperList cs) = upperList cs := by
  have hself : ∀ d ∈ upperList cs, upperChar d = [d] := by
    intro d hd
    obtain ⟨c, -, hd⟩ := List.mem_flatMap.mp hd
    rcases mem_upperChar hd with ⟨-, hd⟩ | hcapital
    · exact hd
    · exact hcapital.upper
  generalize upperList cs = ds at hself
  induction ds with
  | nil => rfl
  | cons d ds ih =>
    obtain ⟨hd, hds⟩ := List.forall_mem_cons.mp hself
    rw [upperList_cons, hd, ih hds]
    rfl

@[simp] theorem upper_upper (s : String) : upper (upper s) = upper s := by
  rw [upper, toList_upper, upperList_upperList]
  rfl

end CommandBatch.Text
