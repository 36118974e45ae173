/-!
# Outcomes of steps that may fail

When a step fails, what follows it is left out.  So a sequence of steps succeeds exactly when each
of them does, and it fails at its first failure.  A walk over a list that fails does so at an element.
-/

namespace CommandBatch

variable {α β ε : Type} {x : Except ε α} {e : ε}

theorem bind_eq_ok_iff {f : α → Except ε β} {b : β} :
    x.bind f = .ok b ↔ ∃ a, x = .ok a ∧ f a = .ok b := by
  cases x <;> simp [Except.bind]

theorem bind_eq_error_iff {f : α → Except ε β} :
    x.bind f = .error e ↔ x = .error e ∨ ∃ a, x = .ok a ∧ f a = .error e := by
  cases x <;> simp [Except.bind]

theorem map_eq_ok_iff {f : α → β} {b : β} : x.map f = .ok b ↔ ∃ a, x = .ok a ∧ f a = b := by
  cases x <;> simp [Except.map]

theorem map_eq_error_iff {f : α → β} : x.map f = .error e ↔ x = .error e := by
  cases x <;> simp [Except.map]

theorem exists_of_mapM_error {f : α → Except ε β} {xs : List α} (h : xs.mapM f = .error e) :
    ∃ a ∈ xs, f a = .error e := by
  induction xs with
  | nil => cases h
  | cons a xs ih =>
    rw [List.mapM_cons] at h
    rcases bind_eq_error_iff.mp h with ha | ⟨b, -, hrest⟩
    · exact ⟨a, List.mem_cons_self .., ha⟩
    · rcases bind_eq_error_iff.mp hrest with hxs | ⟨bs, -, hpure⟩
      · obtain ⟨a', hmem, ha'⟩ := ih hxs
        exact ⟨a', List.mem_cons_of_mem _ hmem, ha'⟩
      · cases hpure

theorem exists_of_mem_mapM {f : α → Except ε β} {xs : List α} {ys : List β} {y : β} (h : xs.mapM f = .ok ys)
    (hy : y ∈ ys) : ∃ a ∈ xs, f a = .ok y := by
  induction xs generalizing ys with
  | nil =>
    cases h
    cases hy
  | cons a xs ih =>
    rw [List.mapM_cons] at h
    obtain ⟨b, ha, hrest⟩ := bind_eq_ok_iff.mp h
    obtain ⟨bs, hxs, hpure⟩ := bind_eq_ok_iff.mp hrest
    cases hpure
    rcases List.mem_cons.mp hy with rfl | hy
    · exact ⟨a, List.mem_cons_self .., ha⟩
    · obtain ⟨a', hmem, ha'⟩ := ih hxs hy
      exact ⟨a', List.mem_cons_of_mem _ hmem, ha'⟩

theorem exists_of_foldlM_error {f : β → α → Except ε β} {xs : List α} {b : β} (h : xs.foldlM f b = .error e) :
    ∃ a ∈ xs, ∃ b, f b a = .error e := by
  induction xs generalizing b with
  | nil => cases h
  | cons a xs ih =>
    rw [List.foldlM_cons] at h
    rcases bind_eq_error_iff.mp h with ha | ⟨b', -, hrest⟩
    · exact ⟨a, List.mem_cons_self .., b, ha⟩
    · obtain ⟨a', hmem, ha'⟩ := ih hrest
      exact ⟨a', List.mem_cons_of_mem _ hmem, ha'⟩

end CommandBatch
