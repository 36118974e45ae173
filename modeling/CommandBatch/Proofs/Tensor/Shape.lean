import CommandBatch.Tensor.Reader
import CommandBatch.Tensor.Algebra
import Mathlib.Algebra.BigOperators.Group.List.Basic

/-!
# Arrays fill their shapes

An array has as many entries as the product of its extents, and at least one.  That holds of what is read
from nested groups, since siblings have one shape (`length_numbers`), of a row of numbers, and of a product:
each row of the left operand meets each column of each matrix of the right one, and their numbers are the
extents that are left when the two axes that are summed over are taken away (`WellShaped.product`).
-/

namespace CommandBatch

/-! ## Nested groups -/

/-- **Shapes are stacked exactly if they are all the same.**  Without any there is no further axis. -/
theorem stackShapes_eq_some_iff {shapes : List (Option (List Nat))} {shape : List Nat} :
    stackShapes shapes = some shape ↔
      ∃ inner, shape = shapes.length :: inner ∧ (∀ s ∈ shapes, s = some inner) ∧ (shapes = [] → inner = []) := by
  match shapes with
  | [] =>
    constructor
    · intro h
      cases h
      exact ⟨[], rfl, nofun, fun _ => rfl⟩
    · rintro ⟨inner, rfl, -, hinner⟩
      rw [hinner rfl]
      rfl
  | none :: rest =>
    refine ⟨nofun, ?_⟩
    rintro ⟨inner, -, hall, -⟩
    cases hall none (List.mem_cons_self ..)
  | some inner :: rest =>
    by_cases hall : rest.all (· = some inner) = true
    · rw [stackShapes, if_pos hall]
      have hrest : ∀ s ∈ rest, s = some inner := fun s hs => of_decide_eq_true (List.all_eq_true.mp hall s hs)
      constructor
      · intro h
        cases h
        exact ⟨inner, rfl, List.forall_mem_cons.mpr ⟨rfl, hrest⟩, nofun⟩
      · rintro ⟨inner', rfl, hsame, -⟩
        cases hsame _ (List.mem_cons_self ..)
        rfl
    · rw [stackShapes, if_neg hall]
      refine ⟨nofun, ?_⟩
      rintro ⟨inner', -, hsame, -⟩
      obtain ⟨hfirst, hrest⟩ := List.forall_mem_cons.mp hsame
      cases hfirst
      exact absurd (List.all_eq_true.mpr fun s hs => decide_eq_true (hrest s hs)) hall

namespace Nested

theorem length_shapes (items : List Nested) : (shapes items).length = items.length := by
  induction items with
  | nil => rfl
  | cons item items ih => simp [shapes, ih]

mutual

/-- A nested group has as many numbers as its shape asks for. -/
theorem length_numbers {shape : List Nat} :
    (n : Nested) → n.shape? = some shape → n.numbers.length = shape.prod
  | .number x, h => by
    cases h
    rfl
  | .group items, h => by
    obtain ⟨inner, rfl, hinner, -⟩ := stackShapes_eq_some_iff.mp h
    rw [List.prod_cons, length_shapes]
    exact length_numbersAll items hinner

theorem length_numbersAll {inner : List Nat} :
    (items : List Nested) → (∀ s ∈ shapes items, s = some inner) →
      (numbersAll items).length = items.length * inner.prod
  | [], _ => by simp [numbersAll]
  | item :: items, h => by
    obtain ⟨hitem, hitems⟩ := List.forall_mem_cons.mp h
    rw [numbersAll, List.length_append, length_numbers item hitem, length_numbersAll items hitems,
      List.length_cons, Nat.succ_mul, Nat.add_comm]

end

end Nested

namespace Tensor

/-- The entries fill the shape, and there are some. -/
structure Filled (t : Tensor) : Prop where
  full : t.entries.length = t.shape.prod
  nonempty : t.entries ≠ []

/-- An array with at least one axis whose entries fill its shape. -/
structure WellShaped (t : Tensor) : Prop extends t.Filled where
  axes : t.shape ≠ []

/-- **What is read as an array is well-shaped.**  The outermost group gives it an axis. -/
theorem wellShaped_of_read {cs : List Char} {t : Tensor} (h : read? cs = some t) : t.WellShaped := by
  unfold read? at h
  split at h
  · rename_i items _
    obtain ⟨t', ht', hsize⟩ := Option.bind_eq_some_iff.mp h
    split at hsize
    · cases hsize
    · cases hsize
      rename_i hsize
      obtain ⟨shape, hshape, hlimit⟩ := Option.bind_eq_some_iff.mp ht'
      split at hlimit
      · cases hlimit
        obtain ⟨inner, hinner, -⟩ := stackShapes_eq_some_iff.mp hshape
        refine ⟨⟨Nested.length_numbers (.group items) hshape, fun hnil => hsize ?_⟩, ?_⟩
        · exact List.length_eq_zero_iff.mpr hnil
        · exact hinner ▸ List.cons_ne_nil _ _
      · cases hlimit
  · cases h

theorem wellShaped_vector {xs : List Float} (h : xs ≠ []) : (vector xs).WellShaped :=
  ⟨⟨by simp [vector], h⟩, List.cons_ne_nil _ _⟩

theorem Filled.prod_ne_zero {t : Tensor} (h : t.Filled) : t.shape.prod ≠ 0 :=
  h.full ▸ List.length_eq_zero_iff.not.mpr h.nonempty

theorem filled_of_full {t : Tensor} (hfull : t.entries.length = t.shape.prod)
    (hne : t.shape.prod ≠ 0) : t.Filled :=
  ⟨hfull, fun hnil => hne (by rw [← hfull, hnil]; rfl)⟩

/-! ## Products -/

@[simp] theorem length_pieces {α : Type} (length count : Nat) (xs : List α) :
    (pieces length count xs).length = count := by
  induction count generalizing xs with
  | zero => rfl
  | succ count ih => simp [pieces, ih]

@[simp] theorem length_columns (rows count : Nat) (entries : List Float) :
    (columns rows count entries).length = count := by
  simp [columns]

theorem length_scaled (factor : Float) (xs : List Float) : (scaled factor xs).length = xs.length := by
  unfold scaled
  split <;> simp

/-- The last axis of a shape, which the left operand is summed over. -/
theorem exists_last {t : Tensor} (h : t.shape ≠ []) :
    ∃ left k, t.shape = left ++ [k] ∧ t.shape.dropLast = left ∧ extent t.shape (t.rank - 1) = k := by
  obtain ⟨left, k, hshape⟩ := (List.eq_nil_or_concat' t.shape).resolve_left h
  refine ⟨left, k, hshape, ?_⟩
  simp [extent, rank, hshape]

/-- The last but one axis of a shape, or its only one, which the right operand is summed over, with the
axes in front of it and the one behind it, if there is one. -/
theorem exists_lastButOne {t : Tensor} (h : t.shape ≠ []) :
    ∃ rest k last, t.shape = rest ++ k :: last ∧ t.shape.take (t.rank - 2) = rest ∧
      extent t.shape (t.rank - 2) = k ∧ t.shape.drop (max 1 (t.rank - 1)) = last ∧
      (if t.rank < 2 then 1 else extent t.shape (t.rank - 1)) = last.prod := by
  obtain ⟨front, w, hshape⟩ := (List.eq_nil_or_concat' t.shape).resolve_left h
  simp only [rank, hshape]
  rcases List.eq_nil_or_concat' front with rfl | ⟨rest, k, rfl⟩
  · exact ⟨[], w, [], rfl, rfl, rfl, rfl, rfl⟩
  · refine ⟨rest, k, [w], by simp, ?_⟩
    have hrank : ¬rest.length + 2 < 2 := by omega
    simp [extent, hrank]

/-- Every row meets every column of every matrix. -/
theorem length_productEntries {a b : Tensor} {rows matrices k width : Nat} (hk : k ≠ 0)
    (hwidth : width ≠ 0) (hleft : extent a.shape (a.rank - 1) = k)
    (hright : (if b.rank < 2 then 1 else extent b.shape (b.rank - 1)) = width)
    (ha : a.size = rows * k) (hb : b.size = matrices * (k * width)) :
    (productEntries a b).length = rows * (matrices * width) := by
  have hkpos : 0 < k := Nat.pos_of_ne_zero hk
  have hpos : 0 < k * width := Nat.mul_pos hkpos (Nat.pos_of_ne_zero hwidth)
  simp only [productEntries, hleft, hright, ha, hb, Nat.mul_div_cancel _ hkpos,
    Nat.mul_div_cancel _ hpos]
  simp [List.length_flatMap, List.map_const']

/-- A left operand with a single entry scales the right one, whose shape is then that of the product. -/
theorem length_scaled_right {b : Tensor} {rows matrices k width : Nat} (hone : rows * k = 1)
    (hb : b.size = matrices * (k * width)) (factor : Float) :
    (scaled factor b.entries).length = rows * (matrices * width) := by
  have hlength : b.entries.length = matrices * (k * width) := hb
  have hrows : rows = 1 := Nat.eq_one_of_mul_eq_one_right hone
  have hk : k = 1 := Nat.eq_one_of_mul_eq_one_left hone
  rw [length_scaled, hlength, hrows, hk, Nat.one_mul, Nat.one_mul]

/-- So does a right operand with a single entry. -/
theorem length_scaled_left {a : Tensor} {rows matrices k width : Nat}
    (hone : matrices * (k * width) = 1) (ha : a.size = rows * k) (factor : Float) :
    (scaled factor a.entries).length = rows * (matrices * width) := by
  have hlength : a.entries.length = rows * k := ha
  have hmatrices : matrices = 1 := Nat.eq_one_of_mul_eq_one_right hone
  have hfactors : k * width = 1 := Nat.eq_one_of_mul_eq_one_left hone
  have hk : k = 1 := Nat.eq_one_of_mul_eq_one_right hfactors
  have hwidth : width = 1 := Nat.eq_one_of_mul_eq_one_left hfactors
  rw [length_scaled, hlength, hmatrices, hk, hwidth]

/-- **A product fills its shape.** -/
theorem WellShaped.product {a b t : Tensor} (ha : a.WellShaped) (hb : b.WellShaped)
    (h : a.product b = .ok t) : t.Filled := by
  obtain ⟨left, k, hashape, hinit, hk⟩ := exists_last ha.axes
  obtain ⟨rest, m, last, hbshape, htake, hm, hdrop, hwidth⟩ := exists_lastButOne hb.axes
  have hasize : a.size = left.prod * k := by simp [size, ha.full, hashape]
  have hbsize : b.size = rest.prod * (m * last.prod) := by simp [size, hb.full, hbshape]
  have hane : left.prod ≠ 0 ∧ k ≠ 0 := by
    simpa [hashape, Nat.mul_eq_zero, not_or] using ha.prod_ne_zero
  have hbne : rest.prod ≠ 0 ∧ m ≠ 0 ∧ last.prod ≠ 0 := by
    simpa [hbshape, Nat.mul_eq_zero, not_or] using hb.prod_ne_zero
  unfold Tensor.product at h
  simp only [hk, hm, hinit, htake, hdrop] at h
  by_cases haligned : k = m
  · subst haligned
    rw [if_neg (not_not.mpr rfl)] at h
    split at h
    · cases h
    · cases h
      have hprod : (left ++ rest ++ last).prod = left.prod * (rest.prod * last.prod) := by
        simp
      refine filled_of_full ?_ (hprod ▸ Nat.mul_ne_zero hane.1 (Nat.mul_ne_zero hbne.1 hbne.2.2))
      show List.length (ite _ _ _) = (left ++ rest ++ last).prod
      rw [hprod]
      by_cases ha₁ : a.rank ≤ 2 ∧ b.rank ≤ 2 ∧ a.size = 1
      · rw [if_pos ha₁]
        exact length_scaled_right (hasize.symm.trans ha₁.2.2) hbsize _
      by_cases hb₁ : a.rank ≤ 2 ∧ b.rank ≤ 2 ∧ b.size = 1
      · rw [if_neg ha₁, if_pos hb₁]
        exact length_scaled_left (hbsize.symm.trans hb₁.2.2) hasize _
      · rw [if_neg ha₁, if_neg hb₁]
        exact length_productEntries hane.2 hbne.2.2 hk hwidth hasize hbsize
  · rw [if_pos haligned] at h
    cases h

end Tensor

end CommandBatch
