import Mathlib.Data.List.Induction
import Mathlib.Data.List.Sort
import Mathlib.Data.List.TakeWhile
import Mathlib.Data.Prod.Lex

/-!
# Lists kept in a stable order

A registry that puts each new entry in front of the first entry of a greater rank holds its entries in
the order of the stable sort by rank (`place_sorted`).  To see this, each entry is given the time at which
it came: the entries with their times are strictly increasing in rank and time, and there is only one such
order of them.  So the first entry of the registry with some property is the one that is least in rank and
time (`isFirst_iff`).
-/

namespace CommandBatch.StableOrder

variable {α ρ : Type} [LinearOrder ρ] (rank : α → ρ)

/-- The list with an entry in front of the first that has a greater rank. -/
def place (a : α) (l : List α) : List α :=
  l.takeWhile (rank · ≤ rank a) ++ a :: l.dropWhile (rank · ≤ rank a)

/-- The stable sort of entries by their rank. -/
def sorted (l : List α) : List α := l.mergeSort (rank · ≤ rank ·)

/-- The rank of an entry, and the time at which it came. -/
def key (e : α × Nat) : ρ ×ₗ Nat := toLex (rank e.1, e.2)

/-- The stable sort of entries together with the times at which they came. -/
def timed (l : List α) : List (α × Nat) :=
  l.zipIdx.mergeSort (List.zipIdxLE (rank · ≤ rank ·))

variable {rank} {l : List α}

/-! ### The stable sort, with times -/

theorem key_le_iff {e e' : α × Nat} :
    key rank e ≤ key rank e' ↔ List.zipIdxLE (rank · ≤ rank ·) e e' = true := by
  rw [key, key, Prod.Lex.toLex_le_toLex, List.zipIdxLE]
  rcases lt_trichotomy (rank e.1) (rank e'.1) with h | h | h
  · simp [h, h.le, h.not_ge]
  · simp [h]
  · simp [h.not_ge, h.not_gt, h.ne']

theorem map_timed (l : List α) : (timed rank l).map Prod.fst = sorted rank l :=
  List.mergeSort_zipIdx

theorem timed_perm (l : List α) : (timed rank l).Perm l.zipIdx :=
  List.mergeSort_perm ..

/-- An entry stands in the sorted list with the time at which it came. -/
theorem mem_timed {e : α × Nat} : e ∈ timed rank l ↔ l[e.2]? = some e.1 := by
  rw [(timed_perm l).mem_iff, List.mem_zipIdx_iff_getElem?]

theorem mem_sorted {a : α} : a ∈ sorted rank l ↔ a ∈ l :=
  List.mem_mergeSort

theorem sorted_pairwise (l : List α) : (sorted rank l).Pairwise (rank · ≤ rank ·) := by
  have h : (sorted rank l).Pairwise (decide <| rank · ≤ rank ·) := List.pairwise_mergeSort
    (fun a b c hab hbc => by simpa using le_trans (by simpa using hab) (by simpa using hbc))
    (fun a b => by simpa using le_total (rank a) (rank b)) l
  exact h.imp (by simp)

/-- No two entries came at the same time, so that their keys differ. -/
theorem timed_pairwise (l : List α) : (timed rank l).Pairwise (key rank · < key rank ·) := by
  have hle : (timed rank l).Pairwise (key rank · ≤ key rank ·) := by
    have h : (timed rank l).Pairwise (List.zipIdxLE (rank · ≤ rank ·) · ·) := List.pairwise_mergeSort
      (fun a b c hab hbc => key_le_iff.mp ((key_le_iff.mpr hab).trans (key_le_iff.mpr hbc)))
      (fun a b => by simpa [← key_le_iff] using le_total (key rank a) (key rank b)) l.zipIdx
    exact h.imp key_le_iff.mpr
  have htimes : ((timed rank l).map Prod.snd).Nodup := by
    rw [((timed_perm l).map Prod.snd).nodup_iff, List.zipIdx_map_snd]
    exact List.nodup_range'
  refine (hle.and (List.pairwise_map.mp htimes)).imp ?_
  rintro e e' ⟨hkey, htime⟩
  exact lt_of_le_of_ne hkey fun h => htime (Prod.mk.inj (toLex_inj.mp h)).2

/-! ### Placing an entry -/

theorem place_perm (a : α) (l : List α) : (place rank a l).Perm (a :: l) := by
  have h : (place rank a l).Perm (a :: (l.takeWhile (rank · ≤ rank a) ++ l.dropWhile (rank · ≤ rank a))) :=
    List.perm_middle
  rwa [List.takeWhile_append_dropWhile] at h

/-- Behind the place of a new entry there are only entries of a greater rank. -/
theorem lt_of_mem_dropWhile {r : ρ} (hsorted : l.Pairwise (rank · ≤ rank ·)) {b : α}
    (hb : b ∈ l.dropWhile (rank · ≤ r)) : r < rank b := by
  induction l with
  | nil => cases hb
  | cons a l ih =>
    obtain ⟨hfirst, hrest⟩ := List.pairwise_cons.mp hsorted
    by_cases ha : rank a ≤ r
    · exact ih hrest (by simpa [ha] using hb)
    · have hb : b = a ∨ b ∈ l := by simpa [ha] using hb
      rcases hb with rfl | hb
      · exact not_le.mp ha
      · exact (not_le.mp ha).trans_le (hfirst b hb)

/-- An entry that comes later than all others is put where its rank and its time belong. -/
theorem place_pairwise {a : α} {time : Nat} {es : List (α × Nat)}
    (hes : es.Pairwise (key rank · < key rank ·)) (hlate : ∀ e ∈ es, e.2 < time) :
    (place (rank ∘ Prod.fst) (a, time) es).Pairwise (key rank · < key rank ·) := by
  have hranks : es.Pairwise ((rank ∘ Prod.fst) · ≤ (rank ∘ Prod.fst) ·) := by
    refine hes.imp ?_
    intro e e' h
    rcases Prod.Lex.toLex_lt_toLex.mp h with h | ⟨h, -⟩
    · exact h.le
    · exact h.le
  have hbefore : ∀ e ∈ es.takeWhile ((rank ∘ Prod.fst) · ≤ rank a), key rank e < key rank (a, time) := by
    intro e he
    have hle : rank e.1 ≤ rank a := by simpa using List.mem_takeWhile_imp he
    have htime : e.2 < time := hlate e ((List.takeWhile_sublist _).subset he)
    rcases hle.lt_or_eq with hlt | heq
    · exact Prod.Lex.toLex_lt_toLex.mpr (.inl hlt)
    · exact Prod.Lex.toLex_lt_toLex.mpr (.inr ⟨heq, htime⟩)
  have hafter : ∀ e ∈ es.dropWhile ((rank ∘ Prod.fst) · ≤ rank a), key rank (a, time) < key rank e :=
    fun e he => Prod.Lex.toLex_lt_toLex.mpr (.inl (lt_of_mem_dropWhile hranks he))
  rw [← List.takeWhile_append_dropWhile (p := ((rank ∘ Prod.fst) · ≤ rank a)) (l := es),
    List.pairwise_append] at hes
  obtain ⟨hinit, htail, hcross⟩ := hes
  refine List.pairwise_append.mpr ⟨hinit, List.pairwise_cons.mpr ⟨hafter, htail⟩, ?_⟩
  intro e he e' he'
  rcases List.mem_cons.mp he' with rfl | he'
  · exact hbefore e he
  · exact hcross e he e' he'

theorem map_place (e : α × Nat) (es : List (α × Nat)) :
    (place (rank ∘ Prod.fst) e es).map Prod.fst = place rank e.1 (es.map Prod.fst) := by
  simp [place, List.takeWhile_map, List.dropWhile_map, Function.comp_def]

/-- **Placing a new entry in a sorted list** gives the stable sort with this entry at the end. -/
theorem place_sorted (a : α) (l : List α) :
    place rank a (sorted rank l) = sorted rank (l ++ [a]) := by
  have hlate : ∀ e ∈ timed rank l, e.2 < l.length := fun e he =>
    (List.getElem?_eq_some_iff.mp (mem_timed.mp he)).1
  have hperm : (place (rank ∘ Prod.fst) (a, l.length) (timed rank l)).Perm (timed rank (l ++ [a])) := by
    refine (place_perm _ _).trans (((timed_perm l).cons _).trans ?_)
    refine List.Perm.trans ?_ (timed_perm _).symm
    rw [List.zipIdx_append]
    simpa using (List.perm_append_singleton (a, l.length) l.zipIdx).symm
  have htimed : place (rank ∘ Prod.fst) (a, l.length) (timed rank l) = timed rank (l ++ [a]) :=
    hperm.eq_of_pairwise (fun e e' _ _ h h' => absurd h h'.asymm)
      (place_pairwise (timed_pairwise l) hlate) (timed_pairwise _)
  calc place rank a (sorted rank l)
      = place rank a ((timed rank l).map Prod.fst) := by rw [map_timed]
    _ = (timed rank (l ++ [a])).map Prod.fst := by rw [← htimed, map_place]
    _ = sorted rank (l ++ [a]) := map_timed _

/-! ### Some of the entries -/

/-- In a sorted list the entries up to some rank come first. -/
theorem filter_le_eq_takeWhile {r : ρ} (hsorted : l.Pairwise (rank · ≤ rank ·)) :
    l.filter (rank · ≤ r) = l.takeWhile (rank · ≤ r) := by
  have hbefore : (l.takeWhile (rank · ≤ r)).filter (rank · ≤ r) = l.takeWhile (rank · ≤ r) := by
    apply List.filter_eq_self.mpr
    intro b hb
    simpa using List.mem_takeWhile_imp hb
  have hbehind : (l.dropWhile (rank · ≤ r)).filter (rank · ≤ r) = [] := by
    apply List.filter_eq_nil_iff.mpr
    intro b hb
    simpa using lt_of_mem_dropWhile hsorted hb
  conv_lhs => rw [← List.takeWhile_append_dropWhile (p := (rank · ≤ r)) (l := l)]
  rw [List.filter_append, hbefore, hbehind, List.append_nil]

theorem filter_lt_eq_dropWhile {r : ρ} (hsorted : l.Pairwise (rank · ≤ rank ·)) :
    l.filter (r < rank ·) = l.dropWhile (rank · ≤ r) := by
  have hbefore : (l.takeWhile (rank · ≤ r)).filter (r < rank ·) = [] := by
    apply List.filter_eq_nil_iff.mpr
    intro b hb
    simpa using List.mem_takeWhile_imp hb
  have hbehind : (l.dropWhile (rank · ≤ r)).filter (r < rank ·) = l.dropWhile (rank · ≤ r) := by
    apply List.filter_eq_self.mpr
    intro b hb
    exact decide_eq_true (lt_of_mem_dropWhile hsorted hb)
  conv_lhs => rw [← List.takeWhile_append_dropWhile (p := (rank · ≤ r)) (l := l)]
  rw [List.filter_append, hbefore, hbehind, List.nil_append]

theorem place_eq_filter (a : α) (hsorted : l.Pairwise (rank · ≤ rank ·)) :
    place rank a l = l.filter (rank · ≤ rank a) ++ a :: l.filter (rank a < rank ·) := by
  rw [place, filter_le_eq_takeWhile hsorted, filter_lt_eq_dropWhile hsorted]

/-- Entries that are left out of a sorted list have no part in where a new one is placed. -/
theorem filter_place (q : α → Bool) (a : α) (hsorted : l.Pairwise (rank · ≤ rank ·)) :
    (place rank a l).filter q = if q a then place rank a (l.filter q) else l.filter q := by
  have hrest : (l.filter q).Pairwise (rank · ≤ rank ·) := hsorted.filter q
  rw [place_eq_filter a hsorted, List.filter_append, List.filter_comm, List.filter_cons]
  by_cases hq : q a = true
  · rw [if_pos hq, if_pos hq, place_eq_filter a hrest, List.filter_comm q]
  · rw [if_neg hq, if_neg hq, List.filter_comm q, filter_le_eq_takeWhile hrest, filter_lt_eq_dropWhile hrest,
      List.takeWhile_append_dropWhile]

/-- **The stable sort of some of the entries** is what it leaves of the stable sort of all. -/
theorem filter_sorted (q : α → Bool) (l : List α) : (sorted rank l).filter q = sorted rank (l.filter q) := by
  induction l using List.reverseRecOn with
  | nil => simp [sorted]
  | append_singleton l a ih =>
    rw [← place_sorted, filter_place q a (sorted_pairwise l), ih, List.filter_append]
    by_cases hq : q a = true
    · have hlast : [a].filter q = [a] := List.filter_cons_of_pos hq
      rw [if_pos hq, place_sorted, hlast]
    · have hlast : [a].filter q = [] := List.filter_cons_of_neg hq
      rw [if_neg hq, hlast, List.append_nil]

/-! ### The first entry with a property -/

variable {p : α → Prop} {time : Nat} {a : α}

variable (rank) in
/-- Of all entries with the property, `a`, which came at `time`, is the least in rank and time. -/
structure IsFirst (l : List α) (p : α → Prop) (time : Nat) (a : α) : Prop where
  came : l[time]? = some a
  holds : p a
  least : ∀ time' a', l[time']? = some a' → p a' → key rank (a, time) ≤ key rank (a', time')

theorem IsFirst.congr {q : α → Prop} (h : IsFirst rank l p time a) (hpq : ∀ a ∈ l, p a ↔ q a) :
    IsFirst rank l q time a where
  came := h.came
  holds := (hpq a (List.mem_of_getElem? h.came)).mp h.holds
  least time' a' ha' hq := h.least time' a' ha' ((hpq a' (List.mem_of_getElem? ha')).mpr hq)

theorem isFirst_iff :
    IsFirst rank l p time a ↔ p a ∧
      ∃ before after, timed rank l = before ++ (a, time) :: after ∧ ∀ e ∈ before, ¬p e.1 := by
  constructor
  · rintro ⟨hcame, hholds, hleast⟩
    have hmem : (a, time) ∈ timed rank l := mem_timed.mpr hcame
    obtain ⟨before, after, he⟩ := List.append_of_mem hmem
    refine ⟨hholds, before, after, he, ?_⟩
    intro e hbefore hp
    have hmem : e ∈ timed rank l := by rw [he]; simp [hbefore]
    have hpairwise : (timed rank l).Pairwise (key rank · < key rank ·) := timed_pairwise l
    rw [he, List.pairwise_append] at hpairwise
    have hlt := hpairwise.2.2 e hbefore (a, time) (List.mem_cons_self ..)
    exact absurd hlt (hleast e.2 e.1 (mem_timed.mp hmem) hp).not_gt
  · rintro ⟨hholds, before, after, he, hbefore⟩
    have hcame : (a, time) ∈ timed rank l := by simp [he]
    refine ⟨mem_timed.mp hcame, hholds, ?_⟩
    intro time' a' hcame hp
    have hmem : (a', time') ∈ timed rank l := mem_timed.mpr hcame
    have hpairwise : (timed rank l).Pairwise (key rank · < key rank ·) := timed_pairwise l
    rw [he] at hmem hpairwise
    obtain ⟨-, hpairwise, -⟩ := List.pairwise_append.mp hpairwise
    rcases List.mem_append.mp hmem with hmem | hmem
    · exact absurd hp (hbefore _ hmem)
    · rcases List.mem_cons.mp hmem with hself | hmem
      · rw [hself]
      · exact ((List.pairwise_cons.mp hpairwise).1 _ hmem).le

theorem exists_isFirst (h : ∃ a ∈ l, p a) : ∃ time a, IsFirst rank l p time a := by
  classical
  obtain ⟨a, ha, hp⟩ := h
  obtain ⟨time, htime⟩ := List.mem_iff_getElem?.mp ha
  cases hfind : (timed rank l).find? (p ·.1) with
  | none =>
    have hnot := List.find?_eq_none.mp hfind (a, time) (mem_timed.mpr htime)
    exact absurd hp (by simpa using hnot)
  | some e =>
    obtain ⟨hholds, before, after, he, hbefore⟩ := List.find?_eq_some_iff_append.mp hfind
    exact ⟨e.2, e.1, isFirst_iff.mpr ⟨by simpa using hholds, before, after, he,
      fun e' he' => by simpa using hbefore e' he'⟩⟩

end CommandBatch.StableOrder
