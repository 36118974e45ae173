import CommandBatch.OrderedMap
import Mathlib.Data.List.Nodup

/-!
# Finite maps in the order of insertion

What a map that remembers the order of insertion should be, apart from how it is kept: its keys, each once, in
the order in which they were inserted, and a value for each of them and for no other key (`FiniteMap`).  A key
that is inserted again stays in its place, and one that was removed goes to the end.  The map that is kept as a
list of pairs represents such a map (`OrderedMap.Represents`): its keys are these keys in this order, and what it
finds under a key is the value.  Setting and erasing are inserting and removing (`Represents.set`,
`Represents.erase`).
-/

namespace CommandBatch

variable {α β : Type}

/-- The keys of a finite map in the order of their insertion, and the values under them. -/
structure FiniteMap (α : Type) where
  order : List String
  value : String → Option α
  /-- No key stands in two places. -/
  nodup : order.Nodup
  /-- The keys are those with a value. -/
  mem_order : ∀ key, key ∈ order ↔ (value key).isSome = true

namespace FiniteMap

/-- The map without keys. -/
def empty : FiniteMap α where
  order := []
  value _ := none
  nodup := List.nodup_nil
  mem_order _ := by simp

/-- The map with a value under a key.  A key that is not there yet comes last. -/
def insert (m : FiniteMap α) (key : String) (a : α) : FiniteMap α where
  order := if key ∈ m.order then m.order else m.order ++ [key]
  value other := if other = key then some a else m.value other
  nodup := by
    split
    · exact m.nodup
    · next h => exact List.nodup_append.mpr ⟨m.nodup, List.nodup_singleton key, by
        intro other hother last hlast heq
        rw [List.mem_singleton.mp hlast] at heq
        exact h (heq ▸ hother)⟩
  mem_order other := by
    by_cases hkey : other = key
    · subst hkey
      by_cases h : other ∈ m.order <;> simp [h]
    · rw [if_neg hkey, ← m.mem_order other]
      by_cases h : key ∈ m.order <;> simp [h, hkey]

/-- The map without a value under a key. -/
def remove (m : FiniteMap α) (key : String) : FiniteMap α where
  order := m.order.erase key
  value other := if other = key then none else m.value other
  nodup := m.nodup.erase key
  mem_order other := by
    rw [m.nodup.mem_erase_iff, m.mem_order other]
    by_cases hkey : other = key <;> simp [hkey]

variable {m : FiniteMap α} {key : String} {a b : α}

@[simp] theorem value_insert (m : FiniteMap α) (key other : String) (a : α) :
    (m.insert key a).value other = if other = key then some a else m.value other := rfl

@[simp] theorem value_remove (m : FiniteMap α) (key other : String) :
    (m.remove key).value other = if other = key then none else m.value other := rfl

theorem order_insert_of_mem (h : key ∈ m.order) : (m.insert key a).order = m.order := if_pos h

theorem order_insert_of_not_mem (h : key ∉ m.order) : (m.insert key a).order = m.order ++ [key] := if_neg h

/-- A key that was removed comes last when it is inserted again. -/
theorem order_remove_insert : ((m.remove key).insert key a).order = m.order.erase key ++ [key] :=
  order_insert_of_not_mem m.nodup.not_mem_erase

end FiniteMap

namespace OrderedMap

/-! ### The keys of a list of pairs -/

theorem keys_setItem (key : String) (a : α) (items : List (String × α)) :
    (setItem key a items).map Prod.fst =
      if key ∈ items.map Prod.fst then items.map Prod.fst else items.map Prod.fst ++ [key] := by
  induction items with
  | nil => rfl
  | cons item items ih =>
    obtain ⟨k, v⟩ := item
    unfold setItem
    by_cases hk : k = key
    · simp [hk]
    · have hkey : key ≠ k := fun h => hk h.symm
      rw [if_neg hk, List.map_cons, List.map_cons, ih]
      by_cases h : key ∈ items.map Prod.fst
      · rw [if_pos h, if_pos (List.mem_cons_of_mem _ h)]
      · rw [if_neg h, if_neg (List.not_mem_cons_of_ne_of_not_mem hkey h), List.cons_append]

theorem keys_set (m : OrderedMap α) (key : String) (a : α) :
    (m.set key a).keys = if key ∈ m.keys then m.keys else m.keys ++ [key] :=
  keys_setItem key a m.items

theorem keys_erase (m : OrderedMap α) (key : String) : (m.erase key).keys = m.keys.filter (· ≠ key) := by
  rw [keys, erase, keys, List.filter_map]
  rfl

/-! ### A key that is erased -/

theorem erase_set (m : OrderedMap α) (key : String) (value : α) :
    (m.set key value).erase key = m.erase key := by
  obtain ⟨items⟩ := m
  simp only [set, erase, mk.injEq]
  induction items with
  | nil => simp [setItem]
  | cons item items ih =>
    obtain ⟨k, v⟩ := item
    by_cases hk : k = key
    · simp [setItem, hk]
    · simpa [setItem, hk] using ih

theorem erase_erase (m : OrderedMap α) (key : String) : (m.erase key).erase key = m.erase key := by
  simp only [erase, List.filter_filter, Bool.and_self]

theorem get?_erase (m : OrderedMap α) (key : String) : (m.erase key).get? key = none := by
  simp [get?, erase, List.find?_filter]

theorem get?_erase_of_ne (m : OrderedMap α) {key other : String} (h : other ≠ key) :
    (m.erase key).get? other = m.get? other := by
  have hfind : (m.items.filter (·.1 ≠ key)).find? (·.1 = other) = m.items.find? (·.1 = other) := by
    rw [List.find?_filter]
    congr 1
    funext item
    by_cases hitem : item.1 = other <;> simp [hitem, h]
  rw [get?, erase, hfind]
  rfl

/-- With each key once, the pairs are the keys with what is found under them. -/
theorem items_eq {m : OrderedMap α} (h : m.keys.Nodup) :
    m.items = m.keys.filterMap fun key => (m.get? key).map (key, ·) := by
  obtain ⟨items⟩ := m
  induction items with
  | nil => rfl
  | cons item items ih =>
    obtain ⟨k, v⟩ := item
    obtain ⟨hk, hrest⟩ := List.nodup_cons.mp h
    have hfirst : (⟨(k, v) :: items⟩ : OrderedMap α).get? k = some v := by simp [get?]
    have hothers : ∀ key ∈ (⟨items⟩ : OrderedMap α).keys,
        ((⟨(k, v) :: items⟩ : OrderedMap α).get? key).map (key, ·) =
          ((⟨items⟩ : OrderedMap α).get? key).map (key, ·) := by
      intro key hkey
      have hne : k ≠ key := fun heq => hk (heq ▸ hkey)
      simp [get?, hne]
    show (k, v) :: items = (k :: (⟨items⟩ : OrderedMap α).keys).filterMap _
    rw [List.filterMap_cons, hfirst, List.filterMap_congr hothers, ← ih hrest]
    rfl

/-! ### What a list of pairs represents -/

/-- The list of pairs has these keys in this order, and these values under them. -/
structure Represents (m : OrderedMap α) (f : FiniteMap α) : Prop where
  keys : m.keys = f.order
  get? : ∀ key, m.get? key = f.value key

theorem represents_empty : Represents (⟨[]⟩ : OrderedMap α) .empty := ⟨rfl, fun _ => rfl⟩

variable {m : OrderedMap α} {f : FiniteMap α}

theorem Represents.set (h : m.Represents f) (key : String) (a : α) :
    (m.set key a).Represents (f.insert key a) where
  keys := by
    rw [keys_set, h.keys]
    rfl
  get? other := by
    rw [get?_set]
    by_cases hother : other = key
    · rw [if_pos hother]
      exact (if_pos hother).symm
    · rw [if_neg hother, h.get? other]
      exact (if_neg hother).symm

theorem Represents.erase (h : m.Represents f) (key : String) : (m.erase key).Represents (f.remove key) where
  keys := by
    have herase : f.order.erase key = f.order.filter (· != key) := f.nodup.erase_eq_filter key
    rw [keys_erase, h.keys]
    show _ = f.order.erase key
    rw [herase]
    refine List.filter_congr fun other _ => ?_
    by_cases hother : other = key <;> simp [hother]
  get? other := by
    by_cases hother : other = key
    · rw [hother, get?_erase]
      exact (if_pos rfl).symm
    · rw [get?_erase_of_ne m hother, h.get? other]
      exact (if_neg hother).symm

/-- The pairs are the keys in their order with their values. -/
theorem Represents.items (h : m.Represents f) :
    m.items = f.order.filterMap fun key => (f.value key).map (key, ·) := by
  rw [items_eq (h.keys ▸ f.nodup), h.keys]
  simp only [h.get?]

end OrderedMap

end CommandBatch
