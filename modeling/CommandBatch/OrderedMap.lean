/-!
# Maps that remember the order of insertion

A finite map from texts, kept as a list of pairs in the order in which the keys were first set. A
key that is set again keeps its place; one that is erased and set again goes to the end.
-/

namespace CommandBatch

/-- A finite map from texts in order of insertion. -/
structure OrderedMap (α : Type) where
  items : List (String × α) := []

namespace OrderedMap

variable {α β : Type}

/-- The value under a key. -/
def get? (m : OrderedMap α) (key : String) : Option α :=
  (m.items.find? (·.1 = key)).map (·.2)

/-- The key has a value. -/
def contains (m : OrderedMap α) (key : String) : Bool := (m.get? key).isSome

/-- The pairs after a key has been set. -/
def setItem (key : String) (value : α) : List (String × α) → List (String × α)
  | [] => [(key, value)]
  | (k, v) :: items =>
    if k = key then (k, value) :: items else (k, v) :: setItem key value items

/-- The map with a key set. -/
def set (m : OrderedMap α) (key : String) (value : α) : OrderedMap α :=
  ⟨setItem key value m.items⟩

/-- The map without a key. -/
def erase (m : OrderedMap α) (key : String) : OrderedMap α :=
  ⟨m.items.filter (·.1 ≠ key)⟩

/-- The keys in order. -/
def keys (m : OrderedMap α) : List String := m.items.map (·.1)

/-- The values in the order of their keys. -/
def values (m : OrderedMap α) : List α := m.items.map (·.2)

/-- The map with every value replaced. -/
def map (f : α → β) (m : OrderedMap α) : OrderedMap β :=
  ⟨m.items.map fun item => (item.1, f item.2)⟩

@[simp] theorem get?_empty (key : String) : (⟨[]⟩ : OrderedMap α).get? key = none := rfl

theorem find?_setItem (key other : String) (value : α) (items : List (String × α)) :
    (setItem key value items).find? (·.1 = other) =
      if other = key then some (key, value) else items.find? (·.1 = other) := by
  induction items with
  | nil => by_cases h : key = other <;> simp [setItem, h, eq_comm]
  | cons item items ih =>
    obtain ⟨k, v⟩ := item
    unfold setItem
    by_cases hk : k = key
    · subst hk
      by_cases h : k = other
      · simp [h]
      · have h' : ¬other = k := fun e => h e.symm
        simp [h, h']
    · by_cases h : k = other
      · subst h
        simp [hk]
      · simp [hk, h, ih]

/-- Setting a key adds at most one pair. -/
theorem mem_setItem {key : String} {value : α} {items : List (String × α)} {item : String × α}
    (h : item ∈ setItem key value items) : item = (key, value) ∨ item ∈ items := by
  induction items with
  | nil => exact .inl (List.mem_singleton.mp h)
  | cons head items ih =>
    obtain ⟨k, v⟩ := head
    unfold setItem at h
    by_cases hk : k = key
    · rw [if_pos hk, List.mem_cons] at h
      rw [hk] at h
      exact h.imp_right (List.mem_cons_of_mem _)
    · rw [if_neg hk, List.mem_cons] at h
      rcases h with rfl | h
      · exact .inr (List.mem_cons_self ..)
      · exact (ih h).imp_right (List.mem_cons_of_mem _)

theorem mem_of_get? {m : OrderedMap α} {key : String} {value : α} (h : m.get? key = some value) :
    (key, value) ∈ m.items := by
  obtain ⟨item, hfind, rfl⟩ := Option.map_eq_some_iff.mp h
  have hkey := List.find?_some hfind
  rw [← of_decide_eq_true hkey]
  exact List.mem_of_find?_eq_some hfind

/-- Setting a key changes the value under that key alone. -/
theorem get?_set (m : OrderedMap α) (key other : String) (value : α) :
    (m.set key value).get? other = if other = key then some value else m.get? other := by
  simp only [get?, set, find?_setItem]
  split <;> rfl

theorem get?_map (f : α → β) (m : OrderedMap α) (key : String) :
    (m.map f).get? key = (m.get? key).map f := by
  simp only [get?, map, List.find?_map, Option.map_map]
  rfl

end OrderedMap

end CommandBatch
