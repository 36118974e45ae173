import CommandBatch.Token.Array
import CommandBatch.Proofs.Tensor.Notation
import CommandBatch.Proofs.Tensor.Shape

/-!
# The grammar of arrays

What a text has to be for the array parser to make an array of it: a group between brackets, rectangular, of at
least one number, and nested at most as deep as an array may have axes.  The array then has the extents of the
nesting, and at each place the number that the nesting has there (`array_grammar`).

The parser takes it on trust that the first token is an opening bracket.  It is one in every text that the type
of arrays reads off a line; but the parser can be given other texts, and then it makes an array of a group
whose opening bracket has been replaced by anything (`unopened_array`).
-/

namespace CommandBatch

open Text Decimal

namespace Nested

/-! ## Rectangular nesting -/

/-- The nesting is rectangular: a number has no extents, and the items of a group all have the same. -/
inductive HasShape : Nested → List Nat → Prop
  | number (x : Float) : HasShape (.number x) []
  | group {items : List Nested} {inner : List Nat} (hitems : ∀ item ∈ items, HasShape item inner)
      (hempty : items = [] → inner = []) : HasShape (.group items) (items.length :: inner)

mutual

theorem shape?_eq_some_iff {shape : List Nat} : (n : Nested) → (n.shape? = some shape ↔ n.HasShape shape)
  | .number x => by
    constructor
    · intro h
      cases h
      exact .number x
    · rintro ⟨⟩
      rfl
  | .group items => by
    have hnil : shapes items = [] ↔ items = [] := by
      rw [← List.length_eq_zero_iff, length_shapes, List.length_eq_zero_iff]
    rw [shape?, stackShapes_eq_some_iff, length_shapes]
    constructor
    · rintro ⟨inner, rfl, hsame, hempty⟩
      exact .group ((forall_mem_shapes_iff items).mp hsame) fun h => hempty (hnil.mpr h)
    · rintro (_ | ⟨hitems, hempty⟩)
      exact ⟨_, rfl, (forall_mem_shapes_iff items).mpr hitems, fun h => hempty (hnil.mp h)⟩

theorem forall_mem_shapes_iff {inner : List Nat} :
    (items : List Nested) → ((∀ s ∈ shapes items, s = some inner) ↔ ∀ item ∈ items, item.HasShape inner)
  | [] => by simp [shapes]
  | item :: items => by
    rw [shapes, List.forall_mem_cons, List.forall_mem_cons, shape?_eq_some_iff item,
      forall_mem_shapes_iff items]

end

mutual

/-- How deep brackets are nested. -/
def depth : Nested → Nat
  | .number _ => 0
  | .group items => depthAll items + 1

/-- How deep brackets are nested in some item. -/
def depthAll : List Nested → Nat
  | [] => 0
  | item :: items => max (depth item) (depthAll items)

end

theorem depthAll_eq {items : List Nested} {d : Nat} (hitems : ∀ item ∈ items, depth item = d)
    (hne : items ≠ []) : depthAll items = d := by
  match items with
  | [item] =>
    rw [depthAll, depthAll, Nat.max_zero]
    exact hitems item (List.mem_singleton_self _)
  | item :: next :: items =>
    obtain ⟨hitem, hnext⟩ := List.forall_mem_cons.mp hitems
    rw [depthAll, hitem, depthAll_eq hnext (List.cons_ne_nil _ _), Nat.max_self]

/-- A rectangular nesting has as many extents as it has levels. -/
theorem HasShape.length_eq {n : Nested} {shape : List Nat} (h : n.HasShape shape) : shape.length = n.depth := by
  induction h with
  | number x => rfl
  | @group items inner _ hempty ih =>
    rw [depth, List.length_cons]
    by_cases hitems : items = []
    · rw [hempty hitems, hitems]
      rfl
    · rw [depthAll_eq (fun item hitem => (ih item hitem).symm) hitems]

/-! ## The places of the numbers -/

/-- The number at a place of the nesting, which is given by the index at each level. -/
def follow : List Nat → Nested → Option Float
  | [], .number x => some x
  | i :: path, .group items => items[i]?.bind (follow path)
  | _, _ => none

/-- How many entries stand in front of a place in row-major order. -/
def offset : List Nat → List Nat → Nat
  | _ :: shape, i :: path => i * shape.prod + offset shape path
  | _, _ => 0

theorem HasShape.length_numbers {n : Nested} {shape : List Nat} (h : n.HasShape shape) :
    n.numbers.length = shape.prod := Nested.length_numbers n ((shape?_eq_some_iff n).mpr h)

/-- Among items with equally many numbers, those of one item stand together. -/
theorem getElem?_numbersAll {items : List Nested} {item : Nested} {m i k : Nat}
    (hitems : ∀ item ∈ items, item.numbers.length = m) (hi : items[i]? = some item) (hk : k < m) :
    (numbersAll items)[i * m + k]? = item.numbers[k]? := by
  induction items generalizing i with
  | nil => simp at hi
  | cons first items ih =>
    obtain ⟨hfirst, hitems⟩ := List.forall_mem_cons.mp hitems
    rw [numbersAll]
    cases i with
    | zero =>
      rw [List.getElem?_cons_zero, Option.some.injEq] at hi
      rw [Nat.zero_mul, Nat.zero_add, List.getElem?_append_left (by rwa [hfirst]), hi]
    | succ i =>
      have hplace : (i + 1) * m + k - m = i * m + k := by
        rw [Nat.succ_mul]
        omega
      have hbehind : m ≤ (i + 1) * m + k := by
        rw [Nat.succ_mul]
        omega
      rw [List.getElem?_append_right (by rwa [hfirst]), hfirst, hplace]
      exact ih hitems hi

/-- **The numbers stand in row-major order.** -/
theorem HasShape.getElem?_numbers {n : Nested} {shape path : List Nat} {x : Float} (h : n.HasShape shape)
    (hx : follow path n = some x) : n.numbers[offset shape path]? = some x := by
  induction h generalizing path with
  | number y =>
    match path with
    | [] =>
      cases hx
      rfl
    | i :: path => cases hx
  | @group items inner hitems hempty ih =>
    match path with
    | [] => cases hx
    | i :: path =>
      obtain ⟨item, hi, hitem⟩ := Option.bind_eq_some_iff.mp hx
      have hmem : item ∈ items := List.mem_of_getElem? hi
      have hplace := ih item hmem hitem
      have hlength : ∀ item ∈ items, item.numbers.length = inner.prod :=
        fun item hitem => (hitems item hitem).length_numbers
      obtain ⟨hlt, -⟩ := List.getElem?_eq_some_iff.mp hplace
      rw [hlength item hmem] at hlt
      rw [numbers, offset, getElem?_numbersAll hlength hi hlt, hplace]

end Nested

namespace Tensor

/-- The items, between brackets, are this array: it has the extents of their nesting and their numbers from left
to right, of which there is at least one. -/
structure Denotes (items : List Nested) (t : Tensor) : Prop where
  shape : (Nested.group items).HasShape t.shape
  entries : t.entries = (Nested.group items).numbers
  nonempty : t.entries ≠ []

theorem ofNested?_eq_some_iff {n : Nested} {t : Tensor} :
    ofNested? n = some t ↔ n.HasShape t.shape ∧ t.entries = n.numbers ∧ n.depth ≤ axisLimit := by
  unfold ofNested?
  rw [Option.bind_eq_some_iff]
  constructor
  · rintro ⟨shape, hshape, h⟩
    have hhas := (Nested.shape?_eq_some_iff n).mp hshape
    split at h
    · next hlimit =>
      cases h
      exact ⟨hhas, rfl, hhas.length_eq ▸ hlimit⟩
    · cases h
  · rintro ⟨hhas, hentries, hlimit⟩
    obtain ⟨shape, entries⟩ := t
    subst hentries
    exact ⟨shape, (Nested.shape?_eq_some_iff n).mpr hhas, if_pos (hhas.length_eq ▸ hlimit)⟩

/-- **What the reader makes an array of.**  The first token, whatever it is, is taken for an opening bracket. -/
theorem read?_eq_some_iff {cs : List Char} {t : Tensor} :
    read? cs = some t ↔ ∃ items, Writes [.group items] (.opening :: (tokens cs).drop 1) ∧ Denotes items t ∧
      (Nested.group items).depth ≤ axisLimit := by
  simp only [← readItems_drop_one_iff]
  unfold read?
  constructor
  · intro h
    split at h
    · next items hread =>
      obtain ⟨t', ht', hsize⟩ := Option.bind_eq_some_iff.mp h
      split at hsize
      · cases hsize
      · next hsize' =>
        cases hsize
        obtain ⟨hshape, hentries, hlimit⟩ := ofNested?_eq_some_iff.mp ht'
        have hne : t.entries ≠ [] := fun hnil => hsize' (List.length_eq_zero_iff.mpr hnil)
        exact ⟨items, hread, ⟨hshape, hentries, hne⟩, hlimit⟩
    · cases h
  · rintro ⟨items, hread, hdenotes, hlimit⟩
    have hsize : t.size ≠ 0 := List.length_eq_zero_iff.not.mpr hdenotes.nonempty
    rw [hread]
    refine Option.bind_eq_some_iff.mpr ⟨t, ?_, if_neg hsize⟩
    exact ofNested?_eq_some_iff.mpr ⟨hdenotes.shape, hdenotes.entries, hlimit⟩

end Tensor

namespace Token

open Tensor

theorem parseTensor_eq (literal : String) :
    parseTensor literal =
      (read? (trim literal.toList)).elim (.refused (strip literal)) fun t => ⟨TypeName.tensor, .tensor t, none⟩ := by
  rw [parseTensor, toList_strip]
  cases read? (trim literal.toList) <;> rfl

theorem parseTensor_eq_iff {literal : String} {t : Tensor} :
    parseTensor literal = ⟨TypeName.tensor, .tensor t, none⟩ ↔ read? (trim literal.toList) = some t := by
  rw [parseTensor_eq]
  cases read? (trim literal.toList) with
  | some t' => simp
  | none => simp [Value.refused]

/-- **The grammar of arrays.**  A text is one row of tokens, brackets and numerals with gaps between them, and
is parsed as an array, or refused.  It is parsed as an array exactly if with an opening bracket for its first
token it is one group, between an opening bracket and the one that closes it, and this group is rectangular, has
at least one number and is nested at most 64 deep; so if its first token is an opening bracket, exactly if it is
such a group.  The array has the extents of the nesting and its numbers in row-major order. -/
theorem array_grammar (literal : String) :
    ∃ ts, Spells (trim literal.toList) ts ∧
      ((∃ t, parseTensor literal = ⟨TypeName.tensor, .tensor t, none⟩) ∨
        parseTensor literal = .refused (strip literal)) ∧
      (∀ t, parseTensor literal = ⟨TypeName.tensor, .tensor t, none⟩ ↔
        ∃ items, Writes [.group items] (.opening :: ts.drop 1) ∧ Denotes items t ∧
          (Nested.group items).depth ≤ 64) ∧
      (ts.head? = some .opening → ∀ t, parseTensor literal = ⟨TypeName.tensor, .tensor t, none⟩ ↔
        ∃ items, Writes [.group items] ts ∧ Denotes items t ∧ (Nested.group items).depth ≤ 64) ∧
      ∀ items t, Denotes items t → ∀ path x, Nested.follow path (.group items) = some x →
        t.entries[Nested.offset t.shape path]? = some x := by
  have hwhole (t : Tensor) : parseTensor literal = ⟨TypeName.tensor, .tensor t, none⟩ ↔
      ∃ items, Writes [.group items] (.opening :: (tokens (trim literal.toList)).drop 1) ∧ Denotes items t ∧
        (Nested.group items).depth ≤ 64 := parseTensor_eq_iff.trans read?_eq_some_iff
  refine ⟨_, spells_iff.mpr rfl, ?_, hwhole, fun hopening t => ?_, fun items t hdenotes path x hx => ?_⟩
  · rw [parseTensor_eq]
    cases read? (trim literal.toList) with
    | some t => exact .inl ⟨t, rfl⟩
    | none => exact .inr rfl
  · obtain ⟨rest, hrest⟩ := List.head?_eq_some_iff.mp hopening
    rw [hwhole t, hrest]
    rfl
  · rw [hdenotes.entries]
    exact hdenotes.shape.getElem?_numbers hx

/-- A text without an opening bracket can be parsed as an array. -/
theorem unopened_array :
    ¬ ∀ (literal : String) (t : Tensor), parseTensor literal = ⟨TypeName.tensor, .tensor t, none⟩ →
      ∃ ts items, Spells (trim literal.toList) ts ∧ Writes [.group items] ts := by
  intro h
  obtain ⟨x, hx⟩ : ∃ x, readFloat "2" = .ok x := ⟨_, rfl⟩
  have hparse : parseTensor "1 2]" = ⟨TypeName.tensor, .tensor ⟨[1], [x]⟩, none⟩ := by
    refine parseTensor_eq_iff.mpr (read?_eq_some_iff.mpr ⟨[.number x], ?_, ⟨?_, rfl, by simp⟩,
      by simp [Nested.depth, Nested.depthAll, axisLimit]⟩)
    · exact .group (.number hx .nil) .nil
    · have hitems : ∀ item ∈ [Nested.number x], item.HasShape [] := by
        rw [List.forall_mem_singleton]
        exact .number x
      exact .group hitems nofun
  obtain ⟨ts, items, hspells, hwrites⟩ := h _ _ hparse
  have hts : ts = [.numeral ['1'], .numeral ['2'], .closing] := (spells_iff.mp hspells).symm
  subst hts
  cases hwrites

end Token

end CommandBatch
