import CommandBatch.Proofs.Command.Binding
import CommandBatch.Proofs.Command.Typing

/-!
# What can be written

A whole number with more digits than the limit has no text.  No literal gives such a number, and what a
reference leads to can be written as long as the variables can.  So what a handler gets for the arguments of
a line can be written if the variables can (`isWritable_of_bind`), and an argument of a line is never refused
because the name of its variable cannot be written (`ne_nameless_of_bind`).
-/

namespace CommandBatch

open Text Token

theorem Datum.OfType.isWritable {type : String} {d : Datum} (h : d.OfType type) : d.isWritable = true := by
  cases h with
  | whole hdigits => exact decide_eq_true hdigits
  | float | bool | symbol | string | tensor => rfl

theorem Value.IsConcrete.isWritable {v : Value} (h : v.IsConcrete) : v.datum.isWritable = true :=
  Datum.OfType.isWritable h

theorem Value.IsName.isWritable {v : Value} (h : v.IsName) : v.datum.isWritable = true := by
  obtain ⟨-, name, hname, -⟩ := h
  rw [hname]
  rfl

/-- **Every argument of a line can be written.** -/
theorem Line.isWritable_of_read {types : List TokenType}
    (htypes : ∀ type ∈ types, type ∈ tensor :: defaults) {marks : Marks} {text : String} {l : Line}
    (h : Line.read types marks text = .ok l) : ∀ v ∈ l.args, v.datum.isWritable = true :=
  fun v hv => (concrete_or_name_of_read htypes h v hv).elim (·.isWritable) (·.isWritable)

/-! ## Variables -/

namespace Environment

variable {env : Environment}

theorem isWritable_iff : env.isWritable = true ↔ ∀ item ∈ env.values.items, item.2.datum.isWritable = true := by
  simp [isWritable, OrderedMap.values]

theorem isWritable_get? {name : String} {v : Value} (h : env.isWritable = true) (hget : env.get? name = some v) :
    v.datum.isWritable = true :=
  isWritable_iff.mp h _ (OrderedMap.mem_of_get? hget)

theorem isWritable_set (h : env.isWritable = true) (name : String) {value : Value}
    (hvalue : value.datum.isWritable = true) : (env.set name value).isWritable = true := by
  refine isWritable_iff.mpr fun item hitem => ?_
  rcases OrderedMap.mem_setItem hitem with rfl | hitem
  · exact hvalue
  · exact isWritable_iff.mp h item hitem

theorem isWritable_delete (h : env.isWritable = true) {name : String} {env₁ : Environment}
    (hdelete : env.delete name = .ok env₁) : env₁.isWritable = true := by
  unfold Environment.delete at hdelete
  split at hdelete
  · cases hdelete
    exact isWritable_iff.mpr fun item hitem => isWritable_iff.mp h item (List.mem_filter.mp hitem).1
  · cases hdelete

/-- Typed variables can be written. -/
theorem Typed.isWritable (h : env.Typed) : env.isWritable = true :=
  isWritable_iff.mpr fun item hitem => (h.values item hitem).isWritable

end Environment

/-! ## Arguments -/

namespace Signature

variable {env : Environment} {s : Signature} {args vs : List Value}

theorem Supplies.isWritable {p : Parameter} {arg v : Value} (henv : env.isWritable = true)
    (harg : arg.datum.isWritable = true) (h : Supplies env p arg v) : v.datum.isWritable = true := by
  cases h with
  | itself => exact harg
  | stored _ _ _ hget => exact Environment.isWritable_get? henv hget

theorem isWritable_of_bindFrom (henv : env.isWritable = true) {given position : Nat} {ps : List Parameter}
    (hargs : ∀ arg ∈ args, arg.datum.isWritable = true)
    (h : s.bindFrom env given position ps args = .ok vs) : ∀ v ∈ vs, v.datum.isWritable = true := by
  induction args generalizing ps position vs with
  | nil =>
    cases ps with
    | nil =>
      cases h
      exact nofun
    | cons p ps =>
      unfold bindFrom at h
      split at h <;> cases h
      exact nofun
  | cons arg args ih =>
    cases ps with
    | nil => cases h
    | cons p ps =>
      obtain ⟨harg, hargs⟩ := List.forall_mem_cons.mp hargs
      obtain ⟨v, rest, ⟨hv, -⟩, hrest, rfl⟩ := bindFrom_cons_eq_ok_iff.mp h
      exact List.forall_mem_cons.mpr ⟨hv.isWritable henv harg, ih hargs hrest⟩

/-- **What is bound can be written**, if the arguments and the variables can. -/
theorem isWritable_of_bind (henv : env.isWritable = true) (hargs : ∀ arg ∈ args, arg.datum.isWritable = true)
    (h : s.bind env args = .ok vs) : ∀ v ∈ vs, v.datum.isWritable = true :=
  isWritable_of_bindFrom henv hargs h

/-- **Arguments that can be written are refused for reasons that can be told.** -/
theorem ne_nameless_of_bind {r : Reason} (hargs : ∀ arg ∈ args, arg.datum.isWritable = true)
    (h : s.bind env args = .error r) : r ≠ .nameless := by
  rintro rfl
  cases refusal_of_bindFrom h with
  | dangles hmem hdangles =>
    cases hdangles with
    | nameless _ _ hname =>
      rw [hargs _ hmem] at hname
      cases hname

end Signature

end CommandBatch
