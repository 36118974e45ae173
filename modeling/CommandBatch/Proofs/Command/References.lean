import CommandBatch.Proofs.Command.Binding

/-!
# References among the arguments of a handler

A parameter that does not name the type of references gets the value of the variable that its argument refers
to.  The replacement is made once, and what comes out is not looked at again.  So a handler can still be given
a reference it did not ask for, in one way only: the parameter takes values of any type, and the value under
the variable is tagged as a reference itself (`bind_references`).  A host can store such a value; as long as no
variable holds one, no such reference reaches a handler.
-/

namespace CommandBatch.Signature

variable {s : Signature} {env : Environment} {p : Parameter} {ps : List Parameter} {arg v : Value}
  {args vs : List Value} {given position i : Nat}

/-- Each bound value is what some parameter got for the argument in its place. -/
theorem suits_of_bindFrom (h : s.bindFrom env given position ps args = .ok vs) (hv : vs[i]? = some v) :
    ∃ p arg, ps[i]? = some p ∧ args[i]? = some arg ∧ Suits env p arg v := by
  induction ps generalizing position args vs i with
  | nil =>
    cases args with
    | nil =>
      cases h
      cases hv
    | cons arg args => cases h
  | cons p ps ih =>
    cases args with
    | nil =>
      rw [bindFrom] at h
      split at h
      · cases h
        cases hv
      · cases h
    | cons arg args =>
      obtain ⟨w, rest, hw, hrest, rfl⟩ := bindFrom_cons_eq_ok_iff.mp h
      cases i with
      | zero =>
        cases hv
        exact ⟨p, arg, rfl, rfl, hw⟩
      | succ i => exact ih hrest hv

/-- A parameter that accepts a reference without naming their type takes values of any type. -/
theorem acceptsAny_of_accepts (hp : p.acceptsReference = false) (hv : v.isReference = true)
    (h : p.accepts v.type = true) : p.acceptsAny = true := by
  have htype : v.type = TypeName.reference := eq_of_beq hv
  rcases Bool.or_eq_true_iff.mp h with hany | hnamed
  · exact hany
  · rw [htype] at hnamed
    exact absurd hnamed (by rw [← Parameter.acceptsReference, hp]; decide)

/-- What a parameter that does not name references gets is a reference only if it stands under the variable
that the argument refers to. -/
theorem Supplies.get?_of_isReference (hp : p.acceptsReference = false) (hv : v.isReference = true)
    (h : Supplies env p arg v) : arg.isReference = true ∧ env.get? arg.datum.plain = some v := by
  cases h with
  | itself h => cases hp.symm.trans (h hv)
  | stored hreference hp hname h => exact ⟨hreference, h⟩

/-- What a parameter that does not name references gets for one stands under its variable. -/
theorem Supplies.get?_of_reference (hp : p.acceptsReference = false) (hargument : arg.isReference = true)
    (h : Supplies env p arg v) : env.get? arg.datum.plain = some v := by
  cases h with
  | itself h => cases hp.symm.trans (h hargument)
  | stored hreference hp hname h => exact h

/-- **The references among the arguments of a handler.**  Each bound value has its parameter and its argument.
If the parameter does not name references, the bound value is one exactly if the parameter takes values of any
type, the argument is a reference and the value under its variable is a reference; then it is that value.  So
none is bound unasked if no variable holds one. -/
theorem bind_references (h : s.bind env args = .ok vs) :
    (∀ (i : Nat) (v : Value), vs[i]? = some v → ∃ p arg, s.params[i]? = some p ∧ args[i]? = some arg ∧
      (p.acceptsReference = false →
        (v.isReference = true ↔ p.acceptsAny = true ∧ arg.isReference = true ∧
          ∃ w, env.get? arg.datum.plain = some w ∧ w.isReference = true) ∧
        (v.isReference = true → env.get? arg.datum.plain = some v))) ∧
    ((∀ name w, env.get? name = some w → w.isReference = false) →
      ∀ (i : Nat) (p : Parameter) (v : Value), s.params[i]? = some p → vs[i]? = some v →
        p.acceptsReference = false → v.isReference = false) := by
  refine ⟨fun i v hv => ?_, fun hplain i p v hp hv hnamed => ?_⟩
  · obtain ⟨p, arg, hp, harg, hsupplies, haccepts⟩ := suits_of_bindFrom h hv
    refine ⟨p, arg, hp, harg, fun hnamed => ⟨⟨fun hreference => ?_, ?_⟩, fun hreference => ?_⟩⟩
    · obtain ⟨hargument, hget⟩ := hsupplies.get?_of_isReference hnamed hreference
      exact ⟨acceptsAny_of_accepts hnamed hreference haccepts, hargument, v, hget, hreference⟩
    · rintro ⟨-, hargument, w, hget, hreference⟩
      cases hget.symm.trans (hsupplies.get?_of_reference hnamed hargument)
      exact hreference
    · exact (hsupplies.get?_of_isReference hnamed hreference).2
  · obtain ⟨q, arg, hq, -, hsupplies, -⟩ := suits_of_bindFrom h hv
    cases hp.symm.trans hq
    refine Bool.eq_false_iff.mpr fun hreference => ?_
    have hget := (hsupplies.get?_of_isReference hnamed hreference).2
    cases (hplain _ _ hget).symm.trans hreference

/-- A command with one argument of any type. -/
def showing : Signature := ⟨"SHOW", [⟨["any"], false, "any"⟩], "", true, "any"⟩

/-- A reference to another variable. -/
def dollarY : Value := ⟨"variable", .text "$y", none⟩

/-- Under `$x` stands a reference to `$y`. -/
def chained : Environment := ({} : Environment).set "$x" dollarY

theorem chained_get? : chained.get? "$x" = some dollarY := by
  rw [Environment.get?, chained, Environment.set, OrderedMap.get?_set, if_pos rfl]

theorem bind_showing : showing.bind chained [dollarX] = .ok [dollarY] :=
  bindFrom_cons_eq_ok_iff.mpr ⟨dollarY, [], ⟨.stored rfl rfl rfl chained_get?, rfl⟩, rfl, rfl⟩

/-- A parameter of any type gets the reference that stands under the variable. -/
theorem bind_references_showing :
    showing.bind chained [dollarX] = .ok [dollarY] ∧
    ∃ p arg, showing.params[0]? = some p ∧ [dollarX][0]? = some arg ∧
      (p.acceptsReference = false →
        (dollarY.isReference = true ↔ p.acceptsAny = true ∧ arg.isReference = true ∧
          ∃ w, chained.get? arg.datum.plain = some w ∧ w.isReference = true) ∧
        (dollarY.isReference = true → chained.get? arg.datum.plain = some dollarY)) :=
  ⟨bind_showing, (bind_references bind_showing).1 0 dollarY rfl⟩

/-- A handler can be given a reference although its parameter does not name references. -/
theorem bound_reference_unasked :
    ¬ ∀ (s : Signature) (args : List Value) (env : Environment) (vs : List Value),
      s.bind env args = .ok vs → ∀ (i : Nat) (p : Parameter) (v : Value), s.params[i]? = some p →
        vs[i]? = some v → p.acceptsReference = false → v.isReference = false := by
  intro h
  have hfalse := h showing [dollarX] chained [dollarY] bind_showing 0 _ dollarY rfl rfl rfl
  cases hfalse

end CommandBatch.Signature
