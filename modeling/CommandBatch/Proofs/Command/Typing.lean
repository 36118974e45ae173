import CommandBatch.Proofs.Text.UpperCase
import CommandBatch.Proofs.Token.Kinds
import CommandBatch.Command.Binding

/-!
# Typed variables

Variables are typed if each key is the sigil with a name in capitals and each value is concrete.  Setting a
variable that a reference names to a concrete value keeps that, and so does removing a variable.  Where the
variables are typed, what a handler gets for the arguments of a line is concrete, except for the names of
variables that its command asks for as such (`fits_of_bind`): a reference is replaced in one step, since no
variable holds another reference.
-/

namespace CommandBatch

open Text Token

/-! ## Keys -/

/-- A capital letter without marks, a common digit or an underscore. -/
def isKeyChar (c : Char) : Bool := ('A' ≤ c && c ≤ 'Z') || ('0' ≤ c && c ≤ '9') || c = '_'

/-- The text is the sigil and a name in capitals. -/
def IsKey (key : String) : Prop :=
  ∃ name, key.toList = sigil :: name ∧ name ≠ [] ∧ ∀ c ∈ name, isKeyChar c = true

/-- The codes of the characters of names. -/
def nameCodes : List Nat := List.range' 48 10 ++ List.range' 65 26 ++ [95] ++ List.range' 97 26

theorem mem_nameCodes {c : Char} (h : isNameChar c = true) : c.toNat ∈ nameCodes := by
  simp [isNameChar, Char.le_def, ← UInt32.toNat_inj, UInt32.le_iff_toNat_le, Char.ext_iff] at h
  simp [nameCodes]
  have hcode : c.toNat = c.val.toNat := rfl
  omega

/-- In upper case the characters of a name are those of a key. -/
theorem isKeyChar_of_mem_upperChar {c d : Char} (hc : isNameChar c = true) (hd : d ∈ upperChar c) :
    isKeyChar d = true := by
  have hcodes : ∀ code ∈ nameCodes, (upperChar (Char.ofNat code)).all isKeyChar = true := by
    decide +kernel
  have hall := hcodes _ (mem_nameCodes hc)
  rw [Char.ofNat_toNat] at hall
  exact List.all_eq_true.mp hall d hd

/-- **A reference leads to a key.** -/
theorem isKey_normalizeName {name : String} (h : isReference name.toList = true) :
    IsKey (normalizeName name) := by
  cases hname : name.toList with
  | nil =>
    rw [hname] at h
    cases h
  | cons c cs =>
    rw [hname] at h
    simp only [isReference, Bool.and_eq_true, decide_eq_true_eq, Bool.not_eq_true',
      List.all_eq_true] at h
    obtain ⟨⟨rfl, hne⟩, hcs⟩ := h
    have hupper : (upper name).toList = sigil :: upperList cs := by
      rw [toList_upper, hname, upperList_cons]
      rfl
    have hkey : normalizeName name = upper name := by
      unfold normalizeName
      dsimp only
      rw [hupper]
      exact if_pos rfl
    refine ⟨upperList cs, hkey ▸ hupper, upperList_ne_nil fun hnil => ?_, fun d hd => ?_⟩
    · rw [hnil] at hne
      cases hne
    · obtain ⟨c, hc, hd⟩ := List.mem_flatMap.mp hd
      exact isKeyChar_of_mem_upperChar (hcs c hc) hd

/-! ## Variables -/

namespace Environment

/-- Every variable has a proper name and a concrete value. -/
structure Typed (env : Environment) : Prop where
  keys : ∀ item ∈ env.values.items, IsKey item.1
  values : ∀ item ∈ env.values.items, item.2.IsConcrete

theorem typed_empty : Typed {} := ⟨nofun, nofun⟩

variable {env : Environment}

theorem Typed.set (h : env.Typed) {name : String} {value : Value} (hname : IsKey (normalizeName name))
    (hvalue : value.IsConcrete) : (env.set name value).Typed := by
  refine ⟨fun item hitem => ?_, fun item hitem => ?_⟩
  · rcases OrderedMap.mem_setItem hitem with rfl | hitem
    · exact hname
    · exact h.keys item hitem
  · rcases OrderedMap.mem_setItem hitem with rfl | hitem
    · exact hvalue
    · exact h.values item hitem

theorem Typed.delete (h : env.Typed) {name : String} {env₁ : Environment}
    (hdelete : env.delete name = .ok env₁) : env₁.Typed := by
  unfold Environment.delete at hdelete
  split at hdelete
  · cases hdelete
    exact ⟨fun item hitem => h.keys item (List.mem_filter.mp hitem).1,
      fun item hitem => h.values item (List.mem_filter.mp hitem).1⟩
  · cases hdelete

/-- A reference is resolved in one step. -/
theorem Typed.resolve (h : env.Typed) {reference v : Value} (hresolve : env.resolve reference = .ok v) :
    v.IsConcrete := by
  obtain ⟨-, hget⟩ := resolve_eq_ok_iff.mp hresolve
  exact h.values _ (OrderedMap.mem_of_get? hget)

end Environment

/-! ## Arguments -/

namespace Signature

/-- Arguments as a handler gets them: each has a type that its parameter accepts, and is concrete or is the
name of a variable that the parameter asks for. -/
inductive Fits : List Parameter → List Value → Prop
  | nil (ps : List Parameter) : Fits ps []
  | cons {p : Parameter} {v : Value} {ps : List Parameter} {vs : List Value}
      (haccepts : p.accepts v.type = true)
      (hvalue : v.IsConcrete ∨ v.IsName ∧ p.acceptsReference = true) (hrest : Fits ps vs) :
      Fits (p :: ps) (v :: vs)

variable {env : Environment}

theorem concrete_or_name_of_resolveFor (henv : env.Typed) {p : Parameter} {arg v : Value}
    (harg : arg.IsConcrete ∨ arg.IsName) (h : resolveFor p env arg = .ok v) :
    v.IsConcrete ∨ v.IsName ∧ p.acceptsReference = true := by
  unfold resolveFor at h
  by_cases hresolved : (arg.isReference && !p.acceptsReference) = true
  · rw [if_pos hresolved] at h
    exact .inl (henv.resolve h)
  · rw [if_neg hresolved] at h
    cases h
    refine harg.imp_right fun hname => ⟨hname, ?_⟩
    have hreference : arg.isReference = true := beq_iff_eq.mpr hname.1
    simpa [hreference] using hresolved

theorem fits_of_bindFrom (henv : env.Typed) {s : Signature} {given position : Nat} {ps : List Parameter}
    {args vs : List Value} (hargs : ∀ arg ∈ args, arg.IsConcrete ∨ arg.IsName)
    (h : s.bindFrom env given position ps args = .ok vs) : Fits ps vs := by
  induction args generalizing ps position vs with
  | nil =>
    cases ps with
    | nil =>
      cases h
      exact .nil []
    | cons p ps =>
      unfold bindFrom at h
      split at h
      · cases h
        exact .nil _
      · cases h
  | cons arg args ih =>
    cases ps with
    | nil => cases h
    | cons p ps =>
      obtain ⟨harg, hargs⟩ := List.forall_mem_cons.mp hargs
      obtain ⟨v, hv, h⟩ := bind_eq_ok_iff.mp h
      by_cases haccepts : p.accepts v.type = true
      · rw [if_pos haccepts] at h
        obtain ⟨rest, hrest, h⟩ := bind_eq_ok_iff.mp h
        cases h
        exact .cons haccepts (concrete_or_name_of_resolveFor henv harg hv) (ih hargs hrest)
      · rw [if_neg haccepts] at h
        cases h

/-- **What is bound to the parameters of a command fits them.** -/
theorem fits_of_bind (henv : env.Typed) {s : Signature} {args vs : List Value}
    (hargs : ∀ arg ∈ args, arg.IsConcrete ∨ arg.IsName) (h : s.bind env args = .ok vs) :
    Fits s.params vs := fits_of_bindFrom henv hargs h

/-- A parameter that asks for references and nothing else gets the name of a variable. -/
theorem isKey_of_fits {p : Parameter} {v : Value} (hp : p.types = [TypeName.reference])
    (haccepts : p.accepts v.type = true)
    (hvalue : v.IsConcrete ∨ v.IsName ∧ p.acceptsReference = true) :
    IsKey (normalizeName v.datum.plain) := by
  have htype : v.type = TypeName.reference := by
    have hany : p.acceptsAny = false := by
      rw [Parameter.acceptsAny, hp]
      decide
    simpa [Parameter.accepts, hany, hp] using haccepts
  rcases hvalue with hconcrete | ⟨⟨-, name, hdatum, hname⟩, -⟩
  · exact absurd (by simp [htype]) hconcrete.type_not_mem
  · rw [hdatum]
    exact isKey_normalizeName hname

/-- A parameter that does not ask for references gets a concrete value. -/
theorem concrete_of_fits {p : Parameter} {v : Value} (hp : p.acceptsReference = false)
    (hvalue : v.IsConcrete ∨ v.IsName ∧ p.acceptsReference = true) : v.IsConcrete := by
  rcases hvalue with hconcrete | ⟨-, hasks⟩
  · exact hconcrete
  · rw [hp] at hasks
    cases hasks

end Signature

end CommandBatch
