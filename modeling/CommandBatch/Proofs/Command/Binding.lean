import CommandBatch.Proofs.Outcome
import CommandBatch.Command.Binding
import Mathlib.Tactic.Choose

/-!
# What binding arguments comes to

`Signature.bind` walks the parameters and the arguments together and stops at the first parameter without an
argument if it is optional.  That this parameter stands for all that follow it is ensured elsewhere: a
declaration with a required parameter behind an optional one is refused, so the number of required parameters
is the position of the first optional one.  With that, binding is settled position by position.  It succeeds
exactly if the number of arguments is allowed and each argument suits its parameter, and otherwise it fails
for the reason of the first position at fault (`bind_of_command`).
-/

namespace CommandBatch

open Text

/-! ## Optional parameters stand behind the required ones -/

namespace Parameter

/-- Behind an optional parameter all parameters are optional. -/
def OptionalsTrail (ps : List Parameter) : Prop :=
  ps.Pairwise fun p q => p.optional = true → q.optional = true

/-- The number of parameters that need an argument. -/
def required (ps : List Parameter) : Nat := ps.countP (!·.optional)

theorem optionals_of_checkOrder {ps : List Parameter} {seen : Bool} (h : checkOrder seen ps = .ok ()) :
    (seen = true → ∀ p ∈ ps, p.optional = true) ∧ OptionalsTrail ps := by
  induction ps generalizing seen with
  | nil => exact ⟨fun _ => nofun, .nil⟩
  | cons p ps ih =>
    unfold checkOrder at h
    cases hp : p.optional with
    | true =>
      rw [if_pos hp] at h
      obtain ⟨hall, htrail⟩ := ih h
      exact ⟨fun _ => List.forall_mem_cons.mpr ⟨hp, hall rfl⟩,
        List.pairwise_cons.mpr ⟨fun q hq _ => hall rfl q hq, htrail⟩⟩
    | false =>
      rw [if_neg (by simp [hp])] at h
      cases seen with
      | true => cases h
      | false =>
        refine ⟨nofun, List.pairwise_cons.mpr ⟨fun _ _ hoptional => ?_, (ih h).2⟩⟩
        rw [hp] at hoptional
        cases hoptional

/-- Parameters that are read from a declaration are in order. -/
theorem optionalsTrail_of_parseAll {texts : List String} {ps : List Parameter}
    (h : parseAll texts = .ok ps) : OptionalsTrail ps := by
  obtain ⟨parsed, -, h⟩ := bind_eq_ok_iff.mp h
  obtain ⟨⟨⟩, horder, h⟩ := bind_eq_ok_iff.mp h
  cases h
  exact (optionals_of_checkOrder horder).2

variable {p : Parameter} {ps : List Parameter}

/-- An optional parameter in front leaves no required one. -/
theorem required_eq_zero (htrail : OptionalsTrail (p :: ps)) (hp : p.optional = true) :
    required (p :: ps) = 0 ∧ required ps = 0 := by
  have hrest := (List.pairwise_cons.mp htrail).1
  refine ⟨List.countP_eq_zero.mpr fun q hq => ?_, List.countP_eq_zero.mpr fun q hq => ?_⟩
  · rcases List.mem_cons.mp hq with rfl | hq
    · simp [hp]
    · simp [hrest q hq hp]
  · simp [hrest q hq hp]

theorem required_cons (hp : p.optional = false) : required (p :: ps) = required ps + 1 := by
  simp [required, hp]

/-- One parameter and one argument less do not change whether there are too few arguments. -/
theorem succ_lt_required (htrail : OptionalsTrail (p :: ps)) (n : Nat) :
    n + 1 < required (p :: ps) ↔ n < required ps := by
  cases hp : p.optional with
  | true => simp [required_eq_zero htrail hp]
  | false => simp [required_cons hp]

end Parameter

namespace Declaration

theorem word?_eq_some_iff {d : Datum} {name : String} :
    word? d = some name ↔ d = .text name ∧ name ≠ "" ∧ ∀ c ∈ name.toList, isBlank c = false := by
  cases d with
  | text s =>
    simp only [word?, Option.ite_none_left_eq_some, Option.some.injEq, Datum.text.injEq, not_or,
      Bool.not_eq_true, List.any_eq_false]
    constructor
    · rintro ⟨hword, rfl⟩
      exact ⟨rfl, hword⟩
    · rintro ⟨rfl, hword⟩
      exact ⟨hword, rfl⟩
  | _ => simp [word?]

variable {H : Type} {d : Declaration} {handler : Option H} {c : Command H}

/-- A command that a declaration gives has the name that is declared, in upper case, and the parameters. -/
theorem parts_of_command (h : d.command handler = .ok c) :
    ∃ name, word? d.name = some name ∧ c.signature.name = upper name ∧
      Parameter.parseAll d.params = .ok c.signature.params := by
  unfold command at h
  split at h
  · rename_i signature handler hsignature
    cases h
    unfold Declaration.signature at hsignature
    split at hsignature
    · cases hsignature
    · next name hname =>
      split at hsignature
      · obtain ⟨ps, hps, hsignature⟩ := bind_eq_ok_iff.mp hsignature
        cases hsignature
        exact ⟨name, hname, rfl, hps⟩
      · cases hsignature
  · cases h
  · cases h

theorem optionalsTrail (h : d.command handler = .ok c) : Parameter.OptionalsTrail c.signature.params := by
  obtain ⟨-, -, -, hparams⟩ := parts_of_command h
  exact Parameter.optionalsTrail_of_parseAll hparams

end Declaration

namespace Signature

open Parameter

variable {s : Signature} {env : Environment} {p : Parameter} {ps : List Parameter} {arg v : Value}
  {args vs : List Value} {given position i : Nat} {r : Reason}

/-! ## One argument -/

/-- What a parameter gets for an argument: the value of the variable that the argument refers to, or the
argument itself if it is no reference or the parameter asks for references. -/
inductive Supplies (env : Environment) (p : Parameter) (arg : Value) : Value → Prop
  | itself (h : arg.isReference = true → p.acceptsReference = true) : Supplies env p arg arg
  | stored {v : Value} (hreference : arg.isReference = true) (hp : p.acceptsReference = false)
      (hname : arg.datum.isWritable = true) (h : env.get? arg.datum.plain = some v) : Supplies env p arg v

/-- The argument is a reference that leads nowhere, and the parameter asks for the value: the variable has none,
or the reference has no name that could be written. -/
inductive Dangles (env : Environment) (p : Parameter) (arg : Value) : Reason → Prop
  | unset (hreference : arg.isReference = true) (hp : p.acceptsReference = false)
      (hname : arg.datum.isWritable = true) (h : env.get? arg.datum.plain = none) :
      Dangles env p arg (.unresolved arg.shown)
  | nameless (hreference : arg.isReference = true) (hp : p.acceptsReference = false)
      (h : arg.datum.isWritable = false) : Dangles env p arg .nameless

/-- What the parameter gets for the argument exists and has a type that the parameter accepts. -/
def Suits (env : Environment) (p : Parameter) (arg v : Value) : Prop :=
  Supplies env p arg v ∧ p.accepts v.type = true

theorem resolveFor_eq_ok_iff : resolveFor p env arg = .ok v ↔ Supplies env p arg v := by
  unfold resolveFor
  constructor
  · intro h
    split at h
    case isTrue hstored =>
      obtain ⟨hreference, hp⟩ := Bool.and_eq_true_iff.mp hstored
      obtain ⟨hname, h⟩ := Environment.resolve_eq_ok_iff.mp h
      exact .stored hreference (by simpa using hp) hname h
    case isFalse hitself =>
      cases h
      exact .itself fun hreference => by simpa [hreference] using hitself
  · rintro (h | ⟨hreference, hp, hname, h⟩)
    · rw [if_neg]
      cases hreference : arg.isReference with
      | true => simp [h hreference]
      | false => simp
    · rw [if_pos (by simp [hreference, hp])]
      exact Environment.resolve_eq_ok_iff.mpr ⟨hname, h⟩

theorem resolveFor_eq_error_iff : resolveFor p env arg = .error r ↔ Dangles env p arg r := by
  unfold resolveFor
  constructor
  · intro h
    split at h
    case isTrue hstored =>
      obtain ⟨hreference, hp⟩ := Bool.and_eq_true_iff.mp hstored
      have hp : p.acceptsReference = false := by simpa using hp
      rcases Environment.resolve_eq_error_iff.mp h with ⟨hname, rfl⟩ | ⟨hname, hget, rfl⟩
      · exact .nameless hreference hp hname
      · exact .unset hreference hp hname hget
    case isFalse => cases h
  · rintro (⟨hreference, hp, hname, hget⟩ | ⟨hreference, hp, hname⟩)
    · rw [if_pos (by simp [hreference, hp])]
      exact Environment.resolve_eq_error_iff.mpr (.inr ⟨hname, hget, rfl⟩)
    · rw [if_pos (by simp [hreference, hp])]
      exact Environment.resolve_eq_error_iff.mpr (.inl ⟨hname, rfl⟩)

theorem Supplies.unique {w : Value} (hv : Supplies env p arg v) (hw : Supplies env p arg w) : v = w := by
  have h := (resolveFor_eq_ok_iff.mpr hv).symm.trans (resolveFor_eq_ok_iff.mpr hw)
  cases h
  rfl

theorem Supplies.not_dangles (hv : Supplies env p arg v) : ¬ Dangles env p arg r := fun h => by
  have h := (resolveFor_eq_ok_iff.mpr hv).symm.trans (resolveFor_eq_error_iff.mpr h)
  cases h

/-! ## Positions at fault -/

/-- The argument in a place suits the parameter in the same place. -/
def SuitsAt (env : Environment) (ps : List Parameter) (args : List Value) (i : Nat) : Prop :=
  ∃ p arg v, ps[i]? = some p ∧ args[i]? = some arg ∧ Suits env p arg v

/-- Why the place `i` of these parameters and arguments is at fault, for a command to which `given` arguments
are given and whose parameters from the position `position` on these are.  A place with a parameter and an
argument is at fault by itself.  The place behind all parameters is at fault if an argument stands there, and
the place behind all arguments if it takes more of them to serve the required parameters. -/
inductive FaultAt (s : Signature) (env : Environment) (given position : Nat) (ps : List Parameter)
    (args : List Value) : Nat → Reason → Prop
  | unresolved {i : Nat} {p : Parameter} {arg : Value} {r : Reason} (hp : ps[i]? = some p)
      (harg : args[i]? = some arg) (h : Dangles env p arg r) : FaultAt s env given position ps args i r
  | mismatch {i : Nat} {p : Parameter} {arg v : Value} (hp : ps[i]? = some p) (harg : args[i]? = some arg)
      (hv : Supplies env p arg v) (h : p.accepts v.type = false) :
      FaultAt s env given position ps args i (.mismatch s.name (position + i) p.describe v.type)
  | tooMany (h : ps.length < args.length) :
      FaultAt s env given position ps args ps.length (.tooMany s.name s.most given)
  | tooFew (h : args.length < required ps) :
      FaultAt s env given position ps args args.length (.tooFew s.name s.least given)

/-- The first place at fault is `i`, for the reason `r`. -/
def FirstFault (s : Signature) (env : Environment) (given position : Nat) (ps : List Parameter)
    (args : List Value) (i : Nat) (r : Reason) : Prop :=
  FaultAt s env given position ps args i r ∧ ∀ j < i, SuitsAt env ps args j

@[simp] theorem suitsAt_zero :
    SuitsAt env (p :: ps) (arg :: args) 0 ↔ ∃ v, Suits env p arg v := by
  simp [SuitsAt]

@[simp] theorem suitsAt_succ :
    SuitsAt env (p :: ps) (arg :: args) (i + 1) ↔ SuitsAt env ps args i := by
  simp [SuitsAt]

theorem faultAt_zero_iff :
    FaultAt s env given position (p :: ps) (arg :: args) 0 r ↔
      Dangles env p arg r ∨
      ∃ v, Supplies env p arg v ∧ p.accepts v.type = false ∧
        r = .mismatch s.name position p.describe v.type := by
  constructor
  · intro h
    -- The place is an index of `FaultAt`, so it is made a variable before the cases.
    generalize hi : 0 = i at h
    cases h with
    | unresolved hp harg h =>
      subst hi
      cases hp
      cases harg
      exact .inl h
    | mismatch hp harg hv h =>
      subst hi
      cases hp
      cases harg
      exact .inr ⟨_, hv, h, rfl⟩
    | tooMany => cases hi
    | tooFew => cases hi
  · rintro (h | ⟨v, hv, h, rfl⟩)
    · exact .unresolved rfl rfl h
    · exact .mismatch rfl rfl hv h

theorem faultAt_succ_iff (htrail : OptionalsTrail (p :: ps)) :
    FaultAt s env given position (p :: ps) (arg :: args) (i + 1) r ↔
      FaultAt s env given (position + 1) ps args i r := by
  have hposition : position + (i + 1) = position + 1 + i := by omega
  constructor
  · intro h
    generalize hj : i + 1 = j at h
    cases h with
    | unresolved hp harg h =>
      subst hj
      exact .unresolved hp harg h
    | mismatch hp harg hv h =>
      subst hj
      rw [hposition]
      exact .mismatch hp harg hv h
    | tooMany h =>
      obtain rfl : i = ps.length := Nat.succ.inj hj
      exact .tooMany (Nat.succ_lt_succ_iff.mp h)
    | tooFew h =>
      obtain rfl : i = args.length := Nat.succ.inj hj
      exact .tooFew ((succ_lt_required htrail _).mp h)
  · intro h
    cases h with
    | unresolved hp harg h => exact .unresolved hp harg h
    | mismatch hp harg hv h =>
      rw [← hposition]
      exact .mismatch hp harg hv h
    | tooMany h => exact .tooMany (Nat.succ_lt_succ h)
    | tooFew h => exact .tooFew ((succ_lt_required htrail _).mpr h)

/-- If what the first parameter gets suits it, the first fault is one of the rest. -/
theorem firstFault_cons_iff (htrail : OptionalsTrail (p :: ps)) (hv : Suits env p arg v) :
    (∃ i, FirstFault s env given position (p :: ps) (arg :: args) i r) ↔
      ∃ i, FirstFault s env given (position + 1) ps args i r := by
  constructor
  · rintro ⟨i, hfault, hbefore⟩
    cases i with
    | zero =>
      rcases faultAt_zero_iff.mp hfault with hdangles | ⟨w, hw, hrefused, -⟩
      · exact absurd hdangles hv.1.not_dangles
      · rw [hw.unique hv.1, hv.2] at hrefused
        cases hrefused
    | succ i =>
      exact ⟨i, (faultAt_succ_iff htrail).mp hfault,
        fun j hj => suitsAt_succ.mp (hbefore (j + 1) (Nat.succ_lt_succ hj))⟩
  · rintro ⟨i, hfault, hbefore⟩
    refine ⟨i + 1, (faultAt_succ_iff htrail).mpr hfault, fun j hj => ?_⟩
    cases j with
    | zero => exact suitsAt_zero.mpr ⟨v, hv⟩
    | succ j => exact suitsAt_succ.mpr (hbefore j (Nat.lt_of_succ_lt_succ hj))

/-- If nothing suits the first parameter, that is the first fault. -/
theorem firstFault_head_iff (hnone : ∀ v, ¬ Suits env p arg v) :
    (∃ i, FirstFault s env given position (p :: ps) (arg :: args) i r) ↔
      FaultAt s env given position (p :: ps) (arg :: args) 0 r := by
  constructor
  · rintro ⟨i, hfault, hbefore⟩
    cases i with
    | zero => exact hfault
    | succ i =>
      obtain ⟨v, hv⟩ := suitsAt_zero.mp (hbefore 0 (Nat.succ_pos i))
      exact absurd hv (hnone v)
  · exact fun hfault => ⟨0, hfault, nofun⟩

/-! ## All arguments -/

theorem bindFrom_cons_eq_ok_iff :
    s.bindFrom env given position (p :: ps) (arg :: args) = .ok vs ↔
      ∃ v rest, Suits env p arg v ∧ s.bindFrom env given (position + 1) ps args = .ok rest ∧
        vs = v :: rest := by
  constructor
  · intro h
    obtain ⟨v, hv, h⟩ := bind_eq_ok_iff.mp h
    by_cases haccepts : p.accepts v.type = true
    · rw [if_pos haccepts] at h
      obtain ⟨rest, hrest, h⟩ := bind_eq_ok_iff.mp h
      cases h
      exact ⟨v, rest, ⟨resolveFor_eq_ok_iff.mp hv, haccepts⟩, hrest, rfl⟩
    · rw [if_neg haccepts] at h
      cases h
  · rintro ⟨v, rest, ⟨hv, haccepts⟩, hrest, rfl⟩
    refine bind_eq_ok_iff.mpr ⟨v, resolveFor_eq_ok_iff.mpr hv, ?_⟩
    rw [if_pos haccepts]
    exact bind_eq_ok_iff.mpr ⟨rest, hrest, rfl⟩

theorem bindFrom_cons_eq_error_iff :
    s.bindFrom env given position (p :: ps) (arg :: args) = .error r ↔
      FaultAt s env given position (p :: ps) (arg :: args) 0 r ∨
      ∃ v, Suits env p arg v ∧ s.bindFrom env given (position + 1) ps args = .error r := by
  rw [faultAt_zero_iff]
  constructor
  · intro h
    rcases bind_eq_error_iff.mp h with hresolve | ⟨v, hv, h⟩
    · exact .inl (.inl (resolveFor_eq_error_iff.mp hresolve))
    · rw [resolveFor_eq_ok_iff] at hv
      by_cases haccepts : p.accepts v.type = true
      · rw [if_pos haccepts] at h
        rcases bind_eq_error_iff.mp h with hrest | ⟨rest, -, h⟩
        · exact .inr ⟨v, ⟨hv, haccepts⟩, hrest⟩
        · cases h
      · rw [if_neg haccepts] at h
        cases h
        exact .inl (.inr ⟨v, hv, by simpa using haccepts, rfl⟩)
  · rintro ((h | ⟨v, hv, hrefused, rfl⟩) | ⟨v, ⟨hv, haccepts⟩, hrest⟩)
    · exact bind_eq_error_iff.mpr (.inl (resolveFor_eq_error_iff.mpr h))
    · refine bind_eq_error_iff.mpr (.inr ⟨v, resolveFor_eq_ok_iff.mpr hv, ?_⟩)
      rw [if_neg (by simp [hrefused])]
    · refine bind_eq_error_iff.mpr (.inr ⟨v, resolveFor_eq_ok_iff.mpr hv, ?_⟩)
      rw [if_pos haccepts]
      exact bind_eq_error_iff.mpr (.inl hrest)

/-- What arguments are refused for, in whatever order the parameters stand: one leads nowhere or has a type that is
not accepted, or there are too many or too few. -/
inductive Refusal (env : Environment) (args : List Value) : Reason → Prop
  | dangles {p : Parameter} {arg : Value} {r : Reason} (hmem : arg ∈ args) (h : Dangles env p arg r) :
      Refusal env args r
  | mismatch (command : String) (position : Nat) (expected type : String) :
      Refusal env args (.mismatch command position expected type)
  | tooMany (command : String) (most given : Nat) : Refusal env args (.tooMany command most given)
  | tooFew (command : String) (least given : Nat) : Refusal env args (.tooFew command least given)

theorem Refusal.cons (h : Refusal env args r) (arg : Value) : Refusal env (arg :: args) r := by
  cases h with
  | dangles hmem h => exact .dangles (.tail _ hmem) h
  | mismatch => exact .mismatch ..
  | tooMany => exact .tooMany ..
  | tooFew => exact .tooFew ..

theorem refusal_of_bindFrom (h : s.bindFrom env given position ps args = .error r) : Refusal env args r := by
  induction ps generalizing position args with
  | nil =>
    cases args with
    | nil => cases h
    | cons =>
      cases h
      exact .tooMany ..
  | cons p ps ih =>
    cases args with
    | nil =>
      simp only [bindFrom] at h
      split at h <;> cases h
      exact .tooFew ..
    | cons arg args =>
      rcases bindFrom_cons_eq_error_iff.mp h with hfault | ⟨v, -, hrest⟩
      · rcases faultAt_zero_iff.mp hfault with hdangles | ⟨v, -, -, rfl⟩
        · exact .dangles (.head _) hdangles
        · exact .mismatch ..
      · exact (ih hrest).cons arg

/-- The values are what the parameters get for the arguments, one for each argument, and no required parameter
is left. -/
structure Bound (env : Environment) (ps : List Parameter) (args vs : List Value) : Prop where
  enough : required ps ≤ args.length
  few : args.length ≤ ps.length
  length_eq : vs.length = args.length
  suits (i : Nat) (p : Parameter) (arg v : Value) : ps[i]? = some p → args[i]? = some arg →
    vs[i]? = some v → Suits env p arg v

theorem bound_nil_iff : Bound env ps [] vs ↔ required ps = 0 ∧ vs = [] := by
  constructor
  · intro h
    exact ⟨Nat.le_zero.mp h.enough, List.length_eq_zero_iff.mp h.length_eq⟩
  · rintro ⟨hrequired, rfl⟩
    exact ⟨Nat.le_of_eq hrequired, Nat.zero_le _, rfl, nofun⟩

theorem bound_cons_iff (htrail : OptionalsTrail (p :: ps)) :
    Bound env (p :: ps) (arg :: args) vs ↔
      ∃ v rest, Suits env p arg v ∧ Bound env ps args rest ∧ vs = v :: rest := by
  have hrequired := succ_lt_required htrail args.length
  constructor
  · intro h
    cases vs with
    | nil => cases h.length_eq
    | cons v rest =>
      refine ⟨v, rest, h.suits 0 p arg v rfl rfl rfl,
        ⟨?_, Nat.le_of_succ_le_succ h.few, Nat.succ.inj h.length_eq,
          fun i => h.suits (i + 1)⟩, rfl⟩
      have henough : required (p :: ps) ≤ args.length + 1 := h.enough
      omega
  · rintro ⟨v, rest, hv, h, rfl⟩
    refine ⟨?_, Nat.succ_le_succ h.few, congrArg Nat.succ h.length_eq, fun i => ?_⟩
    · have henough := h.enough
      simp only [List.length_cons]
      omega
    · cases i with
      | zero =>
        rintro p arg v ⟨⟩ ⟨⟩ ⟨⟩
        exact hv
      | succ i => exact h.suits i

/-- Binding succeeds with the values that are bound. -/
theorem bindFrom_eq_ok_iff (htrail : OptionalsTrail ps) :
    s.bindFrom env given position ps args = .ok vs ↔ Bound env ps args vs := by
  induction args generalizing ps position vs with
  | nil =>
    rw [bound_nil_iff]
    cases ps with
    | nil => simp [bindFrom, required, eq_comm]
    | cons p ps =>
      unfold bindFrom
      cases hp : p.optional with
      | true => simp [(required_eq_zero htrail hp).1, eq_comm]
      | false => simp [required_cons hp]
  | cons arg args ih =>
    cases ps with
    | nil => exact ⟨nofun, fun h => absurd h.few (Nat.not_succ_le_zero _)⟩
    | cons p ps =>
      -- Here the order of the parameters counts: the rest needs as many arguments as all do, less one.
      rw [bindFrom_cons_eq_ok_iff, bound_cons_iff htrail]
      simp only [ih (List.pairwise_cons.mp htrail).2]

/-- Binding fails for the reason of the first place at fault. -/
theorem bindFrom_eq_error_iff (htrail : OptionalsTrail ps) :
    s.bindFrom env given position ps args = .error r ↔
      ∃ i, FirstFault s env given position ps args i r := by
  induction args generalizing ps position with
  | nil =>
    -- the only place there may be is the one in front of everything
    have hnone : (∃ i, FirstFault s env given position ps [] i r) ↔
        0 < required ps ∧ r = .tooFew s.name s.least given := by
      constructor
      · rintro ⟨i, hfault, -⟩
        cases hfault with
        | unresolved hp harg h => cases harg
        | mismatch hp harg hv h => cases harg
        | tooMany h => cases h
        | tooFew h => exact ⟨h, rfl⟩
      · rintro ⟨h, rfl⟩
        exact ⟨0, .tooFew h, nofun⟩
    rw [hnone]
    cases ps with
    | nil => simp [bindFrom, required]
    | cons p ps =>
      unfold bindFrom
      cases hp : p.optional with
      | true => simp [(required_eq_zero htrail hp).1]
      | false => simp [required_cons hp, eq_comm]
  | cons arg args ih =>
    cases ps with
    | nil =>
      constructor
      · rintro ⟨⟩
        exact ⟨0, .tooMany (Nat.succ_pos _), nofun⟩
      · rintro ⟨i, hfault, -⟩
        cases hfault with
        | unresolved hp harg h => cases hp
        | mismatch hp harg hv h => cases hp
        | tooMany h => rfl
        | tooFew h => cases h
    | cons p ps =>
      rw [bindFrom_cons_eq_error_iff]
      by_cases hsuits : ∃ v, Suits env p arg v
      · obtain ⟨v, hv⟩ := hsuits
        rw [firstFault_cons_iff htrail hv, ← ih (List.pairwise_cons.mp htrail).2]
        constructor
        · rintro (hfault | ⟨-, -, hrest⟩)
          · rcases faultAt_zero_iff.mp hfault with hdangles | ⟨w, hw, hrefused, -⟩
            · exact absurd hdangles hv.1.not_dangles
            · rw [hw.unique hv.1, hv.2] at hrefused
              cases hrefused
          · exact hrest
        · exact fun hrest => .inr ⟨v, hv, hrest⟩
      · rw [firstFault_head_iff (not_exists.mp hsuits)]
        exact or_iff_left fun ⟨v, hv, _⟩ => hsuits ⟨v, hv⟩

/-- There are values to bind exactly if the number of arguments is allowed and each suits. -/
theorem exists_bound_iff :
    (∃ vs, Bound env ps args vs) ↔
      required ps ≤ args.length ∧ args.length ≤ ps.length ∧ ∀ i < args.length, SuitsAt env ps args i := by
  constructor
  · rintro ⟨vs, h⟩
    refine ⟨h.enough, h.few, fun i hi => ?_⟩
    have hps := List.getElem?_eq_getElem (Nat.lt_of_lt_of_le hi h.few)
    have hargs := List.getElem?_eq_getElem hi
    have hvs := List.getElem?_eq_getElem (h.length_eq ▸ hi)
    exact ⟨_, _, _, hps, hargs, h.suits i _ _ _ hps hargs hvs⟩
  · rintro ⟨henough, hfew, hsuits⟩
    -- Each place has a value of its own to bind; the list is made of these.
    choose p arg v hps hargs hv using hsuits
    refine ⟨List.ofFn fun i : Fin args.length => v i i.2, henough, hfew, List.length_ofFn, ?_⟩
    intro i p' arg' v' hp' harg' hv'
    obtain ⟨hi, -⟩ := List.getElem?_eq_some_iff.mp harg'
    rw [hps i hi] at hp'
    rw [hargs i hi] at harg'
    rw [List.getElem?_ofFn, dif_pos hi] at hv'
    cases hp'
    cases harg'
    cases hv'
    exact hv i hi

/-- The code of a fault tells its kind: an argument, the number of arguments beyond the greatest, or their
number below the least. -/
theorem FaultAt.code (h : FaultAt s env given position ps args i r) :
    (i < args.length ∧ i < ps.length ∧ ¬ SuitsAt env ps args i ∧
      (r.code = ErrorCode.unknownVariable.toInt ∨ r.code = ErrorCode.typeMismatch.toInt)) ∨
    (i = ps.length ∧ ps.length < args.length ∧ r.code = ErrorCode.tooManyArguments.toInt) ∨
    (i = args.length ∧ args.length < required ps ∧ r.code = ErrorCode.tooFewArguments.toInt) := by
  cases h with
  | unresolved hp harg h =>
    refine .inl ⟨(List.getElem?_eq_some_iff.mp harg).1, (List.getElem?_eq_some_iff.mp hp).1, ?_,
      .inl (by cases h <;> rfl)⟩
    rintro ⟨q, b, w, hq, hb, hw⟩
    cases hp.symm.trans hq
    cases harg.symm.trans hb
    exact hw.1.not_dangles h
  | mismatch hp harg hv h =>
    refine .inl ⟨(List.getElem?_eq_some_iff.mp harg).1, (List.getElem?_eq_some_iff.mp hp).1, ?_, .inr rfl⟩
    rintro ⟨q, b, w, hq, hb, hw⟩
    cases hp.symm.trans hq
    cases harg.symm.trans hb
    rw [hv.unique hw.1, hw.2] at h
    cases h
  | tooMany h => exact .inr (.inl ⟨rfl, h, rfl⟩)
  | tooFew h => exact .inr (.inr ⟨rfl, h, rfl⟩)

/-- **What binding comes to for a command that a declaration gives.**  It succeeds with exactly the lists that
have, in each place, what the parameter gets for the argument, provided that the number of arguments is
allowed and the parameter accepts what it gets.  It fails for exactly the reason of the first place at fault:
an argument that leads nowhere or has a type that is not accepted, the first argument too many when all that
have a parameter suit, or the first one missing when all that are given suit. -/
theorem bind_of_command {H : Type} {d : Declaration} {handler : Option H} {c : Command H}
    (h : d.command handler = .ok c) (env : Environment) (args : List Value) :
    (∀ vs : List Value, c.signature.bind env args = .ok vs ↔
      c.signature.least ≤ args.length ∧ args.length ≤ c.signature.most ∧ vs.length = args.length ∧
      ∀ (i : Nat) (p : Parameter) (arg v : Value),
        c.signature.params[i]? = some p → args[i]? = some arg → vs[i]? = some v →
        Supplies env p arg v ∧ p.accepts v.type = true) ∧
    ((∃ vs, c.signature.bind env args = .ok vs) ↔
      c.signature.least ≤ args.length ∧ args.length ≤ c.signature.most ∧
      ∀ i < args.length, SuitsAt env c.signature.params args i) ∧
    (∀ r, c.signature.bind env args = .error r ↔
      ∃ i, FaultAt c.signature env args.length 1 c.signature.params args i r ∧
        ∀ j < i, SuitsAt env c.signature.params args j) ∧
    ∀ i r, FaultAt c.signature env args.length 1 c.signature.params args i r →
      (i < args.length ∧ i < c.signature.most ∧ ¬ SuitsAt env c.signature.params args i ∧
        (r.code = ErrorCode.unknownVariable.toInt ∨ r.code = ErrorCode.typeMismatch.toInt)) ∨
      (i = c.signature.most ∧ c.signature.most < args.length ∧
        r.code = ErrorCode.tooManyArguments.toInt) ∨
      (i = args.length ∧ args.length < c.signature.least ∧
        r.code = ErrorCode.tooFewArguments.toInt) := by
  have htrail := d.optionalsTrail h
  have hok (vs : List Value) : c.signature.bind env args = .ok vs ↔ Bound env c.signature.params args vs :=
    bindFrom_eq_ok_iff htrail
  refine ⟨fun vs => ?_, ?_, fun r => bindFrom_eq_error_iff htrail, fun i r => FaultAt.code⟩
  · rw [hok]
    exact ⟨fun h => ⟨h.enough, h.few, h.length_eq, h.suits⟩,
      fun ⟨henough, hfew, hlength, hsuits⟩ => ⟨henough, hfew, hlength, hsuits⟩⟩
  · simp only [hok]
    exact exists_bound_iff

/-- A command that takes the name of a variable and, if it is given, a value. -/
def putting : Command Unit :=
  ⟨⟨"PUT", [⟨["variable"], false, "variable"⟩, ⟨["any"], true, "?any"⟩], "", true, "any"⟩, ()⟩

/-- A reference to a variable. -/
def dollarX : Value := ⟨"variable", .text "$x", none⟩

/-- A variable named where a name is asked for stays, and where a value is asked for it is replaced, or refused
if it has none. -/
theorem bind_of_command_putting :
    Declaration.command ⟨.text "put", ["Variable", " ?any"], "", true, "Any"⟩ (some ()) = .ok putting ∧
    (∃ vs, putting.signature.bind (({} : Environment).set "$x" ⟨"bool", .bool true, none⟩)
      [dollarX, dollarX] = .ok vs) ∧
    putting.signature.bind {} [dollarX, dollarX] = .error (.unresolved "$x") := by
  have hdeclared : Declaration.command ⟨.text "put", ["Variable", " ?any"], "", true, "Any"⟩ (some ()) =
      .ok putting := by with_unfolding_all rfl
  have hvalue : (({} : Environment).set "$x" ⟨"bool", .bool true, none⟩).get? "$x" =
      some ⟨"bool", .bool true, none⟩ := by
    rw [Environment.get?, Environment.set, OrderedMap.get?_set, if_pos rfl]
  refine ⟨hdeclared, ?_, ?_⟩
  · obtain ⟨-, hbinds, -⟩ := bind_of_command hdeclared
      (({} : Environment).set "$x" ⟨"bool", .bool true, none⟩) [dollarX, dollarX]
    refine hbinds.mpr ⟨by decide, by decide, fun i hi => ?_⟩
    match i, hi with
    | 0, _ => exact ⟨_, _, _, rfl, rfl, .itself fun _ => rfl, rfl⟩
    | 1, _ => exact ⟨_, _, _, rfl, rfl, .stored rfl rfl rfl hvalue, rfl⟩
  · obtain ⟨-, -, hfails, -⟩ := bind_of_command hdeclared {} [dollarX, dollarX]
    refine (hfails (.unresolved dollarX.shown)).mpr ⟨1, .unresolved rfl rfl (.unset rfl rfl rfl rfl), fun j hj => ?_⟩
    match j, hj with
    | 0, _ => exact ⟨_, _, _, rfl, rfl, .itself fun _ => rfl, rfl⟩

end Signature

end CommandBatch
