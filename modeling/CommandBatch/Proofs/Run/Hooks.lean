import CommandBatch.Proofs.Run.Requests

/-!
# What hooks and step rules are told

An announcement is written down and then played to the hooks of its event, one after the other, up to
the first that breaks off (`callHooks_eq_ok_iff`, `callHooks_eq_error_iff`); step rules fire in the same
way when a step has been logged, and the host is told the code of a run.  So what their scripts keep is
kept by all of them, from the engine on that has written the announcement down (`Withstands.announce`) or
has logged the step (`Withstands.logStep`).  Together they make up the end of a line (`ensures_closing`).
-/

namespace CommandBatch

variable {σ α : Type}

/-- All hooks and step rules ask only for what is allowed. -/
structure HookRegistry.Asks (allowed : Request σ → Prop)
    (r : HookRegistry (Notice → Script σ) (StepContext → Script σ)) : Prop where
  hooks : ∀ hook ∈ r.hooks, ∀ n, (hook.handler n).Asks allowed
  rules : ∀ rule ∈ r.rules, ∀ c, (rule.handler c).Asks allowed

theorem HookRegistry.asks_of_all {allowed : Request σ → Prop} (h : ∀ request, allowed request)
    (r : HookRegistry (Notice → Script σ) (StepContext → Script σ)) : r.Asks allowed :=
  ⟨fun hook _ n => Script.asks_of_all h (hook.handler n),
    fun rule _ c => Script.asks_of_all h (rule.handler c)⟩

namespace Engine

open Act

variable {allowed : Request σ → Prop} {I : Engine σ → Prop}

theorem preserves_record {r : Record}
    (h : ∀ e, I e → I { e with transcript := e.transcript.push r }) :
    (record r : Act σ Unit).Preserves I := h

theorem ensures_guarded {act : Act σ Unit} {I F : Engine σ → Prop} {e : Engine σ}
    (h : act.Ensures (fun _ => I) (fun _ => F) e) (wrap : String → ExtensionError) :
    (guarded wrap act).Ensures (fun _ => I) (fun _ => F) e := by
  unfold Ensures guarded at *
  cases hr : act e <;> rw [hr] at h <;> exact h

theorem preserves_guarded {act : Act σ Unit} (h : act.Preserves I) (wrap : String → ExtensionError) :
    (guarded wrap act).Preserves I := fun e he => ensures_guarded (h e he) wrap

theorem Withstands.callHooks (h : Withstands allowed I)
    (hcalled : ∀ e number n, I e → I { e with transcript := e.transcript.push (.hookCalled number n) })
    (n : Notice) {hooks : List (Hook (Notice → Script σ))}
    (hasks : ∀ hook ∈ hooks, ∀ n, (hook.handler n).Asks allowed) :
    (callHooks n hooks).Preserves I := by
  induction hooks with
  | nil => exact preserves_pure _
  | cons hook hooks ih =>
    have hplay (shown : Notice) := h.play (hook.handler shown) (hasks hook (List.mem_cons_self ..) shown)
    have hrest := ih fun other hmem => hasks other (List.mem_cons_of_mem _ hmem)
    refine fun e he => ensures_bind ?_
    exact ((preserves_record fun e he => hcalled e _ _ he).bind fun _ =>
      (hplay _).discard.bind fun _ => hrest) e he

theorem Withstands.fireRules (h : Withstands allowed I) {c : StepContext}
    (hfired : ∀ e number, I e → I { e with transcript := e.transcript.push (.ruleFired number c) })
    {rules : List (StepRule (StepContext → Script σ))}
    (hasks : ∀ rule ∈ rules, ∀ c, (rule.handler c).Asks allowed) :
    (fireRules c rules).Preserves I := by
  induction rules with
  | nil => exact preserves_pure _
  | cons rule rules ih =>
    have hplay := h.play (rule.handler c) (hasks rule (List.mem_cons_self ..) c)
    have hrest := ih fun other hmem => hasks other (List.mem_cons_of_mem _ hmem)
    exact (preserves_record fun e he => hfired e _ he).bind fun _ =>
      hplay.discard.bind fun _ => hrest

/-! ### One call after the other -/

/-- The engine on which a hook is about to be called. -/
def telling (n : Notice) (hook : Hook (Notice → Script σ)) (e : Engine σ) : Engine σ :=
  { e with transcript := e.transcript.push (.hookCalled hook.number (asShown n e.progress)) }

/-- What becomes of a hook that is called with a notice. -/
def callOf (n : Notice) (hook : Hook (Notice → Script σ)) (e : Engine σ) :
    EStateM.Result Fault (Engine σ) Datum :=
  play (hook.handler (asShown n e.progress)) (telling n hook e)

/-- The hooks are called with a notice one after the other, and all of them come back. -/
inductive InTurn (n : Notice) : Engine σ → List (Hook (Notice → Script σ)) → Engine σ → Prop
  | nil (e : Engine σ) : InTurn n e [] e
  | cons {hook : Hook (Notice → Script σ)} {hooks : List (Hook (Notice → Script σ))} {answer : Datum}
      {e e₁ e₂ : Engine σ} (hcall : callOf n hook e = .ok answer e₁) (hrest : InTurn n e₁ hooks e₂) :
      InTurn n e (hook :: hooks) e₂

section Calls
variable {n : Notice} {hooks : List (Hook (Notice → Script σ))} {e e₁ : Engine σ} {fault : Fault}

theorem callHooks_cons (n : Notice) (hook : Hook (Notice → Script σ))
    (hooks : List (Hook (Notice → Script σ))) (e : Engine σ) :
    callHooks n (hook :: hooks) e =
      match callOf n hook e with
      | .ok _ e₁ => callHooks n hooks e₁
      | .error fault e₁ => .error fault e₁ := by
  show (discard (play (hook.handler (asShown n e.progress))) >>= fun _ => callHooks n hooks)
    (telling n hook e) = _
  rw [bind_apply, discard_apply, callOf]
  cases play (hook.handler (asShown n e.progress)) (telling n hook e) <;> rfl

theorem callHooks_eq_ok_iff : callHooks n hooks e = .ok () e₁ ↔ InTurn n e hooks e₁ := by
  induction hooks generalizing e with
  | nil =>
    constructor
    · intro h
      cases h
      exact .nil _
    · intro h
      cases h
      rfl
  | cons hook hooks ih =>
    rw [callHooks_cons]
    constructor
    · intro h
      cases hcall : callOf n hook e with
      | ok answer e₂ =>
        rw [hcall] at h
        exact .cons hcall (ih.mp h)
      | error fault e₂ =>
        rw [hcall] at h
        cases h
    · intro h
      cases h with
      | cons hcall hrest =>
        rw [hcall]
        exact ih.mpr hrest

/-- The first hook that raises is the last that is called. -/
theorem callHooks_eq_error_iff :
    callHooks n hooks e = .error fault e₁ ↔
      ∃ before hook after e₂, hooks = before ++ hook :: after ∧ InTurn n e before e₂ ∧
        callOf n hook e₂ = .error fault e₁ := by
  induction hooks generalizing e with
  | nil =>
    constructor
    · nofun
    · rintro ⟨before, hook, after, e₂, hnil, -⟩
      exact absurd hnil.symm (List.append_ne_nil_of_right_ne_nil _ (List.cons_ne_nil _ _))
  | cons first hooks ih =>
    rw [callHooks_cons]
    cases hcall : callOf n first e with
    | ok answer e₂ =>
      constructor
      · intro h
        obtain ⟨before, hook, after, e₃, rfl, hbefore, hraises⟩ := ih.mp h
        exact ⟨first :: before, hook, after, e₃, rfl, .cons hcall hbefore, hraises⟩
      · rintro ⟨before, hook, after, e₃, hsplit, hbefore, hraises⟩
        cases hbefore with
        | nil =>
          -- The hook that raises would be the first one, which comes back.
          obtain ⟨rfl, -⟩ := List.cons.inj hsplit
          rw [hcall] at hraises
          cases hraises
        | cons hcall' hrest =>
          obtain ⟨rfl, rfl⟩ := List.cons.inj hsplit
          rw [hcall] at hcall'
          cases hcall'
          exact ih.mpr ⟨_, hook, after, e₃, rfl, hrest, hraises⟩
    | error fault' e₂ =>
      constructor
      · intro h
        cases h
        exact ⟨[], first, hooks, e, rfl, .nil e, hcall⟩
      · rintro ⟨before, hook, after, e₃, hsplit, hbefore, hraises⟩
        cases hbefore with
        | nil =>
          obtain ⟨rfl, -⟩ := List.cons.inj hsplit
          rw [hcall] at hraises
          cases hraises
          rfl
        | cons hcall' hrest =>
          obtain ⟨rfl, -⟩ := List.cons.inj hsplit
          rw [hcall] at hcall'
          cases hcall'

end Calls

/-! ### What is announced and logged -/

/-- The engine when an event has been announced and its hooks are about to be called. -/
def announcing (n : Notice) (e : Engine σ) : Engine σ :=
  { e with
    transcript := e.transcript.push (.announced n)
    progress :=
      match n with
      | .batchStart lines => { e.progress with shownLines := lines }
      | _ => e.progress }

theorem announce_eq (n : Notice) (e : Engine σ) :
    announce n e =
      guarded (.hookFailed n.event.name) (callHooks n (e.services.hooks.hooksFor n.event))
        (announcing n e) := by
  cases n <;> rfl

theorem Withstands.announce (h : Withstands allowed I)
    (hcalled : ∀ e number n, I e → I { e with transcript := e.transcript.push (.hookCalled number n) })
    {n : Notice} {e : Engine σ} (hasks : e.services.hooks.Asks allowed) (he : I (announcing n e)) :
    (announce n).Ensures (fun _ => I) (fun _ => I) e := by
  unfold Ensures
  rw [announce_eq]
  exact preserves_guarded (h.callHooks hcalled n fun hook hmem =>
    hasks.hooks hook (List.mem_filter.mp hmem).1) _ _ he

/-- Everything that the trace says about a step can be written: a verbose engine writes out its variables. -/
def Recordable (e : Engine σ) : Prop := e.setup.verbose = true → e.env.isWritable = true

instance (e : Engine σ) : Decidable e.Recordable := inferInstanceAs (Decidable (_ → _))

/-- What an entry of the trace says about a step that an engine has done. -/
def entryOf (index : Nat) (text : String) (code : Int) (e : Engine σ) : TraceEntry :=
  e.progress.trace.nextEntry (some index) text e.progress.command code
    (if e.setup.verbose then some e.env.snapshot else none)

/-- The engine that has logged a step. -/
def logged (index : Nat) (text : String) (code : Int) (e : Engine σ) : Engine σ :=
  { e with
    progress := { e.progress with trace := e.progress.trace.push (entryOf index text code e) } }

/-- What step rules are told about a step that an engine has done. -/
def contextOf (index : Nat) (code : Int) (e : Engine σ) : StepContext :=
  ⟨e.progress.trace.next, index, e.progress.command, code⟩

theorem noted_of_recordable {e : Engine σ} (h : e.Recordable) :
    noted e = .ok (if e.setup.verbose then some e.env.snapshot else none) := by
  unfold noted
  cases hverbose : e.setup.verbose with
  | false => rfl
  | true => simp [Environment.toSnapshot, h hverbose, Except.map]

theorem noted_of_not_recordable {e : Engine σ} (h : ¬e.Recordable) : noted e = .error .unwritable := by
  obtain ⟨hverbose, hwritable⟩ := Classical.not_imp.mp h
  simp [noted, hverbose, Environment.toSnapshot, hwritable, Except.map]

theorem logStep_of_recordable {e : Engine σ} (h : e.Recordable) (index : Nat) (text : String) (code : Int) :
    logStep index text code e =
      guarded .stepRuleFailed
        (fireRules (contextOf index code e) (e.services.hooks.rulesAt e.progress.trace.next))
        (logged index text code e) := by
  simp only [logStep, bind_apply, get_apply, noted_of_recordable h]
  rfl

/-- Where the variables cannot be written, no step is logged and no rule is fired. -/
theorem logStep_of_not_recordable {e : Engine σ} (h : ¬e.Recordable) (index : Nat) (text : String)
    (code : Int) : logStep index text code e = .error (.ofConversion .unwritable) e := by
  simp only [logStep, bind_apply, get_apply, noted_of_not_recordable h]
  rfl

/-- A step that is logged is followed by step rules, and one that cannot be recorded by nothing. -/
theorem Withstands.logStep (h : Withstands allowed I) {F : Engine σ → Prop} {index : Nat} {text : String}
    {code : Int} {e : Engine σ}
    (hfired : ∀ e₁ number, I e₁ →
      I { e₁ with transcript := e₁.transcript.push (.ruleFired number (contextOf index code e)) })
    (hasks : e.services.hooks.Asks allowed) (hlogged : I (logged index text code e))
    (hbroken : ∀ e₁, I e₁ → F e₁) (hunrecorded : ¬e.Recordable → F e) :
    (logStep index text code).Ensures (fun _ => I) (fun _ => F) e := by
  by_cases hrecordable : e.Recordable
  · unfold Ensures
    rw [logStep_of_recordable hrecordable]
    exact Act.Ensures.mono (preserves_guarded (h.fireRules hfired fun rule hmem =>
      hasks.rules rule (List.mem_filter.mp hmem).1) _ _ hlogged) (fun _ _ h => h) fun _ => hbroken
  · unfold Ensures
    rw [logStep_of_not_recordable hrecordable]
    exact hunrecorded hrecordable

/-- A line ends with its step in the trace and an announcement, and with another one if it has failed;
its code is passed on as it is. -/
theorem ensures_closing {P F : Engine σ → Prop} {index : Nat} {text : String} {code : Int} {e : Engine σ}
    (hlog : (logStep index text code).Ensures (fun _ => I) (fun _ => F) e)
    (hafter : ∀ e₁, I e₁ → (announce (.afterLine index text code)).Ensures
      (fun _ e₂ => if code = 0 then P e₂ else
        (announce (.onError code e₂.progress.failure)).Ensures (fun _ => P) (fun _ => F) e₂)
      (fun _ => F) e₁) :
    (closeLine index text code).Ensures (fun code₁ e₁ => code₁ = code ∧ P e₁) (fun _ => F) e := by
  refine ensures_bind (hlog.mono (fun _ e₁ h₁ => ?_) fun _ _ h => h)
  refine ensures_bind ((hafter e₁ h₁).mono (fun _ e₂ h₂ => ?_) fun _ _ h => h)
  by_cases hcode : code = 0
  · rw [if_pos hcode] at h₂
    rw [if_neg (fun h => h hcode)]
    exact ⟨rfl, h₂⟩
  · rw [if_neg hcode] at h₂
    rw [if_pos hcode]
    exact ensures_bind (ensures_bind (h₂.mono (fun _ _ h₃ => ⟨rfl, h₃⟩) fun _ _ h => h))

/-- The function that the host is told a code by is one more script. -/
theorem Withstands.callBack (h : Withstands allowed I) {code : Int} {e : Engine σ}
    (hasks : ∀ script, e.setup.onCompletion = some script → (script code).Asks allowed) (he : I e) :
    (callBack code).Ensures (fun _ => I) (fun _ => I) e := by
  unfold Ensures
  cases hsetup : e.setup.onCompletion with
  | none =>
    have hcall : Engine.callBack code e = .ok code e := by simp [Engine.callBack, hsetup]
    rw [hcall]
    exact he
  | some script =>
    have hcall : Engine.callBack code e =
        (discard (Engine.play (script code)) >>= fun _ => pure code) e := by
      simp [Engine.callBack, hsetup]
    rw [hcall]
    exact ((h.play (script code) (hasks script hsetup)).discard.bind fun _ => preserves_pure code) e he

end Engine

end CommandBatch
