import CommandBatch.Proofs.Run.Batch

/-!
# Runs among others

While a run waits, others use the engine.  `EndsAmid others` says how a run can end when `others` is
what may have happened to the engine in each of its waits, and when each wait may be told to stop.  A
run whose waits pass with nothing happening (`Ends`) is the special case (`endsAmid_of_result?`).

`Ensures` is the rule by which all of this is proved: whatever others do, the run waits only on engines
of a kind, and ends only with results of a kind.  Each combinator of operations has one lemma, which
says what is left to show for its parts; a batch is settled line by line (`ensures_proceed`).
-/

namespace CommandBatch

open Engine

variable {σ α β : Type}

namespace Run

/-- The run comes to this end when `others` is what may happen to the engine while it waits. -/
inductive EndsAmid (others : Engine σ → Engine σ → Prop) :
    Run σ α → EStateM.Result Fault (Engine σ) α → Prop
  | ended (r : EStateM.Result Fault (Engine σ) α) : EndsAmid others (.ended r) r
  | waiting {e e₁ : Engine σ} {w : Wait} {next : Signal → Engine σ → Run σ α} {signal : Signal}
      {r : EStateM.Result Fault (Engine σ) α} (hothers : others e e₁)
      (hnext : EndsAmid others (next signal e₁) r) : EndsAmid others (.waiting e w next) r

/-- Whatever others do, the run waits on engines of the kind `W`, and ends with `P` or with a fault and
`F`.  A run that is exhausted has stopped on an engine of the kind `W` as well. -/
inductive Ensures (others : Engine σ → Engine σ → Prop) (W : Engine σ → Prop)
    (P : α → Engine σ → Prop) (F : Fault → Engine σ → Prop) : Run σ α → Prop
  | ok {a : α} {e : Engine σ} (h : P a e) : Ensures others W P F (.ended (.ok a e))
  | error {fault : Fault} {e : Engine σ} (h : F fault e) :
      Ensures others W P F (.ended (.error fault e))
  | waiting {e : Engine σ} {w : Wait} {next : Signal → Engine σ → Run σ α} (h : W e)
      (hnext : ∀ signal e₁, others e e₁ → Ensures others W P F (next signal e₁)) :
      Ensures others W P F (.waiting e w next)
  | exhausted {e : Engine σ} (h : W e) : Ensures others W P F (.exhausted e)

variable {others others' : Engine σ → Engine σ → Prop} {W W' : Engine σ → Prop}
  {P P' : α → Engine σ → Prop} {F F' : Fault → Engine σ → Prop}

theorem Ensures.mono {run : Run σ α} (h : run.Ensures others W P F) (hW : ∀ e, W e → W' e)
    (hP : ∀ a e, P a e → P' a e) (hF : ∀ fault e, F fault e → F' fault e) :
    run.Ensures others W' P' F' := by
  induction h with
  | ok h => exact .ok (hP _ _ h)
  | error h => exact .error (hF _ _ h)
  | waiting h _ ih => exact .waiting (hW _ h) ih
  | exhausted h => exact .exhausted (hW _ h)

/-- What is ensured twice over is ensured together. -/
theorem Ensures.and {run : Run σ α} (h : run.Ensures others W P F) (h' : run.Ensures others W' P' F') :
    run.Ensures others (fun e => W e ∧ W' e) (fun a e => P a e ∧ P' a e)
      fun fault e => F fault e ∧ F' fault e := by
  induction h with
  | ok h =>
    cases h' with
    | ok h' => exact .ok ⟨h, h'⟩
  | error h =>
    cases h' with
    | error h' => exact .error ⟨h, h'⟩
  | waiting h _ ih =>
    cases h' with
    | waiting h' hnext' => exact .waiting ⟨h, h'⟩ fun signal e₁ hmet => ih signal e₁ hmet (hnext' signal e₁ hmet)
  | exhausted h =>
    cases h' with
    | exhausted h' => exact .exhausted ⟨h, h'⟩

theorem Ensures.andThen {run : Run σ α} {Q : β → Engine σ → Prop} {G : Fault → Engine σ → Prop}
    {next : EStateM.Result Fault (Engine σ) α → Run σ β} (h : run.Ensures others W P F)
    (hok : ∀ a e, P a e → (next (.ok a e)).Ensures others W Q G)
    (herror : ∀ fault e, F fault e → (next (.error fault e)).Ensures others W Q G) :
    (run.andThen next).Ensures others W Q G := by
  induction h with
  | ok h => exact hok _ _ h
  | error h => exact herror _ _ h
  | waiting h _ ih => exact .waiting h ih
  | exhausted h => exact .exhausted h

theorem EndsAmid.mono {run : Run σ α} {r : EStateM.Result Fault (Engine σ) α}
    (h : run.EndsAmid others r) (hothers : ∀ e e₁, others e e₁ → others' e e₁) :
    run.EndsAmid others' r := by
  induction h with
  | ended r => exact .ended r
  | waiting h _ ih => exact .waiting (hothers _ _ h) ih

/-- Less may happen in the waits than what the run is ensured for. -/
theorem Ensures.among {run : Run σ α} (h : run.Ensures others W P F)
    (hothers : ∀ e e₁, W e → others' e e₁ → others e e₁) : run.Ensures others' W P F := by
  induction h with
  | ok h => exact .ok h
  | error h => exact .error h
  | waiting h _ ih => exact .waiting h fun signal e₁ hmet => ih signal e₁ (hothers _ _ h hmet)
  | exhausted h => exact .exhausted h

/-- A run ends as it can end. -/
theorem ensures_endsAmid (others : Engine σ → Engine σ → Prop) (run : Run σ α) :
    run.Ensures others (fun _ => True) (fun a e => run.EndsAmid others (.ok a e))
      fun fault e => run.EndsAmid others (.error fault e) := by
  induction run with
  | ended r =>
    cases r with
    | ok a e => exact .ok (.ended _)
    | error fault e => exact .error (.ended _)
  | waiting e w next ih =>
    exact .waiting trivial fun signal e₁ hmet => (ih signal e₁).mono (fun _ h => h)
      (fun _ _ h => .waiting hmet h) fun _ _ h => .waiting hmet h
  | exhausted e => exact .exhausted trivial

theorem Ensures.of_ok {run : Run σ α} {a : α} {e : Engine σ} (h : run.Ensures others W P F)
    (hends : run.EndsAmid others (.ok a e)) : P a e := by
  generalize hr : EStateM.Result.ok a e = r at hends
  induction hends with
  | ended r =>
    subst hr
    cases h with
    | ok h => exact h
  | waiting hothers _ ih =>
    cases h with
    | waiting _ hnext => exact ih (hnext _ _ hothers) hr

theorem Ensures.of_error {run : Run σ α} {fault : Fault} {e : Engine σ}
    (h : run.Ensures others W P F) (hends : run.EndsAmid others (.error fault e)) : F fault e := by
  generalize hr : EStateM.Result.error fault e = r at hends
  induction hends with
  | ended r =>
    subst hr
    cases h with
    | error h => exact h
  | waiting hothers _ ih =>
    cases h with
    | waiting _ hnext => exact ih (hnext _ _ hothers) hr

/-- Where nothing has to happen in a wait, a run that ends undisturbed is one that ends among
others. -/
theorem endsAmid_of_result? (hrefl : ∀ e, others e e) (run : Run σ α)
    {r : EStateM.Result Fault (Engine σ) α} (h : run.result? = some r) : run.EndsAmid others r := by
  induction run with
  | ended r' =>
    cases h
    exact .ended r
  | waiting e w next ih => exact .waiting (hrefl e) (ih .resume e h)
  | exhausted e => cases h

end Run

/-- Carried out on this engine, the operation ends with `P` or with a fault and `F`. -/
def Act.Ensures (act : Act σ α) (P : α → Engine σ → Prop) (F : Fault → Engine σ → Prop)
    (e : Engine σ) : Prop :=
  match act e with
  | .ok a e₁ => P a e₁
  | .error fault e₁ => F fault e₁

namespace Act

variable {P P' : α → Engine σ → Prop} {Q : β → Engine σ → Prop} {F F' : Fault → Engine σ → Prop}

theorem Ensures.mono {act : Act σ α} {e : Engine σ} (h : act.Ensures P F e)
    (hP : ∀ a e₁, P a e₁ → P' a e₁) (hF : ∀ fault e₁, F fault e₁ → F' fault e₁) :
    act.Ensures P' F' e := by
  unfold Ensures at h ⊢
  cases hr : act e <;> rw [hr] at h
  · exact hP _ _ h
  · exact hF _ _ h

theorem Ensures.and {act : Act σ α} {e : Engine σ} (h : act.Ensures P F e) (h' : act.Ensures P' F' e) :
    act.Ensures (fun a e₁ => P a e₁ ∧ P' a e₁) (fun fault e₁ => F fault e₁ ∧ F' fault e₁) e := by
  unfold Ensures at h h' ⊢
  cases hr : act e <;> rw [hr] at h h' <;> exact ⟨h, h'⟩

theorem ensures_bind {x : Act σ α} {f : α → Act σ β} {e : Engine σ}
    (h : x.Ensures (fun a e₁ => (f a).Ensures Q F e₁) F e) : (x >>= f).Ensures Q F e := by
  unfold Ensures at h ⊢
  rw [bind_apply]
  cases hr : x e <;> rw [hr] at h <;> exact h

/-- Whether the answer is looked at makes no difference to the engine. -/
theorem ensures_discard {act : Act σ α} {I J : Engine σ → Prop} {e : Engine σ}
    (h : act.Ensures (fun _ => I) (fun _ => J) e) :
    (discard act : Act σ Unit).Ensures (fun _ => I) (fun _ => J) e := by
  unfold Ensures at h ⊢
  rw [discard_apply]
  cases hr : act e <;> rw [hr] at h <;> exact h

/-- An operation has the outcome that it has. -/
theorem ensures_eq (act : Act σ α) (e : Engine σ) :
    act.Ensures (fun a e₁ => act e = .ok a e₁) (fun fault e₁ => act e = .error fault e₁) e := by
  unfold Ensures
  cases act e <;> rfl

/-- What holds either way holds of the engine that is left behind. -/
theorem ensures_iff {act : Act σ α} {I : Engine σ → Prop} {e : Engine σ} :
    act.Ensures (fun _ => I) (fun _ => I) e ↔ I (engineOf (act e)) := by
  unfold Ensures
  cases act e <;> exact Iff.rfl

end Act

namespace Process

open Run

variable {others : Engine σ → Engine σ → Prop} {W : Engine σ → Prop} {P : α → Engine σ → Prop}
  {Q : β → Engine σ → Prop} {F : Fault → Engine σ → Prop}

theorem ensures_ofAct {act : Act σ α} {e : Engine σ} (h : act.Ensures P F e) :
    (ofAct act e).Ensures others W P F := by
  show (Run.ended (act e)).Ensures others W P F
  unfold Act.Ensures at h
  cases hr : act e <;> rw [hr] at h
  · exact .ok h
  · exact .error h

theorem ensures_pure {a : α} {e : Engine σ} (h : P a e) :
    ((pure a : Process σ α) e).Ensures others W P F := .ok h

/-- The second operation goes on where the first has succeeded. -/
theorem ensures_bind {x : Process σ α} {f : α → Process σ β} {e : Engine σ}
    (h : (x e).Ensures others W (fun a e₁ => (f a e₁).Ensures others W Q F) F) :
    ((x >>= f) e).Ensures others W Q F :=
  h.andThen (fun _ _ h => h) fun _ _ h => .error h

theorem ensures_attempt {x : Process σ α} {P : Except Fault α → Engine σ → Prop} {e : Engine σ}
    (h : (x e).Ensures others W (fun a => P (.ok a)) fun fault => P (.error fault)) :
    (x.attempt e).Ensures others W P F :=
  h.andThen (fun _ _ h => .ok h) fun _ _ h => .ok h

theorem ensures_releasing {x : Process σ α} {e : Engine σ}
    (h : (x e).Ensures others W (fun a e₁ => P a (freed e₁)) fun fault e₁ => F fault (freed e₁)) :
    (x.releasing e).Ensures others W P F :=
  h.andThen (fun _ _ h => .ok h) fun _ _ h => .error h

theorem ensures_wait {w : Wait} {P : Unit → Engine σ → Prop} {e : Engine σ} (h : W e)
    (hresume : ∀ e₁, others e e₁ → P () e₁) (hcancel : ∀ e₁, others e e₁ → F .cancelled e₁) :
    (wait w e).Ensures others W P F := by
  refine .waiting h fun signal e₁ hothers => ?_
  cases signal with
  | resume => exact .ok (hresume e₁ hothers)
  | cancel => exact .error (hcancel e₁ hothers)

end Process

namespace Engine

open Run Process

variable {others : Engine σ → Engine σ → Prop} {W : Engine σ → Prop} {P : Int → Engine σ → Prop}
  {F : Fault → Engine σ → Prop} {go : Task → Process σ Int}

/-- The engine that has noted a failure. -/
def failing (r : Reason) (text : String) (e : Engine σ) : Engine σ :=
  { e with progress := { e.progress with failure := some ⟨r, e.progress.index, some text⟩ } }

theorem fail_eq (r : Reason) (text : String) (e : Engine σ) :
    fail r text e = .ok r.code (failing r text e) := rfl

/-- What becomes of the outcome of a handler: it is the code 0, or a failure is noted, or a fault comes
through. -/
theorem outcomeCode_cases (command text : String) (outcome : Except Fault Datum) (e : Engine σ) :
    outcomeCode command text outcome e = .ok 0 e ∨
      (∃ r, outcomeCode command text outcome e = .ok r.code (failing r text e)) ∨
        ∃ fault : Fault, fault.ComesThrough ∧ outcomeCode command text outcome e = .error fault e := by
  cases outcome with
  | error fault =>
    cases fault with
    | cancelled => exact .inr (.inr ⟨_, .cancelled, rfl⟩)
    | _ => exact .inr (.inl ⟨_, rfl⟩)
  | ok answer =>
    by_cases hnothing : answer = .nothing
    · exact .inl (by rw [hnothing]; rfl)
    · by_cases hwhole : ∃ code, answer = .whole code
      · obtain ⟨code, rfl⟩ := hwhole
        by_cases hcode : code = 0
        · exact .inl (by simp [outcomeCode, answerCode, hcode])
        · exact .inr (.inl ⟨.answeredCode command code, by simp [outcomeCode, answerCode, hcode, fail_eq]⟩)
      · have hanswer := answerCode_eq hnothing (not_exists.mp hwhole) command text e
        by_cases hwritable : answer.isWritable = true
        · exact .inr (.inl ⟨_, hanswer.trans (if_pos hwritable)⟩)
        · exact .inr (.inr ⟨_, .unwritable, hanswer.trans (if_neg hwritable)⟩)

/-- The line at hand is refused before a handler is called: its command is not there, or its arguments do not
fit the parameters. -/
inductive Refuses (e : Engine σ) : Reason → Prop
  | unknown (hname : e.progress.command ≠ "")
      (hfind : e.services.commands.find? e.progress.command = none) :
      Refuses e (.unknownCommand e.progress.command)
  | unbound {command : Command (Handler σ)} {r : Reason} (hname : e.progress.command ≠ "")
      (hfind : e.services.commands.find? e.progress.command = some command)
      (hbind : command.signature.bind e.env e.progress.args = .error r) : Refuses e r

theorem ensures_refuse {r : Reason} {text : String} {e : Engine σ}
    (hfail : r ≠ .nameless → P r.code (failing r text e)) (hthrough : F (.ofConversion .unwritable) e) :
    (refuse r text).Ensures P F e := by
  unfold Act.Ensures
  by_cases hr : r = .nameless
  · rw [hr, refuse_nameless]
    exact hthrough
  · rw [refuse_of_ne hr, fail_eq]
    exact hfail hr

theorem execute_of_refuses {e : Engine σ} {r : Reason} (h : e.Refuses r) :
    execute go e = .ended (refuse r e.progress.text e) := by
  cases h with
  | unknown hname hfind => simp only [execute, if_neg hname, hfind, refuse]
  | unbound hname hfind hbind => simp only [execute, if_neg hname, hfind, hbind]

/-- **The execution of a line calls at most one handler.**  It is settled by what becomes of a line without a
command, of one that is refused, and of the outcome of a handler that is called. -/
theorem ensures_execute_cases {e : Engine σ} (hblank : e.progress.command = "" → P 0 e)
    (hrefused : ∀ r, e.Refuses r → (refuse r e.progress.text).Ensures P F e)
    (hcall : ∀ command args, e.progress.command ≠ "" →
      e.services.commands.find? e.progress.command = some command →
      command.signature.bind e.env e.progress.args = .ok args →
      (playOut go (command.handler args) e).Ensures others W
        (fun answer => (outcomeCode e.progress.command e.progress.text (.ok answer)).Ensures P F)
        fun fault => (outcomeCode e.progress.command e.progress.text (.error fault)).Ensures P F) :
    (execute go e).Ensures others W P F := by
  by_cases hname : e.progress.command = ""
  · simp only [execute, if_pos hname]
    exact .ok (hblank hname)
  · cases hfind : e.services.commands.find? e.progress.command with
    | none =>
      have hrefuses : e.Refuses _ := .unknown hname hfind
      rw [execute_of_refuses hrefuses]
      exact ensures_ofAct (hrefused _ hrefuses)
    | some command =>
      cases hbind : command.signature.bind e.env e.progress.args with
      | error r =>
        have hrefuses : e.Refuses r := .unbound hname hfind hbind
        rw [execute_of_refuses hrefuses]
        exact ensures_ofAct (hrefused _ hrefuses)
      | ok args =>
        simp only [execute, if_neg hname, hfind, hbind]
        exact ensures_bind (ensures_attempt ((hcall command args hname hfind hbind).mono (fun _ h => h)
          (fun _ _ h => ensures_ofAct h) fun _ _ h => ensures_ofAct h))

/-- What holds of the engine in front of a line and behind its handler holds where the line ends, but for the
failure that may be noted. -/
theorem ensures_execute {I : Engine σ → Prop} {e : Engine σ} (hI : I e)
    (hcall : ∀ command args, e.services.commands.find? e.progress.command = some command →
      command.signature.bind e.env e.progress.args = .ok args →
      (playOut go (command.handler args) e).Ensures others W (fun _ => I) fun _ => I)
    (hok : ∀ e₁, I e₁ → P 0 e₁)
    (hfail : ∀ r e₁, I e₁ → P r.code (failing r e.progress.text e₁))
    (hthrough : ∀ (fault : Fault) e₁, fault.ComesThrough → I e₁ → F fault e₁) :
    (execute go e).Ensures others W P F := by
  have hend (outcome : Except Fault Datum) (e₁ : Engine σ) (h : I e₁) :
      (outcomeCode e.progress.command e.progress.text outcome).Ensures P F e₁ := by
    unfold Act.Ensures
    rcases outcomeCode_cases e.progress.command e.progress.text outcome e₁ with
      hr | ⟨r, hr⟩ | ⟨fault, hfault, hr⟩ <;> rw [hr]
    · exact hok e₁ h
    · exact hfail r e₁ h
    · exact hthrough fault e₁ hfault h
  exact ensures_execute_cases (fun _ => hok e hI)
    (fun r _ => ensures_refuse (fun _ => hfail r e hI) (hthrough _ e .unwritable hI))
    fun command args _ hfind hbind => (hcall command args hfind hbind).mono (fun _ h => h)
      (fun answer => hend (.ok answer)) fun fault => hend (.error fault)

/-- A batch is settled by what holds between its lines. -/
theorem ensures_proceed {K : Engine σ → Prop}
    (hline : ∀ e index text, K e → nextLine? e.progress = some (index, text) →
      (step go index text (passing index e)).Ensures others W
        (fun code e₁ => if code = 0 then K e₁ else P code e₁) F)
    (hwait : ∀ e, K e → W e) (hend : ∀ e, K e → nextLine? e.progress = none → P 0 e) (lines : Nat)
    {e : Engine σ} (h : K e) : (proceed go lines e).Ensures others W P F := by
  induction lines generalizing e with
  | zero => exact .exhausted (hwait e h)
  | succ lines ih =>
    unfold proceed
    cases hnext : nextLine? e.progress with
    | none => exact .ok (hend e h hnext)
    | some line =>
      obtain ⟨index, text⟩ := line
      refine ensures_bind (.ok (ensures_bind ?_))
      refine (hline e index text h hnext).mono (fun _ h => h) (fun code e₁ hcode => ?_) fun _ _ h => h
      by_cases hzero : code = 0
      · rw [if_pos hzero] at hcode ⊢
        exact ih hcode
      · rw [if_neg hzero] at hcode ⊢
        exact ensures_pure hcode

/-- A run on an engine that is free is its operation on the engine that it enters, and what it comes to
once that is done. -/
theorem ensures_during {x : Process σ Int} {e : Engine σ} (hidle : e.busy = false)
    (h : (x (entered e)).Ensures others W
      (fun code e₁ => (ofAct (complete code) (freed e₁)).Ensures others W P F)
      fun fault e₁ => F fault (freed e₁)) : (during x e).Ensures others W P F := by
  refine ensures_bind ?_
  show (Run.ended (enter e)).Ensures others W _ F
  rw [enter_of_idle hidle]
  exact .ok (ensures_bind (ensures_releasing h))

/-- **A run is settled by its parts**: how it opens its batch, what its lines come to from one to the next,
and how it is completed. -/
theorem ensures_run {L : Int → Engine σ → Prop} {G : Fault → Engine σ → Prop} {t : Task}
    {e : Engine σ} {fuel : Nat} (hrun : t ≠ .execute) (hidle : e.busy = false)
    (hopen : ∀ lines cursor, (openBatch lines cursor).Ensures (fun _ => L 0) G (entered e))
    (hpassing : ∀ index e₁, L 0 e₁ → L 0 (passing index e₁))
    (hstep : ∀ index text e₁, L 0 e₁ → (step (carryOut fuel) index text e₁).Ensures others W L G)
    (hwait : ∀ e₁, L 0 e₁ → W e₁)
    (hcomplete : ∀ code e₁, L code e₁ → (complete code).Ensures P F (freed e₁))
    (hfault : ∀ fault e₁, G fault e₁ → F fault (freed e₁)) :
    (carryOut (fuel + 1) t e).Ensures others W P F := by
  have hduring (x : Process σ Int) (hx : (x (entered e)).Ensures others W L G) :
      (during x e).Ensures others W P F :=
    ensures_during hidle (hx.mono (fun _ h => h) (fun code e₁ h => ensures_ofAct (hcomplete code e₁ h))
      hfault)
  cases t with
  | execute => exact absurd rfl hrun
  | runLine line =>
    exact hduring _ (ensures_bind (ensures_ofAct ((hopen [line] 1).mono (fun _ => hstep 0 line)
      fun _ _ h => h)))
  | runBatch lines =>
    refine hduring _ (ensures_bind (ensures_ofAct ((hopen lines 0).mono (fun _ e₁ h₁ => ?_)
      fun _ _ h => h)))
    refine ensures_proceed (K := L 0) (fun e₂ index text h₂ _ => ?_) hwait (fun _ h₂ _ => h₂) fuel h₁
    refine (hstep index text _ (hpassing index e₂ h₂)).mono (fun _ h => h) (fun code e₃ h₃ => ?_)
      fun _ _ h => h
    by_cases hzero : code = 0
    · rw [if_pos hzero]
      exact hzero ▸ h₃
    · rw [if_neg hzero]
      exact h₃

theorem ensures_during_of_busy {x : Process σ Int} {e : Engine σ} (hbusy : e.busy = true)
    (h : F .alreadyRunning e) : (during x e).Ensures others W P F := by
  refine ensures_bind ?_
  show (Run.ended (enter e)).Ensures others W _ F
  rw [enter_of_busy hbusy]
  exact .error h

end Engine

end CommandBatch
