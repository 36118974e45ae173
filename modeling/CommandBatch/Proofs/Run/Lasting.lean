import CommandBatch.Proofs.Run.Blame
import CommandBatch.Proofs.Run.Failing
import CommandBatch.Proofs.Run.Hooks
import CommandBatch.Proofs.Run.Raising
import CommandBatch.Proofs.Run.Sharing

/-!
# What lasts

A property of engines lasts if it depends only on what an engine keeps from one line to the next and on the
failures that it has noted or announced, and if neither a request breaks it that a command, a hook, a step rule
or the function for the code of a run comes to, nor a failure of a line.  Then nothing that a run does breaks it,
from one operation of the run to the next, whatever lines it runs (`Lasting.carryOut`), and it holds at every
moment of every sequence of runs on one engine (`Lasting.after`).

Which reasons there are for lines to fail is a matter of the engine as well: what its commands are refused for
and what their handlers raise.  They are the reasons that a property has to put up with.

Unlike what belongs to a run (`Steadfast`), such a property does not need the engine to be busy: commands
may start runs of their own, and others may use the engine in the waits of a run, as long as they leave
the property alone.
-/

namespace CommandBatch

variable {σ α β : Type}

/-- The process keeps the property.  Others may do anything in its waits that keeps it too. -/
abbrev Process.Maintains (I : Engine σ → Prop) (p : Process σ α) : Prop :=
  p.Upholds (fun _ => I) I

namespace Engine

open Act Process Run

/-- What an engine carries from one line to the next: how it was set up, its services and its variables, and
the arguments at hand. -/
def carried (e : Engine σ) : Setup σ × Services σ × Environment × List Value :=
  (e.setup, e.services, e.env, e.progress.args)

/-- The failures that an engine has announced, and the one that it has noted last. -/
def failures (e : Engine σ) : List Failure := e.errors.filterMap Prod.snd ++ e.progress.failure.toList

/-- Nothing that an engine does with its functions breaks the property, which depends only on what the
engine keeps and on its failures.  Its lines fail for reasons that are met with. -/
structure Lasting (allowed : Request σ → Prop) (met : Reason → Prop) (I : Engine σ → Prop) : Prop
    extends Withstands allowed I where
  same : ∀ e e₁, I e → e₁.carried = e.carried → e₁.failures ⊆ e.failures → I e₁
  cleared : ∀ e progress, I e → progress.args = [] → progress.failure = none → I { e with progress }
  failing : ∀ e r text, I e → met r → I (failing r text e)
  reads : ∀ text, (Engine.interpret text).Preserves I
  hooks : ∀ e, I e → e.services.hooks.Asks allowed
  callback : ∀ e script code, I e → e.setup.onCompletion = some script → (script code).Asks allowed
  refused : ∀ e r, I e → e.Refuses r → met r
  answered : ∀ command answer, met (answerReason command answer)
  calls : ∀ e command args, I e → e.services.commands.find? e.progress.command = some command →
    command.signature.bind e.env e.progress.args = .ok args →
    (command.handler args).Asks allowed ∧
      (command.handler args).Raises fun fault => fault ≠ .cancelled → met (faultReason e.progress.command fault)

variable {allowed : Request σ → Prop} {met : Reason → Prop} {I : Engine σ → Prop}

/-! ## The operations of a run -/

theorem failures_push {e : Engine σ} {r : Record} (h : r.error? = none) :
    failures { e with transcript := e.transcript.push r } ⊆ e.failures := by
  rw [failures, errors_push h]
  exact List.Subset.refl _

/-- Only the failure at hand is announced as one. -/
theorem failures_announcing {n : Notice} {e : Engine σ}
    (hn : ∀ code failure, n = .onError code failure → failure = e.progress.failure) :
    (announcing n e).failures ⊆ e.failures := by
  intro f hf
  have hprogress : (announcing n e).progress.failure = e.progress.failure := by cases n <;> rfl
  rw [failures, errors_announcing, hprogress, List.filterMap_append, List.append_assoc] at hf
  rcases List.mem_append.mp hf with hf | hf
  · exact List.mem_append_left _ hf
  · refine List.mem_append_right _ ?_
    rcases List.mem_append.mp hf with hf | hf
    · cases n with
      | onError code failure =>
        rw [hn code failure rfl] at hf
        simpa [Record.error?] using hf
      | _ => cases hf
    · exact hf

theorem Lasting.progressBy (h : Lasting allowed met I) (f : Progress → Progress)
    (hargs : ∀ p, (f p).args = p.args) (hfailure : ∀ p, (f p).failure = p.failure) :
    (progressBy f : Act σ Unit).Preserves I := fun e he =>
  h.same e _ he (by simp [carried, hargs]) (by simp [failures, errors, hfailure])

theorem Lasting.record (h : Lasting allowed met I) {r : Record} (hr : r.error? = none) :
    (record r : Act σ Unit).Preserves I :=
  fun e he => h.same e _ he rfl (failures_push hr)

theorem Lasting.announce (h : Lasting allowed met I) (n : Notice) {e : Engine σ} (he : I e)
    (hn : ∀ code failure, n = .onError code failure → failure = e.progress.failure) :
    (Engine.announce n).Ensures (fun _ => I) (fun _ => I) e :=
  h.toWithstands.announce (fun e _ _ he => h.same e _ he rfl (failures_push rfl)) (h.hooks e he)
    (h.same e _ he (by cases n <;> rfl) (failures_announcing hn))

theorem Lasting.logStep (h : Lasting allowed met I) (index : Nat) (text : String) (code : Int) :
    (logStep index text code).Preserves I := fun e he =>
  h.toWithstands.logStep (fun e _ he => h.same e _ he rfl (failures_push rfl)) (h.hooks e he)
    (h.same e _ he rfl (List.Subset.refl _)) (fun _ he => he) fun _ => he

theorem Lasting.openLine (h : Lasting allowed met I) (index : Nat) (text : String) :
    (openLine index text).Preserves I :=
  (h.progressBy (fun p => { p with index := some index }) (fun _ => rfl) fun _ => rfl).bind fun _ =>
    Preserves.bind (fun _ he => h.announce (.beforeLine index text) he nofun) fun _ => h.reads text

theorem Lasting.closeLine (h : Lasting allowed met I) (index : Nat) (text : String) (code : Int) :
    (closeLine index text code).Preserves I := by
  intro e he
  have hafter (e₁ : Engine σ) (he₁ : I e₁) : (Engine.announce (.afterLine index text code)).Ensures
      (fun _ e₂ => if code = 0 then I e₂ else
        (Engine.announce (.onError code e₂.progress.failure)).Ensures (fun _ => I) (fun _ => I) e₂)
      (fun _ => I) e₁ := by
    refine (h.announce (.afterLine index text code) he₁ nofun).mono (fun _ e₂ he₂ => ?_) fun _ _ he => he
    by_cases hcode : code = 0
    · rw [if_pos hcode]
      exact he₂
    · rw [if_neg hcode]
      refine h.announce _ he₂ fun _ _ hn => ?_
      cases hn
      rfl
  have hclose := ensures_closing (P := I) (h.logStep index text code e he) hafter
  exact hclose.mono (fun _ _ he => he.2) fun _ _ he => he

theorem Lasting.complete (h : Lasting allowed met I) (code : Int) : (complete code).Preserves I :=
  (h.progressBy (fun p => { p with code }) (fun _ => rfl) fun _ => rfl).bind fun _ =>
    Preserves.bind (fun _ he => h.announce (.batchEnd code) he nofun) fun _ =>
      (h.record (r := .completed code) rfl).bind fun _ => fun e he =>
        h.toWithstands.callBack (fun script hscript => h.callback e script code he hscript) he

theorem Lasting.enter (h : Lasting allowed met I) : (enter : Act σ Unit).Preserves I := by
  refine preserves_iff.mpr fun e he => ?_
  cases hbusy : e.busy with
  | true =>
    rw [enter_of_busy hbusy]
    exact he
  | false =>
    rw [enter_of_idle hbusy]
    have hcleared := h.cleared e (entered e).progress he rfl rfl
    exact h.same _ _ hcleared rfl (List.Subset.refl _)

theorem Lasting.openBatch (h : Lasting allowed met I) (lines : List String) (cursor : Int) :
    (openBatch lines cursor).Preserves I :=
  (h.progressBy (fun p => { p with batch := lines, cursor }) (fun _ => rfl) fun _ => rfl).bind fun _ =>
    fun _ he => h.announce (.batchStart lines) he nofun

/-! ## Runs -/

variable {go : Task → Process σ Int}

theorem Lasting.execute (h : Lasting allowed met I) (hgo : ∀ t, Process.Maintains I (go t)) :
    Process.Maintains I (execute go) := fun e he => by
  refine ensures_execute_cases (fun _ => he)
    (fun r hr => ensures_refuse (fun _ => h.failing e r _ he (h.refused e r he hr)) he)
    fun command args _ hfind hbind => ?_
  obtain ⟨hasks, hraises⟩ := h.calls e command args he hfind hbind
  have hplay := h.toWithstands.playOut (fun _ _ _ he => he) (fun t _ => hgo t) (command.handler args) hasks e he
  refine (hplay.and (hraises _ go e)).mono (fun _ h => h.1) (fun answer e₁ h₁ => ?_) fun fault e₁ h₁ => ?_
  · refine ensures_outcomeCode h₁.1 (fun answer _ => h.failing e₁ _ _ h₁.1 (h.answered _ answer)) nofun
      fun _ _ => h₁.1
  · refine ensures_outcomeCode h₁.1 nofun (fun fault hfault hcancelled => ?_) fun _ _ => h₁.1
    cases hfault
    exact h.failing e₁ _ _ h₁.1 (h₁.2 hcancelled)

theorem Lasting.step (h : Lasting allowed met I) (hgo : ∀ t, Process.Maintains I (go t)) (index : Nat)
    (text : String) : Process.Maintains I (step go index text) :=
  upholds_step (h.openLine index text) (h.execute hgo) (h.closeLine index text)

theorem Lasting.during (h : Lasting allowed met I) {x : Process σ Int} (hx : Process.Maintains I x) :
    Process.Maintains I (during x) := by
  refine (upholds_ofAct h.enter).bind fun _ => Upholds.bind (fun e he => ensures_releasing ?_) fun code =>
    upholds_ofAct (h.complete code)
  exact (hx e he).mono (fun _ he => he) (fun _ e₁ he => h.same e₁ _ he rfl (List.Subset.refl _))
    fun _ e₁ he => h.same e₁ _ he rfl (List.Subset.refl _)

/-- **No task breaks a property that lasts**, by induction on the tasks inside one another. -/
theorem Lasting.carryOut (h : Lasting allowed met I) (fuel : Nat) (t : Task) :
    Process.Maintains I (carryOut fuel t) := by
  induction fuel generalizing t with
  | zero => exact fun _ he => .exhausted he
  | succ fuel ih =>
    cases t with
    | execute => exact h.execute ih
    | runLine line =>
      exact h.during ((upholds_ofAct (h.openBatch [line] 1)).bind fun _ => h.step ih 0 line)
    | runBatch lines =>
      refine h.during ((upholds_ofAct (h.openBatch lines 0)).bind fun _ => ?_)
      exact upholds_proceed (fun index e he => h.same e _ he rfl (List.Subset.refl _)) (h.step ih) fuel

end Engine

/-! ## Sequences of runs -/

namespace Scene

open Engine

/-- The engine has the property, and no job that waits breaks it. -/
structure Maintains (I : Engine σ → Prop) (s : Scene σ) : Prop where
  engine : I s.engine
  waits : ∀ (i : Nat) next, s.jobs[i]? = some (.waiting next) → ∀ signal,
    Process.Maintains I (next signal)

variable {allowed : Request σ → Prop} {met : Reason → Prop} {I : Engine σ → Prop}

theorem Maintains.turn (h : Lasting allowed met I) {s : Scene σ} (hs : s.Maintains I) (fuel i : Nat)
    (signal : Signal) : (s.turn fuel (i, signal)).Maintains I := by
  cases hjob : s.jobs[i]? with
  | none =>
    rw [turn_of_finished (by rw [hjob]; rfl)]
    exact hs
  | some job =>
    cases hturn : job.turn? fuel signal with
    | none =>
      rw [turn_of_finished (by rw [hjob]; exact hturn)]
      exact hs
    | some go =>
      rw [turn_eq hjob hturn]
      have hgo : Process.Maintains I go := by
        cases job with
        | fresh start =>
          cases signal with
          | resume =>
            cases hturn
            exact h.carryOut (fuel + 1) start.task
          | cancel =>
            cases hturn
            exact fun _ he => .error he
        | waiting next =>
          cases hturn
          exact hs.waits i next hjob signal
        | lost => cases hturn
        | finished outcome => cases hturn
      have hrun := hgo s.engine hs.engine
      generalize go s.engine = run at hrun
      refine ⟨?_, fun j next hnext => ?_⟩
      · cases hrun <;> assumption
      · by_cases hj : i = j
        · subst hj
          rw [List.getElem?_set_self (List.getElem?_eq_some_iff.mp hjob).1] at hnext
          cases hrun with
          | ok | error | exhausted => cases hnext
          | waiting _ hgoes =>
            cases hnext
            exact fun signal e he => hgoes signal e he
        · rw [List.getElem?_set_ne hj] at hnext
          exact hs.waits j next hnext

theorem Maintains.after (h : Lasting allowed met I) {s : Scene σ} (hs : s.Maintains I) (fuel : Nat)
    (turns : List (Nat × Signal)) : (s.after fuel turns).Maintains I := by
  induction turns generalizing s with
  | nil => exact hs
  | cons t turns ih => exact ih (hs.turn h fuel t.1 t.2)

theorem maintains_start {e : Engine σ} (he : I e) (starts : List Start) :
    (Scene.start e starts).Maintains I := by
  refine ⟨he, fun i next hnext => ?_⟩
  obtain ⟨start, hstart⟩ := fresh_of_start hnext
  cases hstart

end Scene

/-- **A property that lasts holds at every moment**, whatever runs are started on an engine that has it
and in whatever turns they go on. -/
theorem Engine.Lasting.after {allowed : Request σ → Prop} {met : Reason → Prop} {I : Engine σ → Prop}
    (h : Lasting allowed met I) {e : Engine σ} (he : I e) (fuel : Nat) (starts : List Start)
    (turns : List (Nat × Signal)) : I ((Scene.start e starts).after fuel turns).engine :=
  ((Scene.maintains_start he starts).after h fuel turns).engine

end CommandBatch
