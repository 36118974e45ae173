import CommandBatch.Proofs.Line.Concatenation
import CommandBatch.Proofs.Run.Lines
import CommandBatch.Token.Defaults

/-!
# What gets out of a run

A run turns faults into codes.  Whatever a handler breaks off with, in whatever way it was called, is
the failure of its line (`execute_error`), and so is what the parser of an argument breaks off with.
Four things are left that come through: a hook or a step rule that breaks off, a type that breaks off
between the first character of an argument and its last, a number with more digits than can be written
where the engine has to write it (`Unwritten`), and the sign that the run is called off (`Escapes`).  An
operation is `Contained` if nothing else comes through and what a run holds on to is
kept; contained operations can be put one after the other, so a batch is contained because its lines
are.

At the end of a run the engine is free again, whatever happened.  Unless the run broke off, its code
has been reported exactly once (`run_ends`).
-/

namespace CommandBatch.Engine

open Act Process

variable {σ α β : Type}

/-- The engine is left with something to write that holds a number with too many digits. -/
inductive Unwritten (e : Engine σ) : Prop
  /-- It is verbose, and the trace takes up its variables. -/
  | variables (h : ¬e.Recordable)
  /-- The line at hand has a reference in its arguments, whose name is asked for. -/
  | name (h : e.Refuses .nameless)
  /-- A handler has answered with data that a failure has to quote. -/
  | answer {command : Command (Handler σ)} {args : List Value} {answer : Datum} {e₀ : Engine σ} {fuel : Nat}
      (hfind : e₀.services.commands.find? e₀.progress.command = some command)
      (hbind : command.signature.bind e₀.env e₀.progress.args = .ok args)
      (hplay : (playOut (carryOut fuel) (command.handler args)).Ends e₀ (.ok answer e))
      (hwhole : ∀ i, answer ≠ .whole i) (hanswer : answer.isWritable = false)

/-- Why a fault comes through, on the engine that it leaves behind. -/
inductive Escapes (hooks : HookRegistry (Notice → Script σ) (StepContext → Script σ)) :
    Fault → Engine σ → Prop
  | hook {fault : Fault} {e : Engine σ} (h : HookRaises hooks fault e) : Escapes hooks fault e
  | unread {fault : Fault} {e : Engine σ} (h : UnreadBy fault e) : Escapes hooks fault e
  | unwritten {e : Engine σ} (h : Unwritten e) : Escapes hooks (.ofConversion .unwritable) e
  | cancelled (e : Engine σ) : Escapes hooks .cancelled e

/-- What a run holds on to is kept, and no fault comes through but by hooks, by types or because the
run is called off. -/
structure Contained (x : Process σ α) : Prop where
  held : x.Keeps held
  escapes : ∀ ⦃e fault e₁⦄, e.busy = true → x.Ends e (.error fault e₁) →
    Escapes e.services.hooks fault e₁

theorem contained_ofAct {act : Act σ α} (hheld : act.Keeps held)
    (h : ∀ ⦃e fault e₁⦄, act e = .error fault e₁ → Escapes e.services.hooks fault e₁) :
    Contained (ofAct act) :=
  ⟨keeps_ofAct hheld, fun _ _ _ _ hr => h (ends_ofAct.mp hr)⟩

theorem contained_pure (a : α) : Contained (pure a : Process σ α) :=
  contained_ofAct (Act.keeps_pure a) fun _ _ _ h => nomatch h

theorem Contained.bind {x : Process σ α} {f : α → Process σ β} (hx : Contained x)
    (hf : ∀ a, Contained (f a)) : Contained (x >>= f) := by
  refine ⟨.bind busy_of_held hx.held fun a => (hf a).held, ?_⟩
  intro e fault e₂ hbusy hr
  rcases ends_bind.mp hr with ⟨a, e₁, h₁, h₂⟩ | ⟨g, e₁, h₁, hg⟩
  · have hheld : e₁.held = e.held := hx.held hbusy h₁
    rw [← hooks_of_held hheld]
    exact (hf a).escapes ((busy_of_held hheld).trans hbusy) h₂
  · cases hg
    exact hx.escapes hbusy h₁

/-! ## Lines and batches -/

theorem answerCode_error {command text : String} {answer : Datum} {fault : Fault} {e e₁ : Engine σ}
    (h : answerCode command text answer e = .error fault e₁) :
    fault = .ofConversion .unwritable ∧ e₁ = e ∧ (∀ i, answer ≠ .whole i) ∧ answer.isWritable = false := by
  by_cases hnothing : answer = .nothing
  · subst hnothing
    cases h
  · by_cases hwhole : ∃ i, answer = .whole i
    · obtain ⟨i, rfl⟩ := hwhole
      simp only [answerCode] at h
      split at h <;> cases h
    · have hwhole := not_exists.mp hwhole
      rw [answerCode_eq hnothing hwhole] at h
      cases hanswer : answer.isWritable with
      | true => simp [hanswer, fail_eq] at h
      | false =>
        rw [hanswer] at h
        cases h
        exact ⟨rfl, rfl, hwhole, rfl⟩

theorem outcomeCode_error {command text : String} {outcome : Except Fault Datum} {fault : Fault}
    {e e₁ : Engine σ} (h : outcomeCode command text outcome e = .error fault e₁) :
    fault = .cancelled ∨ fault = .ofConversion .unwritable ∧ e₁ = e ∧
      ∃ answer, outcome = .ok answer ∧ (∀ i, answer ≠ .whole i) ∧ answer.isWritable = false := by
  cases outcome with
  | ok answer =>
    obtain ⟨hfault, he₁, hanswer⟩ := answerCode_error h
    exact .inr ⟨hfault, he₁, answer, rfl, hanswer⟩
  | error f =>
    cases f with
    | cancelled =>
      cases h
      exact .inl rfl
    | _ => cases h

/-- **No fault of a handler comes through**, unless the run is called off.  What a handler answers and what its
arguments refer to may still be more than can be written. -/
theorem execute_error {fuel : Nat} {fault : Fault} {e e₁ : Engine σ}
    (h : (execute (carryOut fuel)).Ends e (.error fault e₁)) :
    fault = .cancelled ∨ fault = .ofConversion .unwritable ∧ Unwritten e₁ := by
  generalize hr : EStateM.Result.error fault e₁ = r at h
  cases ends_execute.mp h with
  | nothing | unknown => cases hr
  | @unbound command reason hname hfind hbind =>
    by_cases hreason : reason = .nameless
    · subst hreason
      cases hr
      exact .inr ⟨rfl, .name (.unbound hname hfind hbind)⟩
    · rw [refuse_of_ne hreason] at hr
      cases hr
  | called hname hfind hbind hplay =>
    rcases outcomeCode_error hr.symm with hfault | ⟨hfault, rfl, answer, rfl, hwhole, hanswer⟩
    · exact .inl hfault
    · rcases ends_attempt.mp hplay with ⟨answer₁, e₂, hanswered, heq⟩ | ⟨_, _, _, heq⟩
      · cases heq
        exact .inr ⟨hfault, .answer hfind hbind hanswered hwhole hanswer⟩
      · cases heq

theorem contained_executeUnless (fuel : Nat) (code : Int) :
    Contained (executeUnless (carryOut fuel) code : Process σ Int) := by
  by_cases hcode : code = 0
  · simp only [executeUnless, if_pos hcode]
    refine ⟨(frame_execute fuel).held, fun e fault e₁ _ h => ?_⟩
    rcases execute_error h with rfl | ⟨rfl, hunwritten⟩
    · exact .cancelled e₁
    · exact .unwritten hunwritten
  · simp only [executeUnless, if_neg hcode]
    exact contained_pure code

theorem contained_step (fuel : Nat) (index : Nat) (text : String) :
    Contained (step (carryOut fuel) index text : Process σ Int) := by
  refine .bind (contained_ofAct (held_openLine index text) fun e fault e₁ h => ?_) fun code =>
    (contained_executeUnless fuel code).bind fun code =>
      contained_ofAct (held_closeLine index text code) fun e fault e₁ h => ?_
  · rcases openLine_error h with h | h
    · exact .hook h
    · exact .unread h
  · rcases closeLine_error h with hraises | ⟨rfl, hunrecorded⟩
    · exact .hook hraises
    · exact .unwritten (.variables hunrecorded)

theorem contained_proceed (fuel lines : Nat) :
    Contained (proceed (carryOut fuel) lines : Process σ Int) := by
  induction lines with
  | zero => exact ⟨fun _ _ _ h => absurd h not_ends_exhausted, fun _ _ _ _ h => absurd h not_ends_exhausted⟩
  | succ lines ih =>
    have hline (index : Nat) (text : String) : Contained (do
        ofAct (progressBy fun p => { p with cursor := index + 1 })
        let code ← step (carryOut fuel) index text
        if code = 0 then proceed (carryOut fuel) lines else pure code : Process σ Int) := by
      refine .bind (contained_ofAct (keeps_modify fun _ => rfl) fun _ _ _ h => nomatch h) fun _ =>
        (contained_step fuel index text).bind fun code => ?_
      by_cases hcode : code = 0
      · rw [if_pos hcode]
        exact ih
      · rw [if_neg hcode]
        exact contained_pure code
    constructor
    · intro e r hbusy hr
      simp only [Ends, proceed] at hr
      split at hr
      · cases hr
        rfl
      · exact (hline _ _).held hbusy hr
    · intro e fault e₁ hbusy hr
      simp only [Ends, proceed] at hr
      split at hr
      · cases hr
      · exact (hline _ _).escapes hbusy hr

/-! ## Runs -/

/-- The run has been reported, once, with this code, and the host is about to be told. -/
structure Reported (e : Engine σ) (code : Int) (e₁ : Engine σ) : Prop where
  setup : e₁.setup = e.setup
  idle : e₁.busy = false
  completions : e₁.completions = e.completions ++ [code]

/-- How a run can end that was started on an engine. -/
inductive RunEnds (e : Engine σ) : EStateM.Result Fault (Engine σ) Int → Prop
  /-- It returns the code that it has reported. -/
  | code {code : Int} {e₁ e₂ : Engine σ} (hreported : Reported e code e₁)
      (hcall : callBack code e₁ = .ok code e₂) : RunEnds e (.ok code e₂)
  /-- The host breaks off when it is told. -/
  | callback {code : Int} {fault : Fault} {e₁ e₂ : Engine σ} (hreported : Reported e code e₁)
      (hcall : callBack code e₁ = .error fault e₂) : RunEnds e (.error fault e₂)
  /-- A hook or a step rule breaks off. -/
  | hook {fault : Fault} {e₁ : Engine σ} (hraises : HookRaises e.services.hooks fault e₁)
      (hunreported : e₁.completions = e.completions) : RunEnds e (.error fault (freed e₁))
  /-- A type breaks off inside an argument, with something else than a failure. -/
  | type {fault : Fault} {type : TokenType} {e₁ : Engine σ} (hmem : type ∈ e₁.services.types.types)
      (hraises : type.lexis.Raises fault) (hfault : ∀ f, fault ≠ .failure f)
      (hunreported : e₁.completions = e.completions) : RunEnds e (.error fault (freed e₁))
  /-- A number has too many digits to be written: in the answer of a handler, in the datum of a reference, or
  in the variables of a verbose engine. -/
  | unwritten {e₁ : Engine σ} (hunwritten : Unwritten e₁) (hunreported : e₁.completions = e.completions) :
      RunEnds e (.error (.ofConversion .unwritable) (freed e₁))
  /-- The run is called off. -/
  | cancelled {e₁ : Engine σ} (hunreported : e₁.completions = e.completions) :
      RunEnds e (.error .cancelled (freed e₁))

theorem runEnds_of_reported {e e₁ : Engine σ} {code : Int} (h : Reported e code e₁) :
    RunEnds e (callBack code e₁) := by
  cases hcall : callBack code e₁ with
  | ok code₁ e₂ =>
    obtain ⟨rfl, -⟩ := callBack_eq_ok hcall
    exact .code h hcall
  | error fault e₂ => exact .callback h hcall

theorem freed_of_idle {e : Engine σ} (h : e.busy = false) : freed e = e := by
  rw [freed, ← h]

/-- What becomes of a run once its lines have come to an end. -/
theorem runEnds_concluded {e : Engine σ} {r : EStateM.Result Fault (Engine σ) Int}
    (hidle : e.busy = false) (hseparators : e.setup.marks.separators ≠ [])
    (hheld : (engineOf r).held = (entered e).held)
    (hescapes : ∀ fault e₁, r = .error fault e₁ → Escapes e.services.hooks fault e₁) :
    RunEnds e (concluded r) := by
  cases r with
  | ok code e₁ =>
    have hfreed : (freed e₁).held = e.held := by
      have h : (freed e₁).held = { e₁.held with busy := false } := rfl
      rw [h, show e₁.held = (entered e).held from hheld]
      simp [entered, held, completions, hidle]
    rcases complete_cases code (freed e₁) with ⟨fault, e₂, hr, hheld₂, hraises⟩ | ⟨e₂, hheld₂, hr⟩
    · have hidle₂ : e₂.busy = false := congrArg Held.busy hheld₂
      rw [concluded, hr, ← freed_of_idle hidle₂]
      rw [hooks_of_held hfreed] at hraises
      exact .hook hraises (congrArg Held.completions (hheld₂.trans hfreed))
    · rw [concluded, hr]
      rw [hfreed, show (freed e₁).completions = e.completions from
        congrArg Held.completions hfreed] at hheld₂
      exact runEnds_of_reported ⟨congrArg Held.setup hheld₂,
        (congrArg Held.busy hheld₂).trans hidle, congrArg Held.completions hheld₂⟩
  | error fault e₁ =>
    have hcompletions : e₁.completions = e.completions := congrArg Held.completions hheld
    have hsetup : e₁.setup = e.setup := congrArg Held.setup hheld
    cases hescapes fault e₁ rfl with
    | hook hraises => exact .hook hraises hcompletions
    | unread hunread =>
      obtain ⟨hread, hfault⟩ := hunread
      -- A failure of the reader's own would not have come through, so a type broke off.
      rcases Line.faults_of_read (by rwa [hsetup]) hread with ⟨reason, rfl, -⟩ | ⟨type, hmem, hraises⟩
      · exact absurd rfl (hfault _)
      · exact .type hmem hraises hfault hcompletions
    | unwritten hunwritten => exact .unwritten hunwritten hcompletions
    | cancelled => exact .cancelled hcompletions

theorem busy_of_concluded {r : EStateM.Result Fault (Engine σ) Int} :
    (engineOf (concluded r)).busy = false := by
  cases r with
  | error fault e => rfl
  | ok code e =>
    rcases complete_cases code (freed e) with ⟨fault, e₁, hr, hheld, -⟩ | ⟨e₁, hheld, hr⟩
    · rw [concluded, hr]
      exact congrArg Held.busy hheld
    · rw [concluded, hr]
      exact (congrArg Held.busy ((keeps_callBack code).held e₁)).trans (congrArg Held.busy hheld)

/-- An engine of a host with these types behind the default ones and these commands, and no hooks. -/
def hosted (types : List TokenType) (commands : List (Command (Handler Unit))) : Engine Unit where
  services :=
    { types := ⟨Token.defaults ++ types⟩
      commands := commands.foldl CommandRegistry.register {} }
  host := ()

/-- A command that breaks off with an error of its own. -/
def booming : Command (Handler Unit) where
  signature := { name := "BOOM", params := [] }
  handler := fun _ => .raise (.outside (.custom "ValueError" "boom"))

/-- A type that breaks off behind the first character of each of its tokens. -/
def brittle : TokenType where
  name := "odd"
  lexis :=
    { begins := fun c s => .ok (c = '@', s)
      ends := fun _ _ => .error (.outside (.custom "ValueError" "boom"))
      parse := fun text => .ok (.value ⟨"odd", .text text, none⟩) }

/-- The test that an operation has broken off with the error of such a type, and nothing was
reported. -/
def brokenOff : EStateM.Result Fault (Engine Unit) Int → Bool
  | .error f e => f == .outside (.custom "ValueError" "boom") && e.completions == []
  | .ok _ _ => false

end CommandBatch.Engine
