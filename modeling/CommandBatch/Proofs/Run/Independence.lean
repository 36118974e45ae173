import CommandBatch.Proofs.Run.Abreast
import CommandBatch.Proofs.Run.Containment

/-!
# What earlier runs leave behind

A run begins with the trace, the index, the command, the arguments, the failure and the code of the run
before it cleared away, and with a batch, a cursor and a list of shown lines of its own.  Nothing is left
of earlier runs but what was written to the transcript, and the text that was interpreted last, which is
read only together with its command (`Matched`).  No operation tells such engines apart
(`respects_carryOut`).  So runs that begin with the same services, variables and host go abreast, whatever
happened to their engines before (`independent_runs`).
-/

namespace CommandBatch

variable {σ : Type}

namespace Engine

open Act Process Run

/-- The engines are the same but for what their transcripts began with, and for the text that was
interpreted last if it left no command behind. -/
inductive Matched (t t' : Array Record) : Engine σ → Engine σ → Prop
  | intro (e : Engine σ) (added : Array Record) (text : String)
      (htext : e.progress.command ≠ "" → text = e.progress.text) :
      Matched t t' { e with transcript := t ++ added }
        { e with transcript := t' ++ added, progress := { e.progress with text } }

/-- The engines are free and work with the same services, variables and host, and with traces of the same
length.  The rest of their state is what earlier runs have left behind. -/
structure Interchangeable (e e' : Engine σ) : Prop where
  idle : e.busy = false
  idle' : e'.busy = false
  setup : e.setup = e'.setup
  services : e.services = e'.services
  env : e.env = e'.env
  host : e.host = e'.host
  limit : e.progress.trace.limit = e'.progress.trace.limit

variable {t t' : Array Record} {e e' : Engine σ}

theorem Matched.symm (h : Matched t t' e e') : Matched t' t e' e := by
  obtain ⟨e, added, text, htext⟩ := h
  exact .intro { e with progress := { e.progress with text } } added e.progress.text fun hname =>
    (htext hname).symm

theorem Interchangeable.symm (h : Interchangeable e e') : Interchangeable e' e :=
  ⟨h.idle', h.idle, h.setup.symm, h.services.symm, h.env.symm, h.host.symm, h.limit.symm⟩

/-! ## Requests -/

theorem respects_record (r : Record) : (record r : Act σ Unit).Respects (Matched t t') :=
  respects_modify fun _ _ ⟨e, added, text, htext⟩ => by
    rw [← Array.append_push, ← Array.append_push]
    exact .intro e (added.push r) text htext

theorem matched_uniform : Uniform (σ := σ) True (Matched t t') where
  env := fun _ _ ⟨_, _, _, _⟩ => rfl
  services := fun _ _ ⟨_, _, _, _⟩ => rfl
  setEnv := fun env _ _ ⟨e, added, text, htext⟩ => .intro { e with env } added text htext
  setServices := fun services _ _ ⟨e, added, text, htext⟩ => .intro { e with services } added text htext
  record := respects_record
  shownLines := respects_modify fun _ _ ⟨e, added, text, htext⟩ =>
    .intro { e with progress := { e.progress with shownLines := [] } } added text htext
  cursor _ cursor := respects_modify fun _ _ ⟨e, added, text, htext⟩ =>
    .intro { e with progress := { e.progress with cursor } } added text htext
  batch _ line := respects_modify fun _ _ ⟨e, added, text, htext⟩ =>
    .intro { e with progress := { e.progress with batch := e.progress.batch ++ [line] } } added text htext

/-- A text that is interpreted takes the place of the one before it. -/
theorem respects_interpret (line : String) : (interpret line : Act σ Int).Respects (Matched t t') := by
  rintro _ _ ⟨e, added, text, htext⟩
  rw [interpret_eq, interpret_eq]
  cases Line.read e.services.types.types e.setup.marks line with
  | ok l => exact .ok (.intro (understood l (faced line e)) added line fun _ => rfl)
  | error fault =>
    cases fault with
    | failure f => exact .ok (.intro (failing f.reason line (faced line e)) added line fun _ => rfl)
    | _ => exact .error (.intro (faced line e) added line fun _ => rfl)

theorem matched_veils : Veils (σ := σ) (fun _ => True) Eq (Matched t t') where
  view := fun _ _ ⟨_, _, _, _⟩ => rfl
  host := fun _ _ ⟨e, added, text, htext⟩ => ⟨rfl, fun host => .intro { e with host } added text htext⟩
  edit _ _ := matched_uniform.edit fun _ => trivial
  registerCommand _ _ _ := matched_uniform.register "" _
  interpret line _ := respects_interpret line

/-! ## Lines -/

theorem respects_progressBy (f : Progress → Progress) (hcommand : ∀ p, (f p).command = p.command)
    (htext : ∀ p text, f { p with text } = { f p with text })
    (hsame : ∀ p, (f p).text = p.text) : (progressBy f : Act σ Unit).Respects (Matched t t') :=
  respects_modify fun _ _ ⟨e, added, text, h⟩ => by
    rw [show (f { e.progress with text } : Progress) = { f e.progress with text } from htext _ _]
    exact .intro { e with progress := f e.progress } added text fun hname => by
      rw [hsame]
      exact h (hcommand e.progress ▸ hname)

theorem Matched.hooks (h : Matched t t' e e') : e.services.hooks = e'.services.hooks := by
  obtain ⟨e, added, text, htext⟩ := h
  rfl

theorem Matched.shownLines (h : Matched t t' e e') :
    e.progress.shownLines = e'.progress.shownLines := by
  obtain ⟨e, added, text, htext⟩ := h
  rfl

theorem Matched.recordable (h : Matched t t' e e') : e.Recordable ↔ e'.Recordable := by
  obtain ⟨e, added, text, htext⟩ := h
  exact Iff.rfl

theorem Matched.announcing (h : Matched t t' e e') (n : Notice) :
    Matched t t' (announcing n e) (announcing n e') := by
  obtain ⟨e, added, text, htext⟩ := h
  unfold Engine.announcing
  rw [← Array.append_push, ← Array.append_push]
  cases n with
  | batchStart lines =>
    exact .intro { e with progress := { e.progress with shownLines := lines } }
      (added.push (.announced (.batchStart lines))) text htext
  | beforeLine | afterLine | onError | batchEnd => exact .intro e (added.push (.announced _)) text htext

theorem respects_announce (n : Notice) : (announce n : Act σ Unit).Respects (Matched t t') :=
  fun _ _ h => matched_veils.announce respects_record (fun _ _ h => h.shownLines) h.hooks
    (fun hook _ n => (hook.handler n).asks_of_all fun _ => trivial)
    (fun hook _ n => (hook.handler n).heeds_eq) (h.announcing n)

theorem respects_openLine (index : Nat) (text : String) :
    (openLine index text : Act σ Int).Respects (Matched t t') :=
  (respects_progressBy ({ · with index := some index }) (fun _ => rfl) (fun _ _ => rfl)
    fun _ => rfl).bind fun _ => (respects_announce _).bind fun _ => respects_interpret text

theorem respects_logStep (index : Nat) (text : String) (code : Int) :
    (logStep index text code : Act σ Unit).Respects (Matched t t') := by
  intro e e' h
  by_cases hrecordable : e.Recordable
  · rw [logStep_of_recordable hrecordable, logStep_of_recordable (h.recordable.mp hrecordable)]
    obtain ⟨e, added, text₁, htext⟩ := h
    have hfire : (fireRules (contextOf index code e)
        (e.services.hooks.rulesAt e.progress.trace.next)).Respects (Matched t t') :=
      matched_veils.fireRules respects_record _ (fun rule _ c => (rule.handler c).asks_of_all fun _ => trivial)
        fun rule _ c => (rule.handler c).heeds_eq
    exact hfire.guarded _ _ _ (.intro (logged index text code e) added text₁ htext)
  · rw [logStep_of_not_recordable hrecordable, logStep_of_not_recordable (mt h.recordable.mpr hrecordable)]
    exact .error h

theorem respects_closeLine (index : Nat) (text : String) (code : Int) :
    (closeLine index text code : Act σ Int).Respects (Matched t t') := by
  refine (respects_logStep index text code).bind fun _ => (respects_announce _).bind fun _ => ?_
  by_cases hcode : code ≠ 0
  · simp only [if_pos hcode]
    -- The failure that is announced is read off the engine, and is the same on both.
    rintro _ _ ⟨e, added, text₁, htext⟩
    exact ((respects_announce (.onError code e.progress.failure)).bind fun _ => respects_pure code) _ _
      (.intro e added text₁ htext)
  · simp only [if_neg hcode]
    exact respects_pure code

/-! ## Tasks -/

theorem respects_fail (r : Reason) (text : String) : (fail r text : Act σ Int).Respects (Matched t t') :=
  fun _ _ ⟨e, added, text₁, htext⟩ => .ok (.intro (failing r text e) added text₁ htext)

theorem respects_answerCode (command text : String) (answer : Datum) :
    (answerCode command text answer : Act σ Int).Respects (Matched t t') := by
  cases answer with
  | nothing => exact respects_pure 0
  | whole code =>
    by_cases hcode : code = 0
    · simp only [answerCode, if_pos hcode]
      exact respects_pure 0
    · simp only [answerCode, if_neg hcode]
      exact respects_fail _ _
  | _ => exact (respects_orThrow _ _).bind fun _ => respects_fail _ _

theorem respects_outcomeCode (command text : String) (outcome : Except Fault Datum) :
    (outcomeCode command text outcome : Act σ Int).Respects (Matched t t') := by
  cases outcome with
  | ok answer => exact respects_answerCode command text answer
  | error fault =>
    cases fault with
    | cancelled => exact respects_throw _
    | _ => exact respects_fail _ _

/-- Arguments that are refused are refused with the same text, as long as that of the last line is there. -/
theorem alike_refuse (r : Reason) (e : Engine σ) (added : Array Record) (text : String) :
    Alike (fun _ => Matched t t') (fun _ => Matched t t')
      (refuse r text { e with transcript := t ++ added }) (refuse r text { e with transcript := t' ++ added }) := by
  have hmatched : Matched t t' _ _ := .intro e added e.progress.text fun _ => rfl
  by_cases hr : r = .nameless
  · rw [hr, refuse_nameless, refuse_nameless]
    exact .error hmatched
  · rw [refuse_of_ne hr, refuse_of_ne hr]
    exact respects_fail r text _ _ hmatched

variable {go : Task → Process σ Int}

/-- A text is read off the engine only if its command is there. -/
theorem respects_execute (hgo : ∀ task, (go task).Respects (Matched t t')) :
    (execute go).Respects (Matched t t') := by
  rintro _ _ ⟨e, added, text, htext⟩
  by_cases hname : e.progress.command = ""
  · simp only [execute, if_pos hname]
    exact .ended (.ok (.intro e added text htext))
  · obtain rfl := htext hname
    simp only [execute, if_neg hname]
    cases e.services.commands.find? e.progress.command with
    | none => exact .ended (.ok (.intro (failing _ _ e) added e.progress.text fun _ => rfl))
    | some command =>
      cases hbind : command.signature.bind e.env e.progress.args with
      | error r =>
        simp only [hbind]
        exact .ended (alike_refuse r e added e.progress.text)
      | ok args =>
        simp only [hbind]
        have hplay := matched_veils.playOut (fun task _ => hgo task) (command.handler args)
          (Script.asks_of_all (fun _ => trivial) _) (Script.heeds_eq _)
        exact hplay.attempt.bind (fun outcome => respects_ofAct (respects_outcomeCode _ _ outcome)) _ _
          (.intro e added e.progress.text fun _ => rfl)

theorem respects_step (hgo : ∀ task, (go task).Respects (Matched t t')) (index : Nat) (text : String) :
    (step go index text).Respects (Matched t t') := by
  refine (respects_ofAct (respects_openLine index text)).bind fun code => Process.Respects.bind ?_
    fun code => respects_ofAct (respects_closeLine index text code)
  by_cases hcode : code = 0
  · simp only [executeUnless, if_pos hcode]
    exact respects_execute hgo
  · simp only [executeUnless, if_neg hcode]
    exact Process.respects_pure code

theorem respects_proceed (hgo : ∀ task, (go task).Respects (Matched t t')) (lines : Nat) :
    (proceed go lines).Respects (Matched t t') := by
  induction lines with
  | zero => exact respects_exhausted
  | succ lines ih =>
    intro e e' h
    have hnext : nextLine? e'.progress = nextLine? e.progress := by
      obtain ⟨e, added, text, htext⟩ := h
      rfl
    unfold proceed
    rw [hnext]
    cases nextLine? e.progress with
    | none => exact .ended (.ok h)
    | some line =>
      obtain ⟨index, text⟩ := line
      have hpass : (progressBy fun p => { p with cursor := (index : Int) + 1 } : Act σ Unit).Respects
          (Matched t t') := respects_progressBy _ (fun _ => rfl) (fun _ _ => rfl) fun _ => rfl
      refine ((respects_ofAct hpass).bind fun _ => (respects_step hgo index text).bind fun code => ?_) e e' h
      by_cases hcode : code = 0
      · simp only [if_pos hcode]
        exact ih
      · simp only [if_neg hcode]
        exact Process.respects_pure code

/-- Behind its beginning, nothing in a run depends on what was there before. -/
theorem abreast_releasing_complete {x x' : Process σ Int}
    (h : (x e).Abreast (Matched t t') (fun _ => Matched t t') (fun _ => Matched t t') (x' e')) :
    ((x.releasing >>= fun code => ofAct (complete code)) e).Abreast (Matched t t')
      (fun _ => Matched t t') (fun _ => Matched t t')
      ((x'.releasing >>= fun code => ofAct (complete code)) e') := by
  have hfreed (e e' : Engine σ) (h : Matched t t' e e') : Matched t t' (freed e) (freed e') := by
    obtain ⟨e, added, text, htext⟩ := h
    exact .intro (freed e) added text htext
  refine abreast_bind (abreast_releasing (h.mono (fun _ => hfreed) fun _ => hfreed)) fun code e₁ e₁' h₁ => ?_
  have hcallBack : (callBack code : Act σ Int).Respects (Matched t t') := fun e e' h =>
    matched_veils.callBack (by obtain ⟨e, added, text, htext⟩ := h; rfl)
      (fun script _ => Script.asks_of_all (fun _ => trivial) _) (fun script _ => Script.heeds_eq _) h
  have hcomplete : (complete code : Act σ Int).Respects (Matched t t') :=
    (respects_progressBy ({ · with code }) (fun _ => rfl) (fun _ _ => rfl) fun _ => rfl).bind fun _ =>
      (respects_announce _).bind fun _ => (respects_record _).bind fun _ => hcallBack
  exact .ended (hcomplete e₁ e₁' h₁)

theorem respects_during {x : Process σ Int} (hx : x.Respects (Matched t t')) :
    (during x).Respects (Matched t t') := by
  have henter : (enter : Act σ Unit).Respects (Matched t t') := by
    intro e e' h
    cases hbusy : e.busy with
    | true =>
      have hbusy' : e'.busy = true := by
        obtain ⟨e, added, text, htext⟩ := h
        exact hbusy
      rw [enter_of_busy hbusy, enter_of_busy hbusy']
      exact .error h
    | false =>
      have hbusy' : e'.busy = false := by
        obtain ⟨e, added, text, htext⟩ := h
        exact hbusy
      rw [enter_of_idle hbusy, enter_of_idle hbusy']
      obtain ⟨e, added, text, htext⟩ := h
      exact .ok (.intro (entered e) added text fun hname => absurd rfl hname)
  exact fun e e' h => abreast_bind (respects_ofAct henter e e' h) fun _ e₁ e₁' h₁ =>
    abreast_releasing_complete (hx e₁ e₁' h₁)

theorem respects_openBatch (lines : List String) (cursor : Int) :
    (openBatch lines cursor : Act σ Unit).Respects (Matched t t') :=
  (respects_progressBy ({ · with batch := lines, cursor }) (fun _ => rfl) (fun _ _ => rfl)
    fun _ => rfl).bind fun _ => respects_announce _

/-- **No task tells such engines apart.** -/
theorem respects_carryOut (fuel : Nat) (task : Task) :
    (carryOut fuel task : Process σ Int).Respects (Matched t t') := by
  induction fuel generalizing task with
  | zero => exact respects_exhausted
  | succ fuel ih =>
    cases task with
    | execute => exact respects_execute ih
    | runLine line =>
      exact respects_during ((respects_ofAct (respects_openBatch [line] 1)).bind fun _ =>
        respects_step ih 0 line)
    | runBatch lines =>
      exact respects_during ((respects_ofAct (respects_openBatch lines 0)).bind fun _ =>
        respects_proceed ih fuel)

/-! ## Runs -/

/-- The beginning of a run leaves nothing of earlier ones, but for the transcript and the last text. -/
theorem Interchangeable.openBatch (h : Interchangeable e e') (lines : List String) (cursor : Int) :
    Alike (fun _ => Matched e.transcript e'.transcript) (fun _ => Matched e.transcript e'.transcript)
      (openBatch lines cursor (entered e)) (openBatch lines cursor (entered e')) := by
  -- The list of shown lines is the last thing that is replaced, when the batch is announced.
  have hannouncing : Matched e.transcript e'.transcript
      (announcing (.batchStart lines) (batched lines cursor (entered e)))
      (announcing (.batchStart lines) (batched lines cursor (entered e'))) := by
    have hmatched : Matched e.transcript e'.transcript _ _ :=
      .intro (announcing (.batchStart lines) (batched lines cursor (entered e)))
        #[.announced (.batchStart lines)] e'.progress.text fun hname => (hname rfl).elim
    simpa [announcing, batched, entered, Trace.clear, h.setup, h.services, h.env, h.host, h.limit]
      using hmatched
  rw [openBatch_eq, openBatch_eq]
  exact matched_veils.announce respects_record (fun _ _ h => h.shownLines)
    (congrArg Services.hooks h.services)
    (fun hook _ n => (hook.handler n).asks_of_all fun _ => trivial)
    (fun hook _ n => (hook.handler n).heeds_eq) hannouncing

theorem Interchangeable.during (h : Interchangeable e e') {lines : List String} {cursor : Int}
    {x : Process σ Int} (hx : x.Respects (Matched e.transcript e'.transcript)) :
    (Engine.during (ofAct (Engine.openBatch lines cursor) >>= fun _ => x) e).Abreast
      (Matched e.transcript e'.transcript) (fun _ => Matched e.transcript e'.transcript)
      (fun _ => Matched e.transcript e'.transcript)
      (Engine.during (ofAct (Engine.openBatch lines cursor) >>= fun _ => x) e') := by
  have hbegun : (ofAct enter e).Abreast (Matched e.transcript e'.transcript)
      (fun _ e₁ e₁' => e₁ = entered e ∧ e₁' = entered e') (fun _ => Matched e.transcript e'.transcript)
      (ofAct enter e') := by
    refine .ended ?_
    rw [enter_of_idle h.idle, enter_of_idle h.idle']
    exact .ok ⟨rfl, rfl⟩
  refine abreast_bind hbegun fun _ e₁ e₁' he => ?_
  obtain ⟨rfl, rfl⟩ := he
  exact abreast_releasing_complete (abreast_bind (.ended (h.openBatch lines cursor)) fun _ => hx)

theorem Interchangeable.abreast {task : Task} (h : Interchangeable e e') (hrun : task ≠ .execute)
    (fuel : Nat) :
    (carryOut (fuel + 1) task e).Abreast (Matched e.transcript e'.transcript)
      (fun _ => Matched e.transcript e'.transcript) (fun _ => Matched e.transcript e'.transcript)
      (carryOut (fuel + 1) task e') := by
  cases task with
  | execute => exact absurd rfl hrun
  | runLine line => exact h.during (respects_step (respects_carryOut fuel) 0 line)
  | runBatch lines => exact h.during (respects_proceed (respects_carryOut fuel) fuel)

/-- **Runs do not leak into each other.**  Two engines are free and work with the same services, variables,
settings and host, and differ in whatever earlier runs have left behind: batch, cursor, trace, index, text,
command, arguments, code, failure and transcript.  Then a run goes abreast on both, and if it ends on one
it ends on the other, with the same code or the same fault.  Whenever it waits, and at its end, both
engines have added the same to their transcripts, which is the output, the calls of hooks and of step
rules and the completions, and are otherwise the same, but for a text that left no command behind. -/
theorem independent_runs {task : Task} (hrun : task ≠ .execute) (h : Interchangeable e e') :
    (∀ fuel, (carryOut (fuel + 1) task e).Abreast (Matched e.transcript e'.transcript)
        (fun _ => Matched e.transcript e'.transcript) (fun _ => Matched e.transcript e'.transcript)
        (carryOut (fuel + 1) task e')) ∧
      (∀ r, Carries task e r → ∃ r', Carries task e' r' ∧
        Alike (fun _ => Matched e.transcript e'.transcript)
          (fun _ => Matched e.transcript e'.transcript) r r') ∧
      ∀ r', Carries task e' r' → ∃ r, Carries task e r ∧
        Alike (fun _ => Matched e.transcript e'.transcript)
          (fun _ => Matched e.transcript e'.transcript) r r' :=
  ⟨h.abreast hrun, carries_of_abreast 1 (h.abreast hrun)⟩

/-- An engine that was broken off amid a batch. -/
def aborted : Engine Unit :=
  { hosted [] [booming] with
    progress :=
      { batch := ["BOOM", "OVER"], cursor := -4, index := some 1, text := "OVER", command := "OVER",
        args := [⟨TypeName.bool, .bool true, none⟩], code := 3,
        trace := { entries := [⟨0, some 0, "BOOM", "BOOM", 1, none⟩], next := 1 },
        failure := some ⟨.unknownCommand "OVER", some 1, some "OVER"⟩, shownLines := ["OVER"] }
    transcript := #[.output "before"] }

theorem independent_runs_aborted :
    ∃ e₁ e₁', Carries (.runBatch ["BOOM"]) (hosted [] [booming]) (.ok 1 e₁) ∧
      Carries (.runBatch ["BOOM"]) aborted (.ok 1 e₁') ∧ Matched #[] #[.output "before"] e₁ e₁' := by
  obtain ⟨r, hcarries, hreturns⟩ := carries_of_any (t := .runBatch ["BOOM"]) (e := hosted [] [booming]) 3
    (returns 1 fun _ => true) (by decide +kernel)
  obtain ⟨e₁, rfl, -⟩ := of_returns hreturns
  have hinterchangeable : Interchangeable (hosted [] [booming]) aborted :=
    ⟨rfl, rfl, rfl, rfl, rfl, rfl, rfl⟩
  obtain ⟨r', hcarries', halike⟩ := (independent_runs (by simp) hinterchangeable).2.1 _ hcarries
  cases halike with
  | ok hmatched => exact ⟨e₁, _, hcarries, hcarries', hmatched⟩

end Engine

end CommandBatch
