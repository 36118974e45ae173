import CommandBatch.Proofs.Run.Blame
import CommandBatch.Proofs.Run.Trace

/-!
# What hooks and the host are told in a run

A run tells its hooks that the batch starts, then of each line that it is about to run and that it has ended,
of the failure of the last one if there is any, and that the batch has ended; behind that it tells the host the
code.  `Course.events` is that sequence for the lines that were run.  A run that returns has told exactly such
a sequence (`told_of_run`).  A run that breaks off has told the beginning of one, and what it told last is what
broke it off: an announcement with a hook that raises, or the line whose step a rule raises at, whose text
cannot be read, whose handler is called off, or at which a number cannot be written.

Only announcements and completions are told.  Scripts can ask for neither, so what is told is part of what a
line keeps while its handler runs or waits, and grows only by the announcements around it (`Hears`).
-/

namespace CommandBatch

variable {σ : Type}

/-! ## Sequences of events -/

/-- What a run lets its hooks and its host know. -/
inductive Told where
  | event (n : Notice)
  | completion (code : Int)

/-- What an entry of the transcript says was told. -/
def Record.told? : Record → Option Told
  | .announced n => some (.event n)
  | .completed code => some (.completion code)
  | _ => none

/-- The events of a line. -/
def Visit.events (v : Visit) : List Notice :=
  [.beforeLine v.index v.text, .afterLine v.index v.text v.code]

/-- The events behind a line, with its failure if it is the last one and has failed. -/
def Visit.closing (v : Visit) (failure : Option Failure) : List Notice :=
  .afterLine v.index v.text v.code :: if v.code = 0 then [] else [.onError v.code failure]

/-- The codes of lines that are run one after the other, up to the first that is not 0. -/
inductive Comes : List Visit → Int → Prop
  | clean {visits : List Visit} (h : ∀ v ∈ visits, v.code = 0) : Comes visits 0
  | stopped {before : List Visit} {v : Visit} (h : ∀ v ∈ before, v.code = 0) (hcode : v.code ≠ 0) :
      Comes (before ++ [v]) v.code

/-- How a run of some lines has gone so far. -/
structure Course where
  lines : List String
  /-- The lines that were run, in the order of their runs. -/
  visits : List Visit
  /-- What is announced as the failure of the last of them. -/
  failure : Option Failure
  /-- The code that they have come to. -/
  code : Int

namespace Course

/-- The events up to the last line that was run. -/
def soFar (c : Course) : List Notice :=
  .batchStart c.lines :: c.visits.flatMap Visit.events ++
    if c.code = 0 then [] else [.onError c.code c.failure]

/-- The events of a run that ends like this. -/
def events (c : Course) : List Notice := c.soFar ++ [.batchEnd c.code]

/-- The lines stop at the first with a code other than 0.  The failure has that code, if nothing else is
interpreted behind the line. -/
structure Proper (quiet : Prop) (c : Course) : Prop where
  comes : Comes c.visits c.code
  blames : quiet → c.code ≠ 0 → ∃ f, c.failure = some f ∧ f.code = c.code

/-- The course that begins with these lines. -/
def start (lines : List String) : Course := ⟨lines, [], none, 0⟩

/-- The course with one more line. -/
def next (c : Course) (v : Visit) (failure : Option Failure) : Course :=
  { c with visits := c.visits ++ [v], failure, code := v.code }

variable {quiet : Prop} {c : Course} {v : Visit} {failure : Option Failure}

theorem proper_start (lines : List String) : (start lines).Proper quiet :=
  ⟨.clean nofun, fun _ h => absurd rfl h⟩

theorem Comes.all_zero {visits : List Visit} (h : Comes visits 0) : ∀ v ∈ visits, v.code = 0 := by
  -- The code is an index of `Comes`, so it is made a variable before the cases.
  generalize hcode : (0 : Int) = code at h
  cases h with
  | clean h => exact h
  | stopped _ hne => exact absurd hcode.symm hne

theorem Proper.next (h : c.Proper quiet) (hcode : c.code = 0)
    (hblames : quiet → v.code ≠ 0 → ∃ f, failure = some f ∧ f.code = v.code) :
    (c.next v failure).Proper quiet := by
  have hall := Comes.all_zero (hcode ▸ h.comes)
  refine ⟨?_, hblames⟩
  by_cases hv : v.code = 0
  · have hclean : ∀ w ∈ c.visits ++ [v], w.code = 0 := by
      intro w hw
      rcases List.mem_append.mp hw with hw | hw
      · exact hall w hw
      · rw [List.mem_singleton.mp hw, hv]
    show Comes (c.visits ++ [v]) v.code
    rw [hv]
    exact .clean hclean
  · exact .stopped hall hv

theorem soFar_next (hcode : c.code = 0) :
    (c.next v failure).soFar = c.soFar ++ .beforeLine v.index v.text :: v.closing failure := by
  simp only [soFar, next, if_pos hcode, List.append_nil, List.flatMap_append, List.flatMap_singleton,
    List.cons_append, List.append_assoc]
  rfl

/-- Every beginning of what is told of one more line is a beginning of the events. -/
theorem prefix_next (hcode : c.code = 0) {ns : List Notice}
    (h : ns <+: .beforeLine v.index v.text :: v.closing failure) :
    c.soFar ++ ns <+: (c.next v failure).events := by
  rw [events, soFar_next hcode]
  exact ((List.prefix_append_right_inj c.soFar).mpr h).trans (List.prefix_append _ _)

end Course

namespace Engine

open Act Process Run

/-- What was told, in order. -/
def told (e : Engine σ) : List Told := e.transcript.toList.filterMap Record.told?

/-! ## What breaks off -/

section Hooks
variable (r : HookRegistry (Notice → Script σ) (StepContext → Script σ))

/-- A hook for the event has raised, which left the engine like this.  A fault of the interpreter's own comes
through as it is, and any other as one of extensions. -/
inductive HookBreaks (n : Notice) : Fault → Engine σ → Prop
  | intro {hook : Hook (Notice → Script σ)} {p : Progress} {fault : Fault} {e e₁ : Engine σ}
      (hmem : hook ∈ r.hooksFor n.event) (hplay : play (hook.handler (asShown n p)) e = .error fault e₁) :
      HookBreaks n (if fault.isOwn then fault else .extension (.hookFailed n.event.name fault.message)) e₁

/-- A step rule has raised at the step of a line. -/
inductive RuleBreaks (index : Nat) : Fault → Engine σ → Prop
  | intro {rule : StepRule (StepContext → Script σ)} {c : StepContext} {fault : Fault} {e e₁ : Engine σ}
      (hmem : rule ∈ r.rulesAt c.step) (hline : c.line = index)
      (hplay : play (rule.handler c) e = .error fault e₁) :
      RuleBreaks index (if fault.isOwn then fault else .extension (.stepRuleFailed fault.message)) e₁

/-- Every hook for the event was called with it and has come back. -/
def Heard (n : Notice) : Prop :=
  ∀ hook ∈ r.hooksFor n.event, ∃ p e a e₁, play (hook.handler (asShown n p)) e = .ok a e₁

/-- Every rule for the step was called with this line and has come back. -/
def Followed (step : Nat) (v : Visit) : Prop :=
  ∀ rule ∈ r.rulesAt step, ∃ command e a e₁,
    play (rule.handler ⟨step, v.index, command, v.code⟩) e = .ok a e₁

end Hooks

/-- The events of a run on `e₀` were told up to one at which it broke off. -/
inductive BreaksOff (e₀ : Engine σ) (c : Course) : Fault → Engine σ → Prop
  | hook {before : List Notice} {n : Notice} {fault : Fault} {e : Engine σ}
      (hevents : before ++ [n] <+: c.events) (htold : e.told = e₀.told ++ (before ++ [n]).map .event)
      (h : HookBreaks e₀.services.hooks n fault e) : BreaksOff e₀ c fault e
  | line {before : List Notice} {index : Nat} {text : String} {fault : Fault} {e : Engine σ}
      (hevents : before ++ [Notice.beforeLine index text] <+: c.events)
      (htold : e.told = e₀.told ++ (before ++ [Notice.beforeLine index text]).map .event)
      (h : RuleBreaks e₀.services.hooks index fault e ∨ UnreadBy fault e ∨ fault.ComesThrough) :
      BreaksOff e₀ c fault e
  | callback {script : Int → Script σ} {fault : Fault} {e₁ e : Engine σ}
      (htold : e.told = e₀.told ++ c.events.map .event ++ [.completion c.code])
      (hscript : e₀.setup.onCompletion = some script) (hplay : play (script c.code) e₁ = .error fault e) :
      BreaksOff e₀ c fault e

/-! ## Announcements -/

theorem told_push {e : Engine σ} {r : Record} (h : r.told? = none) :
    told { e with transcript := e.transcript.push r } = e.told := by
  simp [told, h]

theorem told_withstands (allowed : Request σ → Prop) (v : (Held σ × Place) × List Told) :
    Withstands allowed fun e : Engine σ => (e.frame, e.told) = v :=
  sifted_withstands (fun _ => rfl) (fun _ => rfl) allowed v

theorem told_announcing (n : Notice) (e : Engine σ) : (announcing n e).told = e.told ++ [.event n] := by
  simp [announcing, told, Record.told?]

theorem discard_ok {α : Type} {x : Act σ α} {e e₁ : Engine σ} (h : (discard x : Act σ Unit) e = .ok () e₁) :
    ∃ a, x e = .ok a e₁ := by
  rw [discard_apply] at h
  cases hx : x e with
  | ok a e₂ =>
    rw [hx] at h
    cases h
    exact ⟨a, rfl⟩
  | error fault e₂ =>
    rw [hx] at h
    cases h

theorem callHooks_ok {n : Notice} {hooks : List (Hook (Notice → Script σ))} {e e₁ : Engine σ}
    (h : callHooks n hooks e = .ok () e₁) :
    ∀ hook ∈ hooks, ∃ p e a e₁, play (hook.handler (asShown n p)) e = .ok a e₁ := by
  have hturn : InTurn n e hooks e₁ := callHooks_eq_ok_iff.mp h
  clear h
  induction hturn with
  | nil => nofun
  | cons hcall _ ih =>
    intro other hmem
    rcases List.mem_cons.mp hmem with rfl | hmem
    · exact ⟨_, _, _, _, hcall⟩
    · exact ih other hmem

theorem fireRules_ok {c : StepContext} {rules : List (StepRule (StepContext → Script σ))} {e e₁ : Engine σ}
    (h : fireRules c rules e = .ok () e₁) :
    ∀ rule ∈ rules, ∃ e a e₁, play (rule.handler c) e = .ok a e₁ := by
  induction rules generalizing e with
  | nil => nofun
  | cons rule rules ih =>
    obtain ⟨_, e₂, -, h⟩ := bind_eq_ok h
    obtain ⟨_, e₃, hplay, h⟩ := bind_eq_ok h
    intro other hmem
    rcases List.mem_cons.mp hmem with rfl | hmem
    · obtain ⟨a, hplay⟩ := discard_ok hplay
      exact ⟨_, a, _, hplay⟩
    · exact ih h other hmem

theorem guarded_ok {wrap : String → ExtensionError} {act : Act σ Unit} {e e₁ : Engine σ}
    (h : guarded wrap act e = .ok () e₁) : act e = .ok () e₁ := by
  unfold guarded at h
  cases hact : act e <;> rw [hact] at h <;> cases h
  rfl

/-- What has become of an engine that has told hooks of some events. -/
structure Hears (e : Engine σ) (ns : List Notice) (e₁ : Engine σ) : Prop where
  held : e₁.held = e.held
  trace : e₁.progress.trace = e.progress.trace
  told : e₁.told = e.told ++ ns.map .event
  failure : e.services.hooks.Asks Request.Quiet → e₁.progress.failure = e.progress.failure
  heard : ∀ n ∈ ns, Heard e.services.hooks n

/-- An announcement is heard by all its hooks, or it is the last that is told. -/
theorem ensures_announce (n : Notice) (e : Engine σ) :
    (announce n).Ensures (fun _ e₁ => Hears e [n] e₁)
      (fun fault e₁ => e₁.held = e.held ∧ e₁.told = e.told ++ [.event n] ∧
        HookBreaks e.services.hooks n fault e₁) e := by
  -- A hook cannot announce anything itself, and only by interpreting a text can it note a failure.
  have hseen := (told_withstands (fun _ => True) ((announcing n e).frame, (announcing n e).told)).announce
    (fun e₁ number shown h => h ▸ Prod.ext (frame_record rfl rfl) (told_push rfl))
    (e.services.hooks.asks_of_all fun _ => trivial) rfl
  have hquiet (h : e.services.hooks.Asks Request.Quiet) :=
    (account_withstands (announcing n e).account).announce
      (fun _ _ _ h => (account_push rfl rfl rfl).trans h) h rfl
  unfold Act.Ensures at hseen hquiet ⊢
  cases hr : announce n e with
  | ok a e₁ =>
    simp only [hr] at hseen hquiet
    rw [announce_eq] at hr
    refine ⟨?_, ?_, ?_, fun h => ?_, fun other hmem => ?_⟩
    · exact (congrArg (fun s => s.1.1) hseen).trans (held_announcing n e)
    · exact (congrArg (fun s => s.1.2.trace) hseen).trans (by cases n <;> rfl)
    · exact (congrArg Prod.snd hseen).trans (told_announcing n e)
    · exact (congrArg (fun a => a.2.1) (hquiet h)).trans (by cases n <;> rfl)
    · rw [List.mem_singleton.mp hmem]
      exact callHooks_ok (guarded_ok hr)
  | error fault e₁ =>
    simp only [hr] at hseen
    rw [announce_eq] at hr
    obtain ⟨f, hcall, rfl⟩ := guarded_error hr
    obtain ⟨hook, hmem, p, e₂, hplay⟩ := callHooks_error hcall
    exact ⟨(congrArg (fun s => s.1.1) hseen).trans (held_announcing n e),
      (congrArg Prod.snd hseen).trans (told_announcing n e), .intro hmem hplay⟩

/-- What has become of an engine that has logged the step of a line and fired the rules. -/
structure Logs (e : Engine σ) (v : Visit) (e₁ : Engine σ) : Prop where
  held : e₁.held = e.held
  trace : e₁.progress.trace = (logged v.index v.text v.code e).progress.trace
  told : e₁.told = e.told
  failure : e.services.hooks.Asks Request.Quiet → e₁.progress.failure = e.progress.failure
  followed : Followed e.services.hooks e.progress.trace.next v

/-- A step is followed by all its rules, or one of them breaks off with nothing told.  A step that cannot be
recorded breaks off as well. -/
theorem ensures_logStep (v : Visit) (e : Engine σ) :
    (logStep v.index v.text v.code).Ensures (fun _ e₁ => Logs e v e₁)
      (fun fault e₁ => e₁.told = e.told ∧
        (RuleBreaks e.services.hooks v.index fault e₁ ∨ fault.ComesThrough)) e := by
  by_cases hrecordable : e.Recordable
  case neg =>
    unfold Act.Ensures
    rw [logStep_of_not_recordable hrecordable]
    exact ⟨rfl, .inr .unwritable⟩
  have hseen := (told_withstands (fun _ => True)
      ((logged v.index v.text v.code e).frame, e.told)).logStep
    (fun e₁ number h => h ▸ Prod.ext (frame_record rfl rfl) (told_push rfl))
    (e.services.hooks.asks_of_all fun _ => trivial) rfl (fun _ h => h) (absurd hrecordable)
  have hquiet (h : e.services.hooks.Asks Request.Quiet) :=
    (account_withstands (logged v.index v.text v.code e).account).logStep
      (fun _ _ h => (account_push rfl rfl rfl).trans h) h rfl (fun _ h => h) (absurd hrecordable)
  unfold Act.Ensures at hseen hquiet ⊢
  cases hr : logStep v.index v.text v.code e with
  | ok a e₁ =>
    simp only [hr] at hseen hquiet
    rw [logStep_of_recordable hrecordable] at hr
    refine ⟨congrArg (fun s => s.1.1) hseen, congrArg (fun s => s.1.2.trace) hseen,
      congrArg Prod.snd hseen, fun h => congrArg (fun a => a.2.1) (hquiet h), fun rule hmem => ?_⟩
    obtain ⟨e₂, a₂, e₃, hplay⟩ := fireRules_ok (guarded_ok hr) rule hmem
    exact ⟨e.progress.command, e₂, a₂, e₃, hplay⟩
  | error fault e₁ =>
    simp only [hr] at hseen
    rw [logStep_of_recordable hrecordable] at hr
    obtain ⟨f, hfire, rfl⟩ := guarded_error hr
    obtain ⟨rule, hmem, e₂, hplay⟩ := fireRules_error hfire
    exact ⟨congrArg Prod.snd hseen, .inl (.intro hmem rfl hplay)⟩

/-! ## A line -/

variable {others : Engine σ → Engine σ → Prop} {e₀ e : Engine σ} {c : Course} {index : Nat} {text : String}

/-- A line opens with an announcement and is read.  It may break off in either. -/
theorem ensures_openLine_told (index : Nat) (text : String) (e : Engine σ) :
    (openLine index text).Ensures
      (fun _ e₁ => e₁.told = e.told ++ [.event (.beforeLine index text)] ∧
        Heard e.services.hooks (.beforeLine index text))
      (fun fault e₁ => e₁.told = e.told ++ [.event (.beforeLine index text)] ∧
        (HookBreaks e.services.hooks (.beforeLine index text) fault e₁ ∨ UnreadBy fault e₁)) e := by
  have hannounce := ensures_announce (.beforeLine index text)
    { e with progress := { e.progress with index := some index } }
  refine ensures_bind (ensures_bind (hannounce.mono (fun _ e₁ h₁ => ?_) fun fault e₁ h₁ => ?_))
  · have hread := (told_withstands (fun _ => True) (e₁.frame, e₁.told)).interpret text trivial e₁ rfl
    unfold Act.Ensures at hread ⊢
    cases hr : interpret text e₁ with
    | ok code e₂ =>
      simp only [hr] at hread
      exact ⟨(congrArg Prod.snd hread).trans h₁.told, h₁.heard _ (List.mem_singleton_self _)⟩
    | error fault e₂ =>
      simp only [hr] at hread
      exact ⟨(congrArg Prod.snd hread).trans h₁.told, .inr (interpret_error hr)⟩
  · exact ⟨h₁.2.1, .inl h₁.2.2⟩

/-- Nothing is told while a line is executed, whatever comes through. -/
theorem ensures_executeUnless_told (hbusy : e.busy = true)
    (hothers : ∀ e e₁ : Engine σ, others e e₁ → (e₁.frame, e₁.told) = (e.frame, e.told)) (code : Int)
    (fuel : Nat) :
    (executeUnless (carryOut fuel) code e).Ensures others (fun _ => True) (fun _ e₁ => e₁.told = e.told)
      fun fault e₁ => e₁.told = e.told ∧ fault.ComesThrough :=
  (ensures_executeUnless_sifted (fun _ => rfl) (fun _ => rfl) hbusy hothers code fuel).mono
    (fun _ _ => trivial) (fun _ _ h => congrArg Prod.snd h) fun _ _ h => ⟨congrArg Prod.snd h.1, h.2⟩

/-- The failure is the one that was noted, unless something else was interpreted. -/
def Reports (e : Engine σ) (failure : Option Failure) : Prop :=
  e.services.hooks.Asks Request.Quiet → failure = e.progress.failure

/-- A line closes with its step and its announcements.  It may break off in each. -/
theorem ensures_closeLine_told (v : Visit) (e : Engine σ) :
    (closeLine v.index v.text v.code).Ensures
      (fun code e₁ => code = v.code ∧ ∃ failure, Reports e failure ∧ e₁.held = e.held ∧
        e₁.progress.trace = (logged v.index v.text v.code e).progress.trace ∧
        e₁.told = e.told ++ (v.closing failure).map .event ∧
        (∀ n ∈ v.closing failure, Heard e.services.hooks n) ∧
        Followed e.services.hooks e.progress.trace.next v)
      (fun fault e₁ =>
        (e₁.told = e.told ∧ (RuleBreaks e.services.hooks v.index fault e₁ ∨ fault.ComesThrough)) ∨
        ∃ failure before n, Reports e failure ∧ before ++ [n] <+: v.closing failure ∧
          e₁.told = e.told ++ (before ++ [n]).map .event ∧ HookBreaks e.services.hooks n fault e₁) e := by
  refine ensures_bind ((ensures_logStep v e).mono (fun _ e₁ h₁ => ?_) fun fault e₁ h => .inl h)
  have hhooks₁ := hooks_of_held h₁.held
  refine ensures_bind ((ensures_announce _ e₁).mono (fun _ e₂ h₂ => ?_) fun fault e₂ h₂ => ?_)
  · have hhooks₂ := (hooks_of_held h₂.held).trans hhooks₁
    have htold₂ : e₂.told = e.told ++ [.event (.afterLine v.index v.text v.code)] := h₁.told ▸ h₂.told
    have hreports : Reports e e₂.progress.failure := fun hquiet =>
      (h₂.failure (hhooks₁.symm ▸ hquiet)).trans (h₁.failure hquiet)
    have hheard := hhooks₁ ▸ h₂.heard _ (List.mem_singleton_self _)
    by_cases hcode : v.code = 0
    · rw [if_neg (fun h => h hcode)]
      have hclosing : v.closing e₂.progress.failure = [.afterLine v.index v.text v.code] := by
        rw [Visit.closing, if_pos hcode]
      refine ⟨rfl, e₂.progress.failure, hreports, h₂.held.trans h₁.held, h₂.trace.trans h₁.trace, ?_, ?_,
        h₁.followed⟩
      · rw [hclosing]
        exact htold₂
      · rw [hclosing]
        exact fun n hn => List.mem_singleton.mp hn ▸ hheard
    · rw [if_pos hcode]
      have hclosing : v.closing e₂.progress.failure =
          [.afterLine v.index v.text v.code] ++ [.onError v.code e₂.progress.failure] := by
        rw [Visit.closing, if_neg hcode]
        rfl
      refine ensures_bind (ensures_bind ((ensures_announce _ e₂).mono (fun _ e₃ h₃ => ?_) fun fault e₃ h₃ => ?_))
      · refine ⟨rfl, e₂.progress.failure, hreports, (h₃.held.trans h₂.held).trans h₁.held,
          (h₃.trace.trans h₂.trace).trans h₁.trace, ?_, ?_, h₁.followed⟩
        · rw [h₃.told, htold₂, hclosing, List.map_append, List.append_assoc]
          rfl
        · rw [hclosing]
          intro n hn
          rcases List.mem_append.mp hn with hn | hn
          · exact List.mem_singleton.mp hn ▸ hheard
          · exact hhooks₂ ▸ h₃.heard n hn
      · refine .inr ⟨e₂.progress.failure, [.afterLine v.index v.text v.code], _, hreports, ?_, ?_,
          hhooks₂ ▸ h₃.2.2⟩
        · exact hclosing ▸ List.prefix_rfl
        · rw [h₃.2.1, htold₂, List.map_append, List.append_assoc]
          rfl
  · refine .inr ⟨e.progress.failure, [], _, fun _ => rfl, ?_, h₁.told ▸ h₂.2.1, hhooks₁ ▸ h₂.2.2⟩
    exact ⟨_, rfl⟩

/-- Since `e₀`, a run has gone this course. -/
structure OnCourse (e₀ : Engine σ) (c : Course) (e : Engine σ) : Prop where
  proper : c.Proper (e₀.services.hooks.Asks Request.Quiet)
  held : e.held = e₀.held
  tells : e.progress.trace.Tells c.visits
  told : e.told = e₀.told ++ c.soFar.map .event
  heard : ∀ n ∈ c.soFar, Heard e₀.services.hooks n
  followed : ∀ (i : Nat) (v : Visit), c.visits[i]? = some v → Followed e₀.services.hooks i v

/-- Since `e₀`, a run of some lines has broken off. -/
def BrokenOff (e₀ : Engine σ) (lines : List String) (fault : Fault) (e : Engine σ) : Prop :=
  ∃ c : Course, c.lines = lines ∧ c.Proper (e₀.services.hooks.Asks Request.Quiet) ∧ BreaksOff e₀ c fault e

/-- Up to its end, what was told of a line fits every code that it may come to. -/
theorem OnCourse.broken (h : OnCourse e₀ c e) (hcode : c.code = 0) {fault : Fault} {e₁ : Engine σ}
    (hline : c.soFar ++ [.beforeLine index text] <+: (c.next ⟨index, text, 0⟩ none).events →
      e₁.told = e₀.told ++ (c.soFar ++ [Notice.beforeLine index text]).map .event →
      BreaksOff e₀ (c.next ⟨index, text, 0⟩ none) fault e₁)
    (htold : e₁.told = e.told ++ [.event (.beforeLine index text)]) : BrokenOff e₀ c.lines fault e₁ := by
  refine ⟨c.next ⟨index, text, 0⟩ none, rfl, h.proper.next hcode fun _ hne => absurd rfl hne, hline ?_ ?_⟩
  · exact Course.prefix_next hcode ⟨_, rfl⟩
  · rw [htold, h.told, List.map_append, List.append_assoc]
    rfl

/-- The end of a line keeps a run on its course, or breaks it off. -/
theorem OnCourse.close (h : OnCourse e₀ c e) (hcode : c.code = 0) {code : Int} {e₁ : Engine σ}
    (hline : Underway e index text code e₁) (htold : e₁.told = e.told ++ [.event (.beforeLine index text)])
    (hheard : Heard e₀.services.hooks (.beforeLine index text)) :
    (closeLine index text code).Ensures
      (fun code₁ e₂ => ∃ failure, OnCourse e₀ (c.next ⟨index, text, code₁⟩ failure) e₂)
      (BrokenOff e₀ c.lines) e₁ := by
  have hheld₁ : e₁.held = e₀.held := (congrArg (fun s => s.1.1) hline.standing).trans h.held
  have htrace₁ : e₁.progress.trace = e.progress.trace := congrArg (fun s => s.1.2.trace) hline.standing
  have hhooks₁ := hooks_of_held hheld₁
  have hproper {failure : Option Failure} (hreports : Reports e₁ failure) :
      (c.next ⟨index, text, code⟩ failure).Proper (e₀.services.hooks.Asks Request.Quiet) := by
    refine h.proper.next hcode fun hquiet hne => ?_
    obtain ⟨r, hr, hnoted⟩ := hline.notes hne
    exact ⟨_, (hreports (hhooks₁.symm ▸ hquiet)).trans hnoted, hr⟩
  refine (ensures_closeLine_told ⟨index, text, code⟩ e₁).mono (fun code₁ e₂ h₂ => ?_) fun fault e₂ h₂ => ?_
  · obtain ⟨rfl, failure, hreports, hheld₂, htrace₂, htold₂, hheard₂, hfollowed⟩ := h₂
    refine ⟨failure, hproper hreports, hheld₂.trans hheld₁, ?_, ?_, fun n hn => ?_, fun i v hv => ?_⟩
    · rw [htrace₂]
      show (e₁.progress.trace.push (entryOf index text code₁ e₁)).Tells _
      unfold entryOf
      rw [htrace₁]
      exact h.tells.push ⟨index, text, code₁⟩ _ _
    · rw [htold₂, htold, h.told, Course.soFar_next hcode]
      simp
    · rw [Course.soFar_next hcode] at hn
      rcases List.mem_append.mp hn with hn | hn
      · exact h.heard n hn
      · rcases List.mem_cons.mp hn with rfl | hn
        · exact hheard
        · exact hhooks₁ ▸ hheard₂ n hn
    · have hv : (c.visits ++ [⟨index, text, code₁⟩])[i]? = some v := hv
      rcases Nat.lt_or_ge i c.visits.length with hi | hi
      · rw [List.getElem?_append_left hi] at hv
        exact h.followed i v hv
      · -- The step of the line is the number of lines before it.
        have hfollowed : Followed e₀.services.hooks c.visits.length ⟨index, text, code₁⟩ := by
          rw [← h.tells.1, ← htrace₁, ← hhooks₁]
          exact hfollowed
        rw [List.getElem?_append_right hi, List.getElem?_singleton] at hv
        split at hv
        · cases hv
          rwa [show i = c.visits.length by omega]
        · cases hv
  · rcases h₂ with ⟨htold₂, hrule⟩ | ⟨failure, before, n, hreports, hevents, htold₂, hhook⟩
    · exact h.broken hcode (fun hbefore htold => .line hbefore htold
        (hrule.imp (fun hraises => hhooks₁ ▸ hraises) .inr)) (htold₂.trans htold)
    · have hclosing : c.soFar ++ .beforeLine index text :: before ++ [n] <+:
          (c.next ⟨index, text, code⟩ failure).events := by
        rw [List.append_assoc]
        exact Course.prefix_next hcode ((List.prefix_cons_inj _).mpr hevents)
      refine ⟨c.next ⟨index, text, code⟩ failure, rfl, hproper hreports,
        .hook hclosing ?_ (hhooks₁ ▸ hhook)⟩
      rw [htold₂, htold, h.told]
      simp

/-- **A line keeps a run on its course, or breaks it off.** -/
theorem OnCourse.step (h : OnCourse e₀ c e) (hcode : c.code = 0) (hbusy : e₀.busy = true)
    (hothers : ∀ e e₁ : Engine σ, others e e₁ →
      e₁.standing = e.standing ∧ (e₁.frame, e₁.told) = (e.frame, e.told)) (fuel index : Nat) (text : String) :
    (step (carryOut fuel) index text e).Ensures others (fun _ => True)
      (fun code e₁ => ∃ failure, OnCourse e₀ (c.next ⟨index, text, code⟩ failure) e₁)
      (BrokenOff e₀ c.lines) := by
  have hhooks := hooks_of_held h.held
  have hbusy' : e.busy = true := (busy_of_held h.held).trans hbusy
  have hopen : (openLine index text).Ensures _ _ e :=
    (ensures_openLine hbusy').and (ensures_openLine_told index text e)
  refine ensures_bind (ensures_ofAct (hopen.mono (fun code e₁ h₁ => ?_) fun fault e₁ h₁ => ?_))
  · obtain ⟨⟨hline₁, htext₁⟩, htold₁, hheard₁⟩ := h₁
    have hexecute := (ensures_executeUnless hbusy' (fun e e₁ hmet => (hothers e e₁ hmet).1) fuel hline₁
      htext₁).and (ensures_executeUnless_told (busy_of_opening hbusy' hline₁.standing)
        (fun e e₁ hmet => (hothers e e₁ hmet).2) code fuel)
    refine ensures_bind (hexecute.mono (fun _ _ => trivial) (fun code₁ e₂ h₂ => ?_) fun fault e₂ h₂ => ?_)
    · exact ensures_ofAct (h.close hcode h₂.1 (h₂.2.trans htold₁) (hhooks ▸ hheard₁))
    · obtain ⟨-, htold₂, hthrough⟩ := h₂
      exact h.broken hcode (fun hbefore htold => .line hbefore htold (.inr (.inr hthrough)))
        (htold₂.trans htold₁)
  · obtain ⟨-, htold₁, hhook | hunread⟩ := h₁
    · exact h.broken hcode (fun hbefore htold => .hook hbefore htold (hhooks ▸ hhook)) htold₁
    · exact h.broken hcode (fun hbefore htold => .line hbefore htold (.inr (.inl hunread))) htold₁

/-! ## A run -/

/-- The start of a batch is told, or breaks it off. -/
theorem ensures_openBatch_told (lines : List String) (cursor : Int) (e : Engine σ) :
    (openBatch lines cursor).Ensures (fun _ e₁ => OnCourse (entered e) (.start lines) e₁)
      (BrokenOff (entered e) lines) (entered e) := by
  have hannounce := ensures_announce (.batchStart lines)
    { entered e with progress := { (entered e).progress with batch := lines, cursor } }
  refine ensures_bind (hannounce.mono (fun _ e₁ h₁ => ?_) fun fault e₁ h₁ => ?_)
  · refine ⟨Course.proper_start lines, h₁.held, ?_, h₁.told, h₁.heard, nofun⟩
    rw [h₁.trace]
    exact Trace.tells_clear _
  · have hevents : [] ++ [.batchStart lines] <+: (Course.start lines).events := ⟨[.batchEnd 0], rfl⟩
    exact ⟨.start lines, rfl, Course.proper_start lines, .hook hevents h₁.2.1 h₁.2.2⟩

/-- How an engine stands when a run on it has returned: the host was told last, and the function for that has
told nobody anything. -/
structure Finished (e₀ : Engine σ) (c : Course) (e₂ : Engine σ) : Prop where
  proper : c.Proper (e₀.services.hooks.Asks Request.Quiet)
  tells : e₂.progress.trace.Tells c.visits
  heard : ∀ n ∈ c.events, Heard e₀.services.hooks n
  followed : ∀ (i : Nat) (v : Visit), c.visits[i]? = some v → Followed e₀.services.hooks i v
  told : ∃ e₁ : Engine σ, e₁.told = e₀.told ++ c.events.map .event ++ [.completion c.code] ∧
    callBack c.code e₁ = .ok c.code e₂ ∧ e₂.told = e₁.told

/-- The function that the host is told a code by tells nobody else. -/
theorem ensures_callBack_told (code : Int) (e : Engine σ) :
    (callBack code).Ensures
      (fun code₁ e₂ => code₁ = code ∧ callBack code e = .ok code e₂ ∧ (e₂.frame, e₂.told) = (e.frame, e.told))
      (fun fault e₂ => (e₂.frame, e₂.told) = (e.frame, e.told) ∧
        ∃ script, e.setup.onCompletion = some script ∧ play (script code) e = .error fault e₂) e := by
  have hseen := (told_withstands (fun _ => True) (e.frame, e.told)).callBack
    (fun script _ => Script.asks_of_all (fun _ => trivial) (script code)) rfl
  unfold Act.Ensures at hseen ⊢
  cases hr : callBack code e with
  | ok code₁ e₂ =>
    simp only [hr] at hseen
    obtain ⟨rfl, -⟩ := callBack_eq_ok hr
    exact ⟨rfl, rfl, hseen⟩
  | error fault e₂ =>
    simp only [hr] at hseen
    refine ⟨hseen, ?_⟩
    cases hsetup : e.setup.onCompletion with
    | none =>
      rw [callBack_of_none hsetup] at hr
      cases hr
    | some script =>
      rw [callBack_of_some hsetup] at hr
      rcases bind_eq_error hr with hr | ⟨_, _, _, hr⟩
      · exact ⟨script, rfl, discard_error hr⟩
      · cases hr

/-- The end of the batch is told, and then the host, or one of them breaks off. -/
theorem OnCourse.complete (h : OnCourse e₀ c e) :
    (complete c.code).Ensures (fun code e₂ => code = c.code ∧ Finished e₀ c e₂)
      (fun fault e₂ => BrokenOff e₀ c.lines fault e₂ ∧ e₂.busy = false) (freed e) := by
  have hhooks : e.services.hooks = e₀.services.hooks := hooks_of_held h.held
  have hannounce := ensures_announce (.batchEnd c.code)
    { freed e with progress := { e.progress with code := c.code } }
  have htold {e₁ : Engine σ} (h₁ : e₁.told = e.told ++ [.event (.batchEnd c.code)]) :
      e₁.told = e₀.told ++ c.events.map .event := by
    rw [h₁, h.told, Course.events, List.map_append, List.append_assoc]
    rfl
  refine ensures_bind (ensures_bind (hannounce.mono (fun _ e₁ h₁ => ?_) fun fault e₁ h₁ => ?_))
  · have htold₁ : (completing c.code e₁).told = e₀.told ++ c.events.map .event ++ [.completion c.code] := by
      rw [← htold h₁.told]
      simp [completing, Engine.told, Record.told?]
    refine (ensures_callBack_told c.code (completing c.code e₁)).mono (fun code e₂ h₂ => ?_)
      fun fault e₂ h₂ => ?_
    · obtain ⟨rfl, hcall, hsame⟩ := h₂
      refine ⟨rfl, h.proper, ?_, fun n hn => ?_, h.followed, completing c.code e₁, htold₁, hcall,
        congrArg Prod.snd hsame⟩
      · have htrace : e₂.progress.trace = e.progress.trace :=
          (congrArg (fun s => s.1.2.trace) hsame).trans h₁.trace
        rw [htrace]
        exact h.tells
      · rcases List.mem_append.mp hn with hn | hn
        · exact h.heard n hn
        · exact hhooks ▸ h₁.heard n hn
    · obtain ⟨hsame, script, hscript, hplay⟩ := h₂
      have hsetup : e₁.setup = e₀.setup :=
        (congrArg Held.setup h₁.held : e₁.setup = e.setup).trans (congrArg Held.setup h.held)
      have hbusy : e₂.busy = e₁.busy := congrArg (fun s => s.1.1.busy) hsame
      refine ⟨⟨c, rfl, h.proper, .callback ((congrArg Prod.snd hsame).trans htold₁) ?_ hplay⟩, ?_⟩
      · exact hsetup ▸ hscript
      · exact hbusy.trans (busy_of_held h₁.held)
  · refine ⟨⟨c, rfl, h.proper, .hook List.prefix_rfl ?_ (hhooks ▸ h₁.2.2)⟩, ?_⟩
    · exact htold h₁.2.1
    · exact busy_of_held h₁.1

/-- What a run has told since it entered an engine is what it has told since it was started. -/
theorem BreaksOff.of_entered {fault : Fault} (h : BreaksOff (entered e₀) c fault e) :
    BreaksOff e₀ c fault e := by
  cases h with
  | hook hevents htold h => exact .hook hevents htold h
  | line hevents htold h => exact .line hevents htold h
  | callback htold hscript hplay => exact .callback htold hscript hplay

end Engine

/-- The lines that a task runs as a batch. -/
def Task.lines : Task → List String
  | .execute => []
  | .runLine line => [line]
  | .runBatch lines => lines

namespace Engine

open Act Process Run

variable {others : Engine σ → Engine σ → Prop}

/-- A run goes a course from its start to its end, or breaks off on the way. -/
theorem ensures_told {t : Task} {e : Engine σ} (hrun : t ≠ .execute) (hidle : e.busy = false)
    (hothers : ∀ e e₁ : Engine σ, others e e₁ →
      e₁.standing = e.standing ∧ (e₁.frame, e₁.told) = (e.frame, e.told)) (fuel : Nat) :
    (carryOut (fuel + 1) t e).Ensures others (fun _ => True)
      (fun code e₂ => ∃ c : Course, c.lines = t.lines ∧ c.code = code ∧
        (∀ line, t = .runLine line → c.visits = [⟨0, line, code⟩]) ∧ Finished (entered e) c e₂)
      fun fault e₂ => e₂.busy = false ∧ ∃ e₁, BrokenOff (entered e) t.lines fault e₁ ∧ e₂ = freed e₁ := by
  -- What is left once the lines have come to a code.
  have hcomplete {c : Course} {code : Int} {e₁ : Engine σ} (hlines : c.lines = t.lines) (hcode : c.code = code)
      (hvisits : ∀ line, t = .runLine line → c.visits = [⟨0, line, code⟩]) (h : OnCourse (entered e) c e₁) :
      (ofAct (complete code) (freed e₁)).Ensures others (fun _ => True)
        (fun code e₂ => ∃ c : Course, c.lines = t.lines ∧ c.code = code ∧
          (∀ line, t = .runLine line → c.visits = [⟨0, line, code⟩]) ∧ Finished (entered e) c e₂)
        fun fault e₂ => e₂.busy = false ∧ ∃ e₁, BrokenOff (entered e) t.lines fault e₁ ∧ e₂ = freed e₁ := by
    subst hcode
    refine ensures_ofAct (h.complete.mono (fun code e₂ h₂ => ?_) fun fault e₂ h₂ => ?_)
    · obtain ⟨rfl, hfinished⟩ := h₂
      exact ⟨c, hlines, rfl, hvisits, hfinished⟩
    · exact ⟨h₂.2, e₂, hlines ▸ h₂.1, (freed_of_idle h₂.2).symm⟩
  have hbroken (fault : Fault) (e₁ : Engine σ) (h : BrokenOff (entered e) t.lines fault e₁) :
      (freed e₁).busy = false ∧ ∃ e₂, BrokenOff (entered e) t.lines fault e₂ ∧ freed e₁ = freed e₂ :=
    ⟨rfl, e₁, h, rfl⟩
  cases t with
  | execute => exact absurd rfl hrun
  | runLine line =>
    refine ensures_during hidle (ensures_bind (ensures_ofAct
      ((ensures_openBatch_told [line] 1 e).mono (fun _ e₁ h₁ => ?_) hbroken)))
    refine (h₁.step rfl rfl hothers fuel 0 line).mono (fun _ h => h) (fun code e₂ h₂ => ?_) hbroken
    obtain ⟨failure, h₂⟩ := h₂
    refine hcomplete rfl rfl (fun other hother => ?_) h₂
    cases hother
    rfl
  | runBatch lines =>
    refine ensures_during hidle (ensures_bind (ensures_ofAct
      ((ensures_openBatch_told lines 0 e).mono (fun _ e₁ h₁ => ?_) hbroken)))
    -- Between two lines the course has come to the code 0.
    refine (ensures_proceed (K := fun e => ∃ c : Course, c.lines = lines ∧ c.code = 0 ∧ OnCourse (entered _) c e)
      (P := fun code e => ∃ c : Course, c.lines = lines ∧ c.code = code ∧ OnCourse (entered _) c e)
      (fun e₂ index text h₂ _ => ?_) (fun _ _ => trivial) (fun _ h₂ _ => h₂) fuel
      ⟨_, rfl, rfl, h₁⟩).mono (fun _ h => h) (fun code e₂ h₂ => ?_) hbroken
    · obtain ⟨c, rfl, hcode, h₂⟩ := h₂
      have hpassing : OnCourse (entered e) c (passing index e₂) :=
        ⟨h₂.proper, h₂.held, h₂.tells, h₂.told, h₂.heard, h₂.followed⟩
      refine (hpassing.step hcode rfl hothers fuel index text).mono (fun _ h => h) (fun code e₃ h₃ => ?_)
        fun _ _ h => h
      obtain ⟨failure, h₃⟩ := h₃
      split
      · exact ⟨c.next ⟨index, text, code⟩ failure, rfl, ‹_›, h₃⟩
      · exact ⟨c.next ⟨index, text, code⟩ failure, rfl, rfl, h₃⟩
    · obtain ⟨c, hlines, hcode, h₂⟩ := h₂
      exact hcomplete hlines hcode nofun h₂

/-- A host whose command breaks off, and whose hook for failures does as well. -/
def objecting : Engine Unit :=
  { hosted [] [booming] with
    services :=
      { (hosted [] [booming]).services with
        hooks :=
          { hooks := [⟨0, .onError, 0, fun _ => .raise (.outside (.custom "ValueError" "no")), "host"⟩] } } }

/-- The test that an operation has broken off. -/
def isBroken : EStateM.Result Fault (Engine Unit) Int → Bool
  | .error .. => true
  | .ok .. => false

/-- A host whose command breaks off, whose step rule has a text interpreted that cannot be read, and which has
no hooks. -/
def murmuring : Engine Unit :=
  { hosted [] [booming] with
    services :=
      { (hosted [] [booming]).services with
        hooks := { rules := [⟨0, 1, fun _ => .interpret "C 1x" fun _ => .silent, "host", "murmur"⟩] } } }

/-- The test that a failure with another code was announced as that of a run. -/
def misreports (code : Int) : Told → Bool
  | .event (.onError c (some f)) => c == code && f.code != code
  | _ => false

end Engine

end CommandBatch
