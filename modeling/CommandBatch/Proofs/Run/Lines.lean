import CommandBatch.Proofs.Run.Frame
import CommandBatch.Proofs.Run.Hooks

/-!
# What surrounds a line

Before a line is executed it is announced and read, behind it the step is logged and announced, and
a run begins and ends with announcements of its own.  None of this changes what is held while a run
lasts, except that the end of a run reports its code (`held_completing`).

Four things around a line can break off: a hook or a step rule that is told of something
(`HookRaises`), the type of an argument while the line is read (`UnreadBy`), the trace that a verbose
engine writes its variables to (`UnrecordedBy`), and at the very end the function that the host is told
the code by (`complete_cases`).  Where there are no hooks at all, each
part is a plain change of the engine, which is written out (`openLine_of_unhooked`,
`closeLine_of_unhooked`, `complete_of_unhooked`), as long as the step can be recorded.
-/

namespace CommandBatch

variable {σ α : Type}

theorem Act.Keeps.held {act : Act σ α} (h : act.Keeps Engine.frame) : act.Keeps Engine.held :=
  fun e => congrArg Prod.fst (h e)

theorem Process.Keeps.held {p : Process σ α} (h : p.Keeps Engine.frame) : p.Keeps Engine.held :=
  fun _ _ hbusy hr => congrArg Prod.fst (h hbusy hr)

namespace Engine

open Act

/-! ## Announcements -/

/-- A hook or a step rule has broken off, which left the engine like this and comes through as this
fault. -/
inductive HookRaises (r : HookRegistry (Notice → Script σ) (StepContext → Script σ)) :
    Fault → Engine σ → Prop
  | hook {hook : Hook (Notice → Script σ)} {n : Notice} {event : Event} {fault : Fault}
      {e e₁ : Engine σ} (hmem : hook ∈ r.hooks) (hplay : play (hook.handler n) e = .error fault e₁) :
      HookRaises r (hookFault (.hookFailed event.name) fault) e₁
  | rule {rule : StepRule (StepContext → Script σ)} {c : StepContext} {fault : Fault}
      {e e₁ : Engine σ} (hmem : rule ∈ r.rules) (hplay : play (rule.handler c) e = .error fault e₁) :
      HookRaises r (hookFault .stepRuleFailed fault) e₁

theorem discard_error {x : Act σ α} {fault : Fault} {e e₁ : Engine σ}
    (h : (discard x : Act σ Unit) e = .error fault e₁) : x e = .error fault e₁ := by
  rw [discard_apply] at h
  cases hx : x e <;> rw [hx] at h <;> cases h
  rfl

theorem callHooks_error {n : Notice} {hooks : List (Hook (Notice → Script σ))} {fault : Fault}
    {e e₂ : Engine σ} (h : callHooks n hooks e = .error fault e₂) :
    ∃ hook ∈ hooks, ∃ p e₁, play (hook.handler (asShown n p)) e₁ = .error fault e₂ := by
  obtain ⟨before, hook, after, e₁, rfl, -, hraises⟩ := callHooks_eq_error_iff.mp h
  exact ⟨hook, List.mem_append_right _ (List.mem_cons_self ..), _, _, hraises⟩

theorem fireRules_error {c : StepContext} {rules : List (StepRule (StepContext → Script σ))}
    {fault : Fault} {e e₂ : Engine σ} (h : fireRules c rules e = .error fault e₂) :
    ∃ rule ∈ rules, ∃ e₁, play (rule.handler c) e₁ = .error fault e₂ := by
  induction rules generalizing e with
  | nil => cases h
  | cons rule rules ih =>
    rcases bind_eq_error h with h | ⟨_, e₁, -, h⟩
    · cases h
    rcases bind_eq_error h with h | ⟨_, e₂, -, h⟩
    · exact ⟨rule, List.mem_cons_self .., _, discard_error h⟩
    · obtain ⟨other, hmem, hplay⟩ := ih h
      exact ⟨other, List.mem_cons_of_mem _ hmem, hplay⟩

theorem guarded_error {wrap : String → ExtensionError} {act : Act σ Unit} {fault : Fault}
    {e e₁ : Engine σ} (h : guarded wrap act e = .error fault e₁) :
    ∃ f, act e = .error f e₁ ∧ fault = hookFault wrap f := by
  unfold guarded at h
  cases hact : act e <;> rw [hact] at h <;> cases h
  exact ⟨_, rfl, rfl⟩

theorem held_announcing (n : Notice) (e : Engine σ) : (announcing n e).held = e.held := by
  simp [announcing, held, completions, Record.completion?]

theorem frame_hookCalled (f : Held σ × Place) (e : Engine σ) (number : Nat) (n : Notice)
    (h : e.frame = f) : frame { e with transcript := e.transcript.push (.hookCalled number n) } = f :=
  (frame_record rfl rfl).trans h

theorem held_announce (n : Notice) : Keeps held (announce n : Act σ Unit) := by
  intro e
  have h := (frame_withstands (fun _ => True) (announcing n e).frame).announce (frame_hookCalled _)
    (e.services.hooks.asks_of_all fun _ => trivial) rfl
  exact (congrArg Prod.fst (ensures_iff.mp h)).trans (held_announcing n e)

theorem announce_error {n : Notice} {fault : Fault} {e e₁ : Engine σ}
    (h : announce n e = .error fault e₁) : HookRaises e.services.hooks fault e₁ := by
  rw [announce_eq] at h
  obtain ⟨f, hcall, rfl⟩ := guarded_error h
  obtain ⟨hook, hmem, p, e₂, hplay⟩ := callHooks_error hcall
  exact .hook (List.mem_filter.mp hmem).1 hplay

theorem announce_of_unhooked {e : Engine σ} (h : e.services.hooks = {}) (n : Notice) :
    announce n e = .ok () (announcing n e) := by
  rw [announce_eq, h]
  rfl

/-! ## Reading a line -/

/-- The text that the engine faces cannot be read, for a fault that is no failure of the line. -/
def UnreadBy (fault : Fault) (e : Engine σ) : Prop :=
  Line.read e.services.types.types e.setup.marks e.progress.text = .error fault ∧
    ∀ f, fault ≠ .failure f

theorem interpret_error {text : String} {fault : Fault} {e e₁ : Engine σ}
    (h : interpret text e = .error fault e₁) : UnreadBy fault e₁ := by
  rw [interpret_eq] at h
  cases hread : Line.read e.services.types.types e.setup.marks text with
  | ok line => rw [hread] at h; cases h
  | error f =>
    rw [hread] at h
    cases f with
    | failure f => cases h
    | _ =>
      cases h
      exact ⟨hread, fun f hf => nomatch hf⟩

/-! ## Beginning and ending a line -/

theorem held_openLine (index : Nat) (text : String) : Keeps held (openLine index text : Act σ Int) :=
  Keeps.bind (f := fun _ => _) (keeps_modify fun _ => rfl) fun _ =>
    (held_announce _).bind fun _ => (keeps_interpret text).held

theorem openLine_error {index : Nat} {text : String} {fault : Fault} {e e₁ : Engine σ}
    (h : openLine index text e = .error fault e₁) :
    HookRaises e.services.hooks fault e₁ ∨ UnreadBy fault e₁ := by
  rcases bind_eq_error h with h | ⟨_, e₂, hp, h⟩
  · cases h
  · cases hp
    rcases bind_eq_error h with h | ⟨_, e₃, -, h⟩
    · exact .inl (announce_error h :)
    · exact .inr (interpret_error h)

/-- The engine that is about to read the line of an index, where there are no hooks. -/
def beginning (index : Nat) (text : String) (e : Engine σ) : Engine σ :=
  faced text
    (announcing (.beforeLine index text) { e with progress := { e.progress with index := some index } })

theorem openLine_of_unhooked {e : Engine σ} (h : e.services.hooks = {}) (index : Nat)
    (text : String) :
    openLine index text e =
      taken text (beginning index text e) (Line.read e.services.types.types e.setup.marks text) := by
  have hannounce := announce_of_unhooked
    (e := { e with progress := { e.progress with index := some index } }) h (.beforeLine index text)
  show (progressBy _ >>= fun _ => announce (.beforeLine index text) >>= fun _ => interpret text) e = _
  simp only [progressBy, bind_apply, modify_apply, hannounce]
  rw [interpret_eq]
  rfl

theorem held_logStep (index : Nat) (text : String) (code : Int) :
    Keeps held (logStep index text code : Act σ Unit) := by
  intro e
  have h := (frame_withstands (fun _ => True) (logged index text code e).frame).logStep
    (F := fun e₁ => e₁.held = e.held) (fun _ _ h => (frame_record rfl rfl).trans h)
    (e.services.hooks.asks_of_all fun _ => trivial) rfl (fun _ h => congrArg Prod.fst h) fun _ => rfl
  exact ensures_iff.mp (h.mono (fun _ _ h => congrArg Prod.fst h) fun _ _ h => h)

/-- The step at hand is not in the trace, since the variables of the engine cannot be written. -/
def UnrecordedBy (fault : Fault) (e : Engine σ) : Prop :=
  fault = .ofConversion .unwritable ∧ ¬e.Recordable

theorem logStep_error {index : Nat} {text : String} {code : Int} {fault : Fault} {e e₁ : Engine σ}
    (h : logStep index text code e = .error fault e₁) :
    HookRaises e.services.hooks fault e₁ ∨ UnrecordedBy fault e₁ := by
  by_cases hrecordable : e.Recordable
  · rw [logStep_of_recordable hrecordable] at h
    obtain ⟨f, hfire, rfl⟩ := guarded_error h
    obtain ⟨rule, hmem, e₂, hplay⟩ := fireRules_error hfire
    exact .inl (.rule (List.mem_filter.mp hmem).1 hplay)
  · rw [logStep_of_not_recordable hrecordable] at h
    cases h
    exact .inr ⟨rfl, hrecordable⟩

theorem held_closeLine (index : Nat) (text : String) (code : Int) :
    Keeps held (closeLine index text code : Act σ Int) := by
  refine (held_logStep index text code).bind fun _ => (held_announce _).bind fun _ => ?_
  by_cases hcode : code ≠ 0
  · simp only [if_pos hcode]
    exact keeps_get.bind fun _ => (held_announce _).bind fun _ => keeps_pure _
  · simp only [if_neg hcode]
    exact keeps_pure _

theorem busy_of_held {e e₁ : Engine σ} (h : e₁.held = e.held) : e₁.busy = e.busy :=
  congrArg Held.busy h

theorem hooks_of_held {e e₁ : Engine σ} (h : e₁.held = e.held) :
    e₁.services.hooks = e.services.hooks :=
  congrArg Held.hooks h

/-- What is held behind an operation that succeeded is what was held in front of it. -/
theorem held_of_ok {act : Act σ α} {a : α} {e e₁ : Engine σ} (hact : Keeps held act)
    (h : act e = .ok a e₁) : e₁.held = e.held := by
  have hheld := hact e
  rwa [h] at hheld

theorem closeLine_error {index : Nat} {text : String} {code : Int} {fault : Fault} {e e₁ : Engine σ}
    (h : closeLine index text code e = .error fault e₁) :
    HookRaises e.services.hooks fault e₁ ∨ UnrecordedBy fault e₁ := by
  rcases bind_eq_error h with h | ⟨_, e₂, hlog, h⟩
  · exact logStep_error h
  refine .inl ?_
  have hheld₂ := held_of_ok (held_logStep index text code) hlog
  rcases bind_eq_error h with h | ⟨_, e₃, hafter, h⟩
  · exact hooks_of_held hheld₂ ▸ announce_error h
  have hheld₃ := (held_of_ok (held_announce _) hafter).trans hheld₂
  by_cases hcode : code ≠ 0
  · simp only [if_pos hcode] at h
    rcases bind_eq_error h with h | ⟨e₄, e₅, hget, h⟩
    · cases h
    · cases hget
      rcases bind_eq_error h with h | ⟨_, e₆, -, h⟩
      · exact hooks_of_held hheld₃ ▸ announce_error h
      · cases h
  · simp only [if_neg hcode] at h
    cases h

/-- The engine that has logged a step and announced it, where there are no hooks. -/
def closed (index : Nat) (text : String) (code : Int) (e : Engine σ) : Engine σ :=
  let e := announcing (.afterLine index text code) (logged index text code e)
  if code = 0 then e else announcing (.onError code e.progress.failure) e

/-- What the end of a line comes to, where there are no hooks: it breaks off if the step cannot be recorded. -/
def closing (index : Nat) (text : String) (code : Int) (e : Engine σ) :
    EStateM.Result Fault (Engine σ) Int :=
  if e.Recordable then .ok code (closed index text code e) else .error (.ofConversion .unwritable) e

theorem closing_of_recordable {e : Engine σ} (h : e.Recordable) (index : Nat) (text : String) (code : Int) :
    closing index text code e = .ok code (closed index text code e) := if_pos h

theorem closing_of_not_recordable {e : Engine σ} (h : ¬e.Recordable) (index : Nat) (text : String)
    (code : Int) : closing index text code e = .error (.ofConversion .unwritable) e := if_neg h

/-- Only a step that can be recorded lets a line end. -/
theorem closing_eq_ok {index : Nat} {text : String} {code code₁ : Int} {e e₁ : Engine σ}
    (h : closing index text code e = .ok code₁ e₁) :
    e.Recordable ∧ code₁ = code ∧ e₁ = closed index text code e := by
  by_cases hrecordable : e.Recordable
  · rw [closing_of_recordable hrecordable] at h
    cases h
    exact ⟨hrecordable, rfl, rfl⟩
  · rw [closing_of_not_recordable hrecordable] at h
    cases h

theorem closeLine_of_unhooked {e : Engine σ} (h : e.services.hooks = {}) (index : Nat) (text : String)
    (code : Int) : closeLine index text code e = closing index text code e := by
  by_cases hrecordable : e.Recordable
  case neg =>
    rw [closing_of_not_recordable hrecordable]
    simp [closeLine, logStep_of_not_recordable hrecordable]
  rw [closing_of_recordable hrecordable]
  have hlog : logStep index text code e = .ok () (logged index text code e) := by
    rw [logStep_of_recordable hrecordable, h]
    rfl
  have hafter := announce_of_unhooked (e := logged index text code e) h (.afterLine index text code)
  have herror := announce_of_unhooked
    (e := announcing (.afterLine index text code) (logged index text code e)) h
    (.onError code (announcing (.afterLine index text code) (logged index text code e)).progress.failure)
  by_cases hcode : code = 0
  · subst hcode
    simp [closeLine, closed, hlog, hafter]
  · simp [closeLine, closed, hlog, hafter, hcode, herror]

/-! ## Beginning and ending a run -/

theorem held_openBatch (lines : List String) (cursor : Int) :
    Keeps held (openBatch lines cursor : Act σ Unit) :=
  Keeps.bind (f := fun _ => _) (keeps_modify fun _ => rfl) fun _ => held_announce _

theorem openBatch_error {lines : List String} {cursor : Int} {fault : Fault} {e e₁ : Engine σ}
    (h : openBatch lines cursor e = .error fault e₁) : HookRaises e.services.hooks fault e₁ := by
  rcases bind_eq_error h with h | ⟨_, e₂, hp, h⟩
  · cases h
  · cases hp
    exact (announce_error h :)

/-- The engine that is about to run a batch, where there are no hooks. -/
def opened (lines : List String) (e : Engine σ) : Engine σ :=
  announcing (.batchStart lines) { e with progress := { e.progress with batch := lines, cursor := 0 } }

theorem openBatch_of_unhooked {e : Engine σ} (h : e.services.hooks = {}) (lines : List String) :
    openBatch lines 0 e = .ok () (opened lines e) :=
  announce_of_unhooked (e := { e with progress := { e.progress with batch := lines, cursor := 0 } })
    h (.batchStart lines)

/-- The engine that is about to tell its host that a run is complete. -/
def completing (code : Int) (e : Engine σ) : Engine σ :=
  { e with transcript := e.transcript.push (.completed code) }

theorem held_completing (code : Int) (e : Engine σ) :
    (completing code e).held = { e.held with completions := e.completions ++ [code] } := by
  simp [completing, held, completions, Record.completion?]

theorem keeps_callBack (code : Int) : Keeps frame (callBack code : Act σ Int) := fun e =>
  ensures_iff.mp ((frame_withstands (fun _ => True) e.frame).callBack
    (fun script _ => (script code).asks_of_all fun _ => trivial) rfl)

theorem callBack_of_none {e : Engine σ} (h : e.setup.onCompletion = none) (code : Int) :
    callBack code e = .ok code e := by
  simp [callBack, h]

theorem callBack_of_some {e : Engine σ} {script : Int → Script σ} (h : e.setup.onCompletion = some script)
    (code : Int) : callBack code e = (discard (play (script code)) >>= fun _ => pure code) e := by
  simp [callBack, h]

/-- The host is told the code; what it does then leaves the frame of the run alone. -/
theorem callBack_eq_ok {code code₁ : Int} {e e₁ : Engine σ} (h : callBack code e = .ok code₁ e₁) :
    code₁ = code ∧ e₁.frame = e.frame ∧ (e.setup.onCompletion = none → e₁ = e) := by
  have hframe := keeps_callBack code e
  rw [h] at hframe
  cases hsetup : e.setup.onCompletion with
  | none =>
    rw [callBack_of_none hsetup] at h
    cases h
    exact ⟨rfl, hframe, fun _ => rfl⟩
  | some script =>
    rw [callBack_of_some hsetup] at h
    obtain ⟨_, e₂, -, hpure⟩ := bind_eq_ok h
    cases hpure
    exact ⟨rfl, hframe, fun hnone => by cases hnone⟩

/-- A run that is complete reports its code, once, and then tells the host, unless a hook breaks
off before. -/
theorem complete_cases (code : Int) (e : Engine σ) :
    (∃ fault e₁, complete code e = .error fault e₁ ∧ e₁.held = e.held ∧
        HookRaises e.services.hooks fault e₁) ∨
      ∃ e₁, e₁.held = { e.held with completions := e.completions ++ [code] } ∧
        complete code e = callBack code e₁ := by
  have hheld := held_announce (.batchEnd code) { e with progress := { e.progress with code } }
  cases hannounce : announce (.batchEnd code) { e with progress := { e.progress with code } } with
  | ok a e₁ =>
    rw [hannounce] at hheld
    refine .inr ⟨completing code e₁, ?_, ?_⟩
    · rw [held_completing, show e₁.held = e.held from hheld,
        show e₁.completions = e.completions from congrArg Held.completions hheld]
    · simp [complete, progressBy, hannounce, record, completing]
  | error fault e₁ =>
    rw [hannounce] at hheld
    refine .inl ⟨fault, e₁, ?_, hheld, (announce_error hannounce :)⟩
    simp [complete, progressBy, hannounce]

/-- The engine that a run without hooks is complete on. -/
def completed (code : Int) (e : Engine σ) : Engine σ :=
  completing code (announcing (.batchEnd code) { e with progress := { e.progress with code } })

theorem complete_of_unhooked {e : Engine σ} (h : e.services.hooks = {}) (code : Int) :
    complete code e = callBack code (completed code e) := by
  have hannounce := announce_of_unhooked (e := { e with progress := { e.progress with code } }) h
    (.batchEnd code)
  simp [complete, progressBy, hannounce, record, completed, completing]

end Engine

end CommandBatch
