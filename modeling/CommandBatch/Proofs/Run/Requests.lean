import CommandBatch.Proofs.Run.Amid

/-!
# What host functions ask for

A host function can do to an engine only what it asks for, one request after the other.  `Script.Asks`
says which requests a script may come to, whatever the replies are.  So a property of engines that none
of these requests breaks is kept by every script that asks for nothing else (`Withstands.play`).

While a run is active, its handlers may wait, and may have tasks carried out that call further handlers.
A property that others keep meanwhile, and that the failures of lines do not break, is kept by all of
them (`Steadfast.carryOut`), by induction on the fuel.
-/

namespace CommandBatch

variable {σ α β : Type}

/-- What a script asks an engine for, apart from looking at it and waiting. -/
inductive Request (σ : Type) where
  | edit (e : Edit)
  | registerCommand (d : Declaration) (handler : Option (Handler σ))
  | interpret (line : String)
  | await (t : Task)

/-- Whatever the replies are, the script asks only for what is allowed. -/
def Script.Asks (allowed : Request σ → Prop) : Script σ → Prop
  | .done _ => True
  | .raise _ => True
  | .look next => ∀ view, (next view).Asks allowed
  | .recall _ next => ∀ host, (next host).Asks allowed
  | .edit e next => allowed (.edit e) ∧ ∀ reply, (next reply).Asks allowed
  | .registerCommand d handler next =>
    allowed (.registerCommand d handler) ∧ ∀ reply, (next reply).Asks allowed
  | .interpret line next => allowed (.interpret line) ∧ ∀ reply, (next reply).Asks allowed
  | .await t next => allowed (.await t) ∧ ∀ reply, (next reply).Asks allowed
  | .wait _ next => next.Asks allowed

namespace Script

variable {allowed : Request σ → Prop}

theorem asks_of_all (h : ∀ request, allowed request) : (script : Script σ) → script.Asks allowed
  | .done _ => trivial
  | .raise _ => trivial
  | .look next => fun view => asks_of_all h (next view)
  | .recall _ next => fun host => asks_of_all h (next host)
  | .edit _ next => ⟨h _, fun reply => asks_of_all h (next reply)⟩
  | .registerCommand _ _ next => ⟨h _, fun reply => asks_of_all h (next reply)⟩
  | .interpret _ next => ⟨h _, fun reply => asks_of_all h (next reply)⟩
  | .await _ next => ⟨h _, fun reply => asks_of_all h (next reply)⟩
  | .wait _ next => asks_of_all h next

theorem Asks.mono {allowed' : Request σ → Prop} (h : ∀ request, allowed request → allowed' request) :
    (script : Script σ) → script.Asks allowed → script.Asks allowed'
  | .done _, _ => trivial
  | .raise _, _ => trivial
  | .look next, hasks => fun view => Asks.mono h (next view) (hasks view)
  | .recall _ next, hasks => fun host => Asks.mono h (next host) (hasks host)
  | .edit _ next, ⟨hask, hnext⟩ => ⟨h _ hask, fun reply => Asks.mono h (next reply) (hnext reply)⟩
  | .registerCommand _ _ next, ⟨hask, hnext⟩ =>
    ⟨h _ hask, fun reply => Asks.mono h (next reply) (hnext reply)⟩
  | .interpret _ next, ⟨hask, hnext⟩ => ⟨h _ hask, fun reply => Asks.mono h (next reply) (hnext reply)⟩
  | .await _ next, ⟨hask, hnext⟩ => ⟨h _ hask, fun reply => Asks.mono h (next reply) (hnext reply)⟩
  | .wait _ next, hasks => Asks.mono h next hasks

theorem asks_done (answer : Datum) : (done answer : Script σ).Asks allowed := trivial

theorem asks_failWith (r : Reason) : (failWith r : Script σ).Asks allowed := trivial

theorem asks_silent : (silent : Script σ).Asks allowed := trivial

theorem asks_orRaise {x : Except Fault α} {next : α → Script σ} (h : ∀ a, x = .ok a → (next a).Asks allowed) :
    (orRaise next x).Asks allowed := by
  cases x with
  | ok a => exact h a rfl
  | error fault => trivial

theorem asks_converted {x : Except ConversionError α} {next : α → Script σ}
    (h : ∀ a, x = .ok a → (next a).Asks allowed) : (converted x next).Asks allowed := by
  cases x with
  | ok a => exact h a rfl
  | error error => trivial

theorem asks_andThen {ed : Edit} {next : Script σ} (hed : allowed (.edit ed)) (h : next.Asks allowed) :
    (andThen ed next).Asks allowed := ⟨hed, fun _ => asks_orRaise fun _ _ => h⟩

theorem asks_edits {eds : List Edit} {next : Script σ} (heds : ∀ ed ∈ eds, allowed (.edit ed))
    (h : next.Asks allowed) : (edits eds next).Asks allowed := by
  induction eds with
  | nil => exact h
  | cons ed eds ih =>
    obtain ⟨hed, heds⟩ := List.forall_mem_cons.mp heds
    exact asks_andThen hed (ih heds)

end Script

/-- The operation keeps a property of engines, whether it succeeds or breaks off. -/
def Act.Preserves (I : Engine σ → Prop) (act : Act σ α) : Prop :=
  ∀ e, I e → act.Ensures (fun _ => I) (fun _ => I) e

namespace Act

variable {I : Engine σ → Prop}

theorem preserves_iff {act : Act σ α} : act.Preserves I ↔ ∀ e, I e → I (engineOf (act e)) :=
  forall_congr' fun _ => imp_congr_right fun _ => ensures_iff

theorem preserves_pure (a : α) : Preserves I (pure a : Act σ α) := fun _ h => h

theorem preserves_throw (fault : Fault) : Preserves I (throw fault : Act σ α) := fun _ h => h

theorem Preserves.bind {x : Act σ α} {f : α → Act σ β} (hx : Preserves I x)
    (hf : ∀ a, Preserves I (f a)) : Preserves I (x >>= f) := fun e he =>
  ensures_bind ((hx e he).mono (fun a e₁ h => hf a e₁ h) fun _ _ h => h)

theorem Preserves.attempt {x : Act σ α} (h : Preserves I x) : Preserves I (Engine.attempt x) := by
  rw [preserves_iff] at h ⊢
  intro e he
  have h := h e he
  unfold Engine.attempt
  cases hr : x e <;> rw [hr] at h <;> exact h

theorem Preserves.discard {x : Act σ α} (h : Preserves I x) :
    Preserves I (discard x : Act σ Unit) := fun e he => ensures_discard (h e he)

end Act

namespace Engine

open Act Process Run

/-! ## What a request does -/

/-- What an edit can make of an engine. -/
inductive Edited (e : Engine σ) : Edit → Engine σ → Prop
  | refused (ed : Edit) : Edited e ed e
  | output (text : String) :
      Edited e (.output text) { e with transcript := e.transcript.push (.output text) }
  | noted (n : Note) : Edited e (.note n) { e with transcript := e.transcript.push (.noted n) }
  | set (name type : String) (datum : Datum) :
      Edited e (.setVariable name type datum) { e with env := e.env.set name ⟨type, datum, none⟩ }
  | deleted {name : String} {env : Environment} (h : e.env.delete name = .ok env) :
      Edited e (.deleteVariable name) { e with env }
  | moved (ed : Edit) (batch : List String) (cursor : Int) (shownLines : List String) :
      Edited e ed { e with progress := { e.progress with batch, cursor, shownLines } }
  | typed {name : Datum} {lexis : Lexis} {priority : Option Int} {types : TypeRegistry}
      (h : e.services.types.register name lexis priority = .ok types) :
      Edited e (.registerType name lexis priority) { e with services := { e.services with types } }

theorem edited_of_edit (ed : Edit) (e : Engine σ) : Edited e ed (engineOf (edit ed e)) := by
  cases ed with
  | output text => exact .output text
  | note n => exact .noted n
  | setVariable name type datum => exact .set name type datum
  | deleteVariable name =>
    simp only [edit, deleteVariable, bind_apply, get_apply, orThrow]
    cases h : e.env.delete name with
    | ok env => exact .deleted h
    | error reason => exact .refused _
  | jump goal =>
    simp only [edit, jump, bind_apply, orThrow]
    cases goal.toWhole with
    | ok cursor => exact .moved _ e.progress.batch cursor e.progress.shownLines
    | error reason => exact .refused _
  | moveCursor cursor => exact .moved _ e.progress.batch cursor e.progress.shownLines
  | appendLine text =>
    exact .moved _ (e.progress.batch ++ [text]) e.progress.cursor e.progress.shownLines
  | clearShownLines => exact .moved _ e.progress.batch e.progress.cursor []
  | registerType name lexis priority =>
    simp only [edit, register, Services.register, bind_apply, get_apply, orThrow]
    cases h : e.services.types.register name lexis priority with
    | ok types => exact .typed h
    | error reason => exact .refused _

/-- The engine that has a command registered. -/
def equipped (c : Command (Handler σ)) (e : Engine σ) : Engine σ :=
  { e with services := { e.services with commands := e.services.commands.register c } }

/-- A registration puts its command into the registry if it is granted, and does nothing else. -/
theorem engineOf_registerCommand (d : Declaration) (handler : Option (Handler σ)) (e : Engine σ) :
    engineOf (registerCommand d handler e) = (d.command handler).toOption.elim e (equipped · e) := by
  simp only [registerCommand, register, Services.register, bind_apply, get_apply, orThrow]
  cases d.command handler <;> rfl

theorem registerCommand_cases (d : Declaration) (handler : Option (Handler σ)) (e : Engine σ) :
    engineOf (registerCommand d handler e) = e ∨
      ∃ c, d.command handler = .ok c ∧ engineOf (registerCommand d handler e) = equipped c e := by
  rw [engineOf_registerCommand]
  cases h : d.command handler with
  | ok c => exact .inr ⟨c, rfl, rfl⟩
  | error reason => exact .inl rfl

/-- The engine that is about to read a text. -/
def faced (text : String) (e : Engine σ) : Engine σ :=
  { e with progress := facing text e.busy e.progress }

/-- The engine that has read a line. -/
def understood (line : Line) (e : Engine σ) : Engine σ :=
  { e with progress := { e.progress with command := line.command, args := line.args } }

/-- What the engine makes of what it has read. -/
def taken (text : String) (e : Engine σ) : Except Fault Line → EStateM.Result Fault (Engine σ) Int
  | .ok line => .ok 0 (understood line e)
  | .error (.failure f) => .ok f.reason.code (failing f.reason text e)
  | .error fault => .error fault e

theorem interpret_eq (text : String) (e : Engine σ) :
    interpret text e =
      taken text (faced text e) (Line.read e.services.types.types e.setup.marks text) := by
  show (match Line.read e.services.types.types e.setup.marks text with
    | .ok line => _
    | .error (.failure f) => _
    | .error f => _ : Act σ Int) (faced text e) = _
  cases Line.read e.services.types.types e.setup.marks text with
  | ok line => rfl
  | error fault => cases fault <;> rfl

/-! ## What scripts keep -/

variable {others : Engine σ → Engine σ → Prop} {allowed : Request σ → Prop}
  {I : Engine σ → Prop} {go : Task → Process σ Int}

theorem preserves_edit {ed : Edit} (h : ∀ e e₁, I e → Edited e ed e₁ → I e₁) :
    (edit ed).Preserves I := preserves_iff.mpr fun e he => h e _ he (edited_of_edit ed e)

theorem preserves_registerCommand {d : Declaration} {handler : Option (Handler σ)}
    (h : ∀ e c, I e → d.command handler = .ok c → I (equipped c e)) :
    (registerCommand d handler).Preserves I := by
  refine preserves_iff.mpr fun e he => ?_
  rcases registerCommand_cases d handler e with hr | ⟨c, hc, hr⟩ <;> rw [hr]
  · exact he
  · exact h e c he hc

/-- A text that is interpreted is read, or is noted as a failure, or breaks off. -/
theorem preserves_interpret {text : String} (hfaced : ∀ e, I e → I (faced text e))
    (hread : ∀ e line, I e → Line.read e.services.types.types e.setup.marks text = .ok line →
      I (understood line (faced text e)))
    (hfailing : ∀ e f, I e → Line.read e.services.types.types e.setup.marks text = .error (.failure f) →
      I (failing f.reason text (faced text e))) : (interpret text).Preserves I := by
  refine preserves_iff.mpr fun e he => ?_
  rw [interpret_eq]
  cases h : Line.read e.services.types.types e.setup.marks text with
  | ok line => exact hread e line he h
  | error fault =>
    cases fault with
    | failure f => exact hfailing e f he h
    | _ => exact hfaced e he

/-- No request of those that are allowed breaks the property. -/
structure Withstands (allowed : Request σ → Prop) (I : Engine σ → Prop) : Prop where
  host : ∀ e host, I e → I { e with host }
  edit : ∀ ed, allowed (.edit ed) → (edit ed).Preserves I
  registerCommand : ∀ d handler, allowed (.registerCommand d handler) →
    (registerCommand d handler).Preserves I
  interpret : ∀ line, allowed (.interpret line) → (interpret line).Preserves I

/-- **A script that does not wait keeps what its requests keep.** -/
theorem Withstands.play (h : Withstands allowed I) :
    (script : Script σ) → script.Asks allowed → (play script).Preserves I
  | .done _, _ => preserves_pure _
  | .raise _, _ => preserves_throw _
  | .look next, hasks => fun e => Withstands.play h (next e.view) (hasks e.view) e
  | .recall change next, hasks => fun e he =>
    Withstands.play h (next e.host) (hasks e.host) { e with host := change e.host } (h.host e _ he)
  | .edit ed next, ⟨hask, hnext⟩ =>
    (h.edit ed hask).attempt.bind fun reply => Withstands.play h (next reply) (hnext reply)
  | .registerCommand d handler next, ⟨hask, hnext⟩ =>
    (h.registerCommand d handler hask).attempt.bind fun reply =>
      Withstands.play h (next reply) (hnext reply)
  | .interpret line next, ⟨hask, hnext⟩ =>
    (h.interpret line hask).attempt.bind fun reply => Withstands.play h (next reply) (hnext reply)
  | .await _ _, _ => preserves_throw _
  | .wait _ _, _ => preserves_throw _

/-- What others may have made of an engine: they have played scripts that ask only for what is allowed,
and the lines that they execute may have failed.  Runs that they start on an engine that is busy are
refused. -/
inductive Meddled (allowed : Request σ → Prop) : Engine σ → Engine σ → Prop
  | refl (e : Engine σ) : Meddled allowed e e
  | played {e e₁ : Engine σ} {script : Script σ} (h : Meddled allowed e e₁)
      (hasks : script.Asks allowed) : Meddled allowed e (engineOf (play script e₁))
  | failed {e e₁ : Engine σ} (h : Meddled allowed e e₁) (r : Reason) (text : String) :
      Meddled allowed e (failing r text e₁)

theorem Withstands.meddled (h : Withstands allowed I)
    (hfailing : ∀ r text e, I e → I (failing r text e)) {e e₁ : Engine σ} (he : I e)
    (hmeddled : Meddled allowed e e₁) : I e₁ := by
  induction hmeddled with
  | refl => exact he
  | played _ hasks ih => exact preserves_iff.mp (h.play _ hasks) _ ih
  | failed _ r text ih => exact hfailing r text _ ih

/-- The task can come to this end while others use the engine whenever it waits. -/
def CarriesAmid (others : Engine σ → Engine σ → Prop) (t : Task) (e : Engine σ)
    (r : EStateM.Result Fault (Engine σ) Int) : Prop :=
  ∃ fuel, (carryOut fuel t e).EndsAmid others r

/-- A task that ends undisturbed can also end like this among others. -/
theorem carriesAmid_of_carries (hrefl : ∀ e, others e e)
    {t : Task} {e : Engine σ} {r : EStateM.Result Fault (Engine σ) Int} (h : Carries t e r) :
    CarriesAmid others t e r := by
  obtain ⟨fuel, h⟩ := h
  exact ⟨fuel, endsAmid_of_result? hrefl _ h⟩

/-- The property is kept by others while an engine that is busy waits, and by all that its handlers may
do, which ask only for what is allowed. -/
structure Steadfast (others : Engine σ → Engine σ → Prop) (allowed : Request σ → Prop)
    (I : Engine σ → Prop) : Prop extends Withstands allowed I where
  busy : ∀ e, I e → e.busy = true
  others : ∀ e e₁, I e → others e e₁ → I e₁
  failing : ∀ r text e, I e → I (failing r text e)
  calls : ∀ e name command args, I e → e.services.commands.find? name = some command →
    (command.handler args).Asks allowed

end Engine

/-- The process keeps the property, also in its waits. -/
def Process.Upholds (others : Engine σ → Engine σ → Prop) (I : Engine σ → Prop)
    (p : Process σ α) : Prop :=
  ∀ e, I e → (p e).Ensures others I (fun _ => I) fun _ => I

namespace Process

variable {others : Engine σ → Engine σ → Prop} {I : Engine σ → Prop}

theorem upholds_ofAct {act : Act σ α} (h : act.Preserves I) : (ofAct act).Upholds others I :=
  fun e he => ensures_ofAct (h e he)

theorem Upholds.bind {x : Process σ α} {f : α → Process σ β} (hx : x.Upholds others I)
    (hf : ∀ a, (f a).Upholds others I) : (x >>= f).Upholds others I := fun e he =>
  ensures_bind ((hx e he).mono (fun _ h => h) (fun a e₁ h => hf a e₁ h) fun _ _ h => h)

theorem Upholds.attempt {x : Process σ α} (h : x.Upholds others I) : x.attempt.Upholds others I :=
  fun e he => ensures_attempt (h e he)

theorem upholds_wait (h : ∀ e e₁, I e → others e e₁ → I e₁) (w : Wait) :
    (wait w : Process σ Unit).Upholds others I := fun e he =>
  ensures_wait he (fun e₁ => h e e₁ he) fun e₁ => h e e₁ he

/-- What a process upholds holds of every engine that it can leave behind. -/
theorem Upholds.of_endsAmid {p : Process σ α} {e : Engine σ}
    {r : EStateM.Result Fault (Engine σ) α} (h : p.Upholds others I) (he : I e)
    (hends : (p e).EndsAmid others r) : I (engineOf r) := by
  cases r with
  | ok a e₁ => exact (h e he).of_ok hends
  | error fault e₁ => exact (h e he).of_error hends

end Process

namespace Engine

open Act Process Run

variable {others : Engine σ → Engine σ → Prop} {allowed : Request σ → Prop}
  {I : Engine σ → Prop} {go : Task → Process σ Int}

/-- A line keeps what its beginning, its command and its end keep. -/
theorem upholds_step {index : Nat} {text : String} (hopen : (openLine index text).Preserves I)
    (hexecute : (execute go).Upholds others I)
    (hclose : ∀ code, (closeLine index text code).Preserves I) :
    (step go index text).Upholds others I := by
  refine (upholds_ofAct hopen).bind fun code => Upholds.bind ?_ fun code₁ => upholds_ofAct (hclose code₁)
  by_cases hcode : code = 0
  · simp only [executeUnless, if_pos hcode]
    exact hexecute
  · simp only [executeUnless, if_neg hcode]
    exact fun _ he => ensures_pure he

/-- A batch keeps what its lines keep. -/
theorem upholds_proceed {go : Task → Process σ Int}
    (hpassing : ∀ index e, I e → I (passing index e))
    (hstep : ∀ index text, (step go index text).Upholds others I) (lines : Nat) :
    (proceed go lines).Upholds others I := fun e he =>
  ensures_proceed (P := fun _ => I) (fun e index text h _ =>
      (hstep index text _ (hpassing index e h)).mono (fun _ h => h)
        (fun code e₁ h => by split <;> exact h) fun _ _ h => h)
    (fun _ h => h) (fun _ h _ => h) lines he

/-- **A handler keeps what its requests, its waits and its tasks keep.** -/
theorem Withstands.playOut (h : Withstands allowed I) (hothers : ∀ e e₁, I e → others e e₁ → I e₁)
    (hgo : ∀ t, allowed (.await t) → (go t).Upholds others I) :
    (script : Script σ) → script.Asks allowed → (playOut go script).Upholds others I
  | .done _, _ => fun _ he => ensures_pure he
  | .raise _, _ => upholds_ofAct (preserves_throw _)
  | .look next, hasks => fun e => Withstands.playOut h hothers hgo (next e.view) (hasks e.view) e
  | .recall change next, hasks => fun e he =>
    Withstands.playOut h hothers hgo (next e.host) (hasks e.host) { e with host := change e.host }
      (h.host e _ he)
  | .edit ed next, ⟨hask, hnext⟩ =>
    (upholds_ofAct (h.edit ed hask).attempt).bind fun reply =>
      Withstands.playOut h hothers hgo (next reply) (hnext reply)
  | .registerCommand d handler next, ⟨hask, hnext⟩ =>
    (upholds_ofAct (h.registerCommand d handler hask).attempt).bind fun reply =>
      Withstands.playOut h hothers hgo (next reply) (hnext reply)
  | .interpret line next, ⟨hask, hnext⟩ =>
    (upholds_ofAct (h.interpret line hask).attempt).bind fun reply =>
      Withstands.playOut h hothers hgo (next reply) (hnext reply)
  | .await t next, ⟨hask, hnext⟩ =>
    (hgo t hask).attempt.bind fun reply => Withstands.playOut h hothers hgo (next reply) (hnext reply)
  | .wait w next, hasks =>
    (upholds_wait hothers w).bind fun _ => Withstands.playOut h hothers hgo next hasks

theorem Steadfast.playOut (h : Steadfast others allowed I) (hgo : ∀ t, (go t).Upholds others I)
    (script : Script σ) (hasks : script.Asks allowed) : (playOut go script).Upholds others I :=
  h.toWithstands.playOut h.others (fun t _ => hgo t) script hasks

theorem Steadfast.execute (h : Steadfast others allowed I) (hgo : ∀ t, (go t).Upholds others I) :
    (execute go).Upholds others I := fun e he =>
  ensures_execute he
    (fun command args hfind _ =>
      h.playOut hgo (command.handler args) (h.calls e _ command args he hfind) e he)
    (fun _ h => h) (fun r e₁ => h.failing r _ e₁) fun _ _ _ h => h

theorem Steadfast.during (h : Steadfast others allowed I) (x : Process σ Int) :
    (during x).Upholds others I := fun e he => ensures_during_of_busy (h.busy e he) he

/-- **No task that a handler waits for breaks the property.**  A run of its own is refused, and the
execution of a line calls one more handler. -/
theorem Steadfast.carryOut (h : Steadfast others allowed I) (fuel : Nat) (t : Task) :
    (carryOut fuel t).Upholds others I := by
  induction fuel generalizing t with
  | zero => exact fun _ he => .exhausted he
  | succ fuel ih =>
    cases t with
    | execute => exact h.execute ih
    | runLine line => exact h.during _
    | runBatch lines => exact h.during _

end Engine

end CommandBatch
