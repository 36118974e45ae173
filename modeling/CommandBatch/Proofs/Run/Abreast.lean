import CommandBatch.Proofs.Run.Hooks

/-!
# Two runs abreast

Two runs go abreast if neither can be told from the other by how it goes on: they wait for the same, are
exhausted together, and end with the same result or the same fault.  What differs are the engines, and
all that is known of them is a relation, which holds wherever the runs wait and has to be kept by
whatever else happens meanwhile.

An operation that respects a relation goes abreast of itself on engines that are related.  A script sees
of an engine no more than its view, the state of its host and the replies to its requests.  So a relation
that hides all differences from these is respected by every script (`Veils.play`, `Veils.playOut`), and
by the hooks and step rules that a run tells of what it does.  For most requests it is enough that the
engines have the same variables and services, and may be changed in the same way (`Uniform`).
-/

namespace CommandBatch

open Engine

variable {σ α β : Type}

/-- Both operations have ended with the same result, on engines with `P`, or with the same fault, on
engines with `F`. -/
inductive Alike (P : α → Engine σ → Engine σ → Prop) (F : Fault → Engine σ → Engine σ → Prop) :
    EStateM.Result Fault (Engine σ) α → EStateM.Result Fault (Engine σ) α → Prop
  | ok {a : α} {e e' : Engine σ} (h : P a e e') : Alike P F (.ok a e) (.ok a e')
  | error {fault : Fault} {e e' : Engine σ} (h : F fault e e') :
      Alike P F (.error fault e) (.error fault e')

namespace Run

/-- The runs wait for the same on engines with `W`, whatever happens to these as long as it keeps `W`,
and end alike.  If they are exhausted, it is on engines with `W` as well. -/
inductive Abreast (W : Engine σ → Engine σ → Prop) (P : α → Engine σ → Engine σ → Prop)
    (F : Fault → Engine σ → Engine σ → Prop) : Run σ α → Run σ α → Prop
  | ended {r r' : EStateM.Result Fault (Engine σ) α} (h : Alike P F r r') :
      Abreast W P F (.ended r) (.ended r')
  | waiting {e e' : Engine σ} {w : Wait} {next next' : Signal → Engine σ → Run σ α} (h : W e e')
      (hnext : ∀ signal e₁ e₁', W e₁ e₁' → Abreast W P F (next signal e₁) (next' signal e₁')) :
      Abreast W P F (.waiting e w next) (.waiting e' w next')
  | exhausted {e e' : Engine σ} (h : W e e') : Abreast W P F (.exhausted e) (.exhausted e')

end Run

section Ends

variable {W : Engine σ → Engine σ → Prop} {P P' : α → Engine σ → Engine σ → Prop}
  {F F' : Fault → Engine σ → Engine σ → Prop} {r r' : EStateM.Result Fault (Engine σ) α}

theorem Alike.mono (h : Alike P F r r') (hP : ∀ a e e', P a e e' → P' a e e')
    (hF : ∀ fault e e', F fault e e' → F' fault e e') : Alike P' F' r r' := by
  cases h with
  | ok h => exact .ok (hP _ _ _ h)
  | error h => exact .error (hF _ _ _ h)

theorem Alike.symm (h : Alike P F r r') :
    Alike (fun a e e' => P a e' e) (fun fault e e' => F fault e' e) r' r := by
  cases h with
  | ok h => exact .ok h
  | error h => exact .error h

/-- What the second operation ensures of its own holds of its end as well. -/
theorem Alike.and_ensures {act : Act σ α} {e : Engine σ} {Q : α → Engine σ → Prop}
    {G : Fault → Engine σ → Prop} (h : Alike P F r (act e)) (hact : act.Ensures Q G e) :
    Alike (fun a e e' => P a e e' ∧ Q a e') (fun fault e e' => F fault e e' ∧ G fault e') r (act e) := by
  unfold Act.Ensures at hact
  generalize act e = r' at h hact
  cases h with
  | ok h => exact .ok ⟨h, hact⟩
  | error h => exact .error ⟨h, hact⟩

namespace Run

variable {run run' : Run σ α}

theorem Abreast.mono (h : run.Abreast W P F run') (hP : ∀ a e e', P a e e' → P' a e e')
    (hF : ∀ fault e e', F fault e e' → F' fault e e') : run.Abreast W P' F' run' := by
  induction h with
  | ended h => exact .ended (h.mono hP hF)
  | waiting h _ ih => exact .waiting h ih
  | exhausted h => exact .exhausted h

theorem Abreast.andThen {Q : β → Engine σ → Engine σ → Prop} {G : Fault → Engine σ → Engine σ → Prop}
    {next next' : EStateM.Result Fault (Engine σ) α → Run σ β} (h : run.Abreast W P F run')
    (hnext : ∀ r r', Alike P F r r' → (next r).Abreast W Q G (next' r')) :
    (run.andThen next).Abreast W Q G (run'.andThen next') := by
  induction h with
  | ended h => exact hnext _ _ h
  | waiting h _ ih => exact .waiting h ih
  | exhausted h => exact .exhausted h

/-- Where only the first run goes on, it has to end as the second did. -/
theorem Abreast.andThen_left {Q : α → Engine σ → Engine σ → Prop} {G : Fault → Engine σ → Engine σ → Prop}
    {next : EStateM.Result Fault (Engine σ) α → Run σ α} (h : run.Abreast W P F run')
    (hnext : ∀ r r', Alike P F r r' → (next r).Abreast W Q G (.ended r')) :
    (run.andThen next).Abreast W Q G run' := by
  induction h with
  | ended h => exact hnext _ _ h
  | waiting h _ ih => exact .waiting h ih
  | exhausted h => exact .exhausted h

/-- **Runs that go abreast end together**, and alike, if their waits pass undisturbed. -/
theorem Abreast.result? (h : run.Abreast W P F run') (hends : run.result? = some r) :
    ∃ r', run'.result? = some r' ∧ Alike P F r r' := by
  induction h with
  | ended h =>
    obtain rfl := Option.some.inj hends
    exact ⟨_, rfl, h⟩
  | waiting h _ ih => exact ih .resume _ _ h hends
  | exhausted h => cases hends

theorem Abreast.symm (h : run.Abreast W P F run') :
    run'.Abreast (fun e e' => W e' e) (fun a e e' => P a e' e) (fun fault e e' => F fault e' e) run := by
  induction h with
  | ended h => exact .ended h.symm
  | waiting h _ ih => exact .waiting h fun signal e₁ e₁' h₁ => ih signal e₁' e₁ h₁
  | exhausted h => exact .exhausted h

/-- A run that others leave on engines of a kind goes abreast of itself. -/
theorem Ensures.abreast {I : Engine σ → Prop} {P : α → Engine σ → Prop} {F : Fault → Engine σ → Prop}
    (h : run.Ensures (fun _ => I) I P F) :
    run.Abreast (fun e e' => e = e' ∧ I e) (fun a e e' => e = e' ∧ P a e)
      (fun fault e e' => e = e' ∧ F fault e) run := by
  induction h with
  | ok h => exact .ended (.ok ⟨rfl, h⟩)
  | error h => exact .ended (.error ⟨rfl, h⟩)
  | waiting h _ ih =>
    refine .waiting ⟨rfl, h⟩ fun signal e₁ e₁' h₁ => ?_
    obtain ⟨rfl, h₁⟩ := h₁
    exact ih signal e₁ h₁
  | exhausted h => exact .exhausted ⟨rfl, h⟩

end Run

end Ends

/-! ## Operations that respect a relation -/

/-- On related engines the operation ends alike, and they are related still. -/
def Act.Respects (R : Engine σ → Engine σ → Prop) (act : Act σ α) : Prop :=
  ∀ e e', R e e' → Alike (fun _ => R) (fun _ => R) (act e) (act e')

/-- On related engines the operation goes abreast of itself, and they are related still. -/
def Process.Respects (R : Engine σ → Engine σ → Prop) (p : Process σ α) : Prop :=
  ∀ e e', R e e' → (p e).Abreast R (fun _ => R) (fun _ => R) (p e')

namespace Act

variable {R : Engine σ → Engine σ → Prop}

theorem respects_pure (a : α) : Respects R (pure a : Act σ α) := fun _ _ h => .ok h

theorem respects_throw (fault : Fault) : Respects R (throw fault : Act σ α) := fun _ _ h => .error h

theorem respects_orThrow {ε : Type} (f : ε → Fault) (x : Except ε α) :
    Respects R (orThrow f x : Act σ α) := by
  cases x with
  | ok a => exact respects_pure a
  | error reason => exact respects_throw (f reason)

theorem respects_modify {f : Engine σ → Engine σ} (h : ∀ e e', R e e' → R (f e) (f e')) :
    Respects R (modify f : Act σ Unit) := fun e e' he => .ok (h e e' he)

theorem alike_bind {Q : α → Engine σ → Engine σ → Prop} {P : β → Engine σ → Engine σ → Prop}
    {F : Fault → Engine σ → Engine σ → Prop} {x x' : Act σ α} {f f' : α → Act σ β} {e e' : Engine σ}
    (h : Alike Q F (x e) (x' e')) (hf : ∀ a e₁ e₁', Q a e₁ e₁' → Alike P F (f a e₁) (f' a e₁')) :
    Alike P F ((x >>= f) e) ((x' >>= f') e') := by
  rw [bind_apply, bind_apply]
  generalize x e = r at h
  generalize x' e' = r' at h
  cases h with
  | ok h => exact hf _ _ _ h
  | error h => exact .error h

theorem Respects.bind {x : Act σ α} {f : α → Act σ β} (hx : x.Respects R)
    (hf : ∀ a, (f a).Respects R) : (x >>= f).Respects R := fun e e' he =>
  alike_bind (hx e e' he) fun a e₁ e₁' h => hf a e₁ e₁' h

theorem Respects.attempt {x : Act σ α} (h : x.Respects R) : (Engine.attempt x).Respects R := by
  intro e e' he
  have h := h e e' he
  unfold Engine.attempt
  generalize x e = r at h
  generalize x e' = r' at h
  cases h with
  | ok h | error h => exact .ok h

theorem Respects.discard {x : Act σ α} (h : x.Respects R) :
    Respects R (discard x : Act σ Unit) := by
  intro e e' he
  have h := h e e' he
  rw [discard_apply, discard_apply]
  generalize x e = r at h
  generalize x e' = r' at h
  cases h with
  | ok h => exact .ok h
  | error h => exact .error h

theorem Respects.guarded {x : Act σ Unit} (h : x.Respects R) (wrap : String → ExtensionError) :
    (guarded wrap x).Respects R := by
  intro e e' he
  have h := h e e' he
  unfold Engine.guarded
  generalize x e = r at h
  generalize x e' = r' at h
  cases h with
  | ok h => exact .ok h
  | error h => exact .error h

end Act

namespace Process

variable {R : Engine σ → Engine σ → Prop}

theorem respects_ofAct {act : Act σ α} (h : act.Respects R) : (ofAct act).Respects R :=
  fun e e' he => .ended (h e e' he)

theorem respects_pure (a : α) : Respects R (pure a : Process σ α) := fun _ _ h => .ended (.ok h)

theorem respects_exhausted : Respects R (.exhausted : Process σ α) := fun _ _ h => .exhausted h

/-- The second operations go on abreast where the first have succeeded. -/
theorem abreast_bind {W : Engine σ → Engine σ → Prop} {Q : α → Engine σ → Engine σ → Prop}
    {P : β → Engine σ → Engine σ → Prop} {F : Fault → Engine σ → Engine σ → Prop} {x x' : Process σ α}
    {f f' : α → Process σ β} {e e' : Engine σ} (h : (x e).Abreast W Q F (x' e'))
    (hf : ∀ a e₁ e₁', Q a e₁ e₁' → (f a e₁).Abreast W P F (f' a e₁')) :
    ((x >>= f) e).Abreast W P F ((x' >>= f') e') := by
  refine h.andThen fun r r' hr => ?_
  cases hr with
  | ok h => exact hf _ _ _ h
  | error h => exact .ended (.error h)

theorem Respects.bind {x : Process σ α} {f : α → Process σ β} (hx : x.Respects R)
    (hf : ∀ a, (f a).Respects R) : (x >>= f).Respects R := fun e e' he =>
  abreast_bind (hx e e' he) fun a e₁ e₁' h => hf a e₁ e₁' h

theorem Respects.attempt {x : Process σ α} (h : x.Respects R) : x.attempt.Respects R :=
  fun e e' he => (h e e' he).andThen fun r r' hr => by
    cases hr with
    | ok h | error h => exact .ended (.ok h)

theorem abreast_releasing {W : Engine σ → Engine σ → Prop} {P : α → Engine σ → Engine σ → Prop}
    {F : Fault → Engine σ → Engine σ → Prop} {x x' : Process σ α} {e e' : Engine σ}
    (h : (x e).Abreast W (fun a e₁ e₁' => P a (freed e₁) (freed e₁'))
      (fun fault e₁ e₁' => F fault (freed e₁) (freed e₁')) (x' e')) :
    (x.releasing e).Abreast W P F (x'.releasing e') :=
  h.andThen fun r r' hr => by
    cases hr with
    | ok h => exact .ended (.ok h)
    | error h => exact .ended (.error h)

theorem respects_wait (w : Wait) : Respects R (wait w : Process σ Unit) := fun e e' he =>
  .waiting he fun signal e₁ e₁' h => by
    cases signal with
    | resume => exact .ended (.ok h)
    | cancel => exact .ended (.error h)

end Process

/-- **Tasks that go abreast come to the same**, whatever fuel they need to get under way. -/
theorem carries_of_abreast {W : Engine σ → Engine σ → Prop} {P : Int → Engine σ → Engine σ → Prop}
    {F : Fault → Engine σ → Engine σ → Prop} {task task' : Task} {e e' : Engine σ} (start : Nat)
    (h : ∀ fuel, (carryOut (fuel + start) task e).Abreast W P F (carryOut (fuel + start) task' e')) :
    (∀ r, Carries task e r → ∃ r', Carries task' e' r' ∧ Alike P F r r') ∧
      ∀ r', Carries task' e' r' → ∃ r, Carries task e r ∧ Alike P F r r' := by
  constructor
  · rintro r ⟨fuel, hr⟩
    obtain ⟨r', hr', halike⟩ := (h fuel).result? (carryOut_below (Nat.le_add_right fuel start) task hr)
    exact ⟨r', ⟨fuel + start, hr'⟩, halike⟩
  · rintro r' ⟨fuel, hr'⟩
    obtain ⟨r, hr, halike⟩ :=
      (h fuel).symm.result? (carryOut_below (Nat.le_add_right fuel start) task' hr')
    exact ⟨r, ⟨fuel + start, hr⟩, halike.symm⟩

/-! ## Scripts -/

/-- The change moves the cursor, or adds to the batch. -/
def Edit.Moves : Edit → Prop
  | .jump _ | .moveCursor _ | .appendLine _ => True
  | _ => False

/-- Whatever it sees of engines with views that are related, the script goes on in the same way. -/
def Script.Heeds (V : View → View → Prop) : Script σ → Prop
  | .done _ => True
  | .raise _ => True
  | .look next => (∀ v v', V v v' → next v = next v') ∧ ∀ v, (next v).Heeds V
  | .recall _ next => ∀ host, (next host).Heeds V
  | .edit _ next => ∀ reply, (next reply).Heeds V
  | .registerCommand _ _ next => ∀ reply, (next reply).Heeds V
  | .interpret _ next => ∀ reply, (next reply).Heeds V
  | .await _ next => ∀ reply, (next reply).Heeds V
  | .wait _ next => next.Heeds V

/-- On equal views every script goes on in the same way. -/
theorem Script.heeds_eq : (script : Script σ) → script.Heeds Eq
  | .done _ => trivial
  | .raise _ => trivial
  | .look next => ⟨fun _ _ h => congrArg next h, fun v => (next v).heeds_eq⟩
  | .recall _ next => fun host => (next host).heeds_eq
  | .edit _ next => fun reply => (next reply).heeds_eq
  | .registerCommand _ _ next => fun reply => (next reply).heeds_eq
  | .interpret _ next => fun reply => (next reply).heeds_eq
  | .await _ next => fun reply => (next reply).heeds_eq
  | .wait _ next => next.heeds_eq

namespace Engine

open Act Process Run

/-! ### Requests -/

/-- Related engines have the same variables and services, and stay related if both are changed in the same
way.  Whether this goes for the cursor and the batch too is left open. -/
structure Uniform (moves : Prop) (R : Engine σ → Engine σ → Prop) : Prop where
  env : ∀ e e', R e e' → e.env = e'.env
  services : ∀ e e', R e e' → e.services = e'.services
  setEnv : ∀ env e e', R e e' → R { e with env } { e' with env }
  setServices : ∀ services e e', R e e' → R { e with services } { e' with services }
  record : ∀ r, (record r : Act σ Unit).Respects R
  shownLines : (progressBy fun p => { p with shownLines := [] } : Act σ Unit).Respects R
  cursor : moves → ∀ cursor, (progressBy fun p => { p with cursor } : Act σ Unit).Respects R
  batch : moves → ∀ line, (progressBy fun p => { p with batch := p.batch ++ [line] } : Act σ Unit).Respects R

section Requests
variable {moves : Prop} {R : Engine σ → Engine σ → Prop}

theorem Uniform.register (h : Uniform moves R) (owner : String) (r : Registration σ) :
    (register owner r).Respects R := by
  intro e e' he
  simp only [Engine.register, bind_apply, get_apply, h.services e e' he]
  cases e'.services.register owner r with
  | ok services => exact .ok (h.setServices services e e' he)
  | error error => exact .error he

/-- **No request tells such engines apart**, but for one that moves the cursor or the batch. -/
theorem Uniform.edit (h : Uniform moves R) {ed : Edit} (hed : ed.Moves → moves) : (edit ed).Respects R := by
  cases ed with
  | output | note => exact h.record _
  | setVariable name type datum =>
    intro e e' he
    have hset : R { e with env := e.env.set name ⟨type, datum, none⟩ }
        { e' with env := e'.env.set name ⟨type, datum, none⟩ } := by
      rw [h.env e e' he]
      exact h.setEnv _ e e' he
    exact .ok hset
  | deleteVariable name =>
    intro e e' he
    simp only [Engine.edit, deleteVariable, bind_apply, get_apply, h.env e e' he]
    cases e'.env.delete name with
    | ok env => exact .ok (h.setEnv env e e' he)
    | error reason => exact .error he
  | jump goal =>
    intro e e' he
    simp only [Engine.edit, jump, bind_apply]
    cases goal.toWhole with
    | ok cursor => exact h.cursor (hed trivial) cursor e e' he
    | error error => exact .error he
  | moveCursor cursor => exact h.cursor (hed trivial) cursor
  | appendLine line => exact h.batch (hed trivial) line
  | clearShownLines => exact h.shownLines
  | registerType name lexis priority => exact h.register "" _

end Requests

/-! ### Scripts -/

/-- On related engines a script sees related views and the same state of the host, and no request that
is allowed tells them apart. -/
structure Veils (allowed : Request σ → Prop) (V : View → View → Prop)
    (R : Engine σ → Engine σ → Prop) : Prop where
  view : ∀ e e', R e e' → V e.view e'.view
  host : ∀ e e', R e e' → e.host = e'.host ∧ ∀ host, R { e with host } { e' with host }
  edit : ∀ ed, allowed (.edit ed) → (edit ed).Respects R
  registerCommand : ∀ d handler, allowed (.registerCommand d handler) →
    (registerCommand d handler).Respects R
  interpret : ∀ line, allowed (.interpret line) → (interpret line).Respects R

variable {allowed : Request σ → Prop} {V : View → View → Prop} {R : Engine σ → Engine σ → Prop}
  {go : Task → Process σ Int}

/-- **A script that does not wait cannot tell related engines apart.** -/
theorem Veils.play (h : Veils allowed V R) :
    (script : Script σ) → script.Asks allowed → script.Heeds V → (play script).Respects R
  | .done _, _, _ => respects_pure _
  | .raise _, _, _ => respects_throw _
  | .look next, hasks, ⟨hsame, hnext⟩ => fun e e' he => by
    show Alike _ _ (Engine.play (next e.view) e) (Engine.play (next e'.view) e')
    rw [← hsame _ _ (h.view e e' he)]
    exact Veils.play h (next e.view) (hasks e.view) (hnext e.view) e e' he
  | .recall change next, hasks, hheeds => fun e e' he => by
    obtain ⟨hhost, hchange⟩ := h.host e e' he
    show Alike _ _ (Engine.play (next e.host) { e with host := change e.host })
      (Engine.play (next e'.host) { e' with host := change e'.host })
    rw [← hhost]
    exact Veils.play h (next e.host) (hasks e.host) (hheeds e.host) _ _ (hchange _)
  | .edit ed next, ⟨hask, hnext⟩, hheeds =>
    (h.edit ed hask).attempt.bind fun reply => Veils.play h (next reply) (hnext reply) (hheeds reply)
  | .registerCommand d handler next, ⟨hask, hnext⟩, hheeds =>
    (h.registerCommand d handler hask).attempt.bind fun reply =>
      Veils.play h (next reply) (hnext reply) (hheeds reply)
  | .interpret line next, ⟨hask, hnext⟩, hheeds =>
    (h.interpret line hask).attempt.bind fun reply =>
      Veils.play h (next reply) (hnext reply) (hheeds reply)
  | .await _ _, _, _ => respects_throw _
  | .wait _ _, _, _ => respects_throw _

/-- **A handler cannot tell related engines apart**, given that the tasks that it waits for do not. -/
theorem Veils.playOut (h : Veils allowed V R) (hgo : ∀ t, allowed (.await t) → (go t).Respects R) :
    (script : Script σ) → script.Asks allowed → script.Heeds V → (playOut go script).Respects R
  | .done _, _, _ => Process.respects_pure _
  | .raise _, _, _ => respects_ofAct (Act.respects_throw _)
  | .look next, hasks, ⟨hsame, hnext⟩ => fun e e' he => by
    show (Engine.playOut go (next e.view) e).Abreast _ _ _ (Engine.playOut go (next e'.view) e')
    rw [← hsame _ _ (h.view e e' he)]
    exact Veils.playOut h hgo (next e.view) (hasks e.view) (hnext e.view) e e' he
  | .recall change next, hasks, hheeds => fun e e' he => by
    obtain ⟨hhost, hchange⟩ := h.host e e' he
    show (Engine.playOut go (next e.host) { e with host := change e.host }).Abreast _ _ _
      (Engine.playOut go (next e'.host) { e' with host := change e'.host })
    rw [← hhost]
    exact Veils.playOut h hgo (next e.host) (hasks e.host) (hheeds e.host) _ _ (hchange _)
  | .edit ed next, ⟨hask, hnext⟩, hheeds =>
    (respects_ofAct (h.edit ed hask).attempt).bind fun reply =>
      Veils.playOut h hgo (next reply) (hnext reply) (hheeds reply)
  | .registerCommand d handler next, ⟨hask, hnext⟩, hheeds =>
    (respects_ofAct (h.registerCommand d handler hask).attempt).bind fun reply =>
      Veils.playOut h hgo (next reply) (hnext reply) (hheeds reply)
  | .interpret line next, ⟨hask, hnext⟩, hheeds =>
    (respects_ofAct (h.interpret line hask).attempt).bind fun reply =>
      Veils.playOut h hgo (next reply) (hnext reply) (hheeds reply)
  | .await t next, ⟨hask, hnext⟩, hheeds =>
    (hgo t hask).attempt.bind fun reply =>
      Veils.playOut h hgo (next reply) (hnext reply) (hheeds reply)
  | .wait w next, hasks, hheeds =>
    (respects_wait w).bind fun _ => Veils.playOut h hgo next hasks hheeds

/-! ## Hooks, step rules and the function that is told the code -/

/-- Hooks are called alike where they are shown the same. -/
theorem Veils.callHooks (h : Veils allowed V R) (hrecord : ∀ r, (record r : Act σ Unit).Respects R)
    (hshown : ∀ e e', R e e' → e.progress.shownLines = e'.progress.shownLines) (n : Notice)
    {hooks : List (Hook (Notice → Script σ))}
    (hasks : ∀ hook ∈ hooks, ∀ n, (hook.handler n).Asks allowed)
    (hheeds : ∀ hook ∈ hooks, ∀ n, (hook.handler n).Heeds V) : (callHooks n hooks).Respects R := by
  induction hooks with
  | nil => exact respects_pure _
  | cons hook hooks ih =>
    obtain ⟨hask, hasks⟩ := List.forall_mem_cons.mp hasks
    obtain ⟨hheed, hheeds⟩ := List.forall_mem_cons.mp hheeds
    intro e e' he
    have hsame : asShown n e'.progress = asShown n e.progress := by
      cases n with
      | batchStart => exact congrArg Notice.batchStart (hshown e e' he).symm
      | _ => rfl
    have hcalls (e : Engine σ) : Engine.callHooks n (hook :: hooks) e =
        (record (.hookCalled hook.number (asShown n e.progress)) >>= fun _ =>
          discard (Engine.play (hook.handler (asShown n e.progress))) >>= fun _ =>
            Engine.callHooks n hooks) e := rfl
    have hrest (shown : Notice) : (record (.hookCalled hook.number shown) >>= fun _ =>
        discard (Engine.play (hook.handler shown)) >>= fun _ => Engine.callHooks n hooks).Respects R :=
      (hrecord _).bind fun _ => (h.play _ (hask shown) (hheed shown)).discard.bind fun _ => ih hasks hheeds
    rw [hcalls, hcalls, hsame]
    exact hrest _ e e' he

/-- An event is announced alike. -/
theorem Veils.announce (h : Veils allowed V R) (hrecord : ∀ r, (record r : Act σ Unit).Respects R)
    (hshown : ∀ e e', R e e' → e.progress.shownLines = e'.progress.shownLines) {n : Notice}
    {e e' : Engine σ} (hhooks : e.services.hooks = e'.services.hooks)
    (hasks : ∀ hook ∈ e.services.hooks.hooksFor n.event, ∀ n, (hook.handler n).Asks allowed)
    (hheeds : ∀ hook ∈ e.services.hooks.hooksFor n.event, ∀ n, (hook.handler n).Heeds V)
    (he : R (announcing n e) (announcing n e')) :
    Alike (fun _ => R) (fun _ => R) (announce n e) (announce n e') := by
  rw [announce_eq, announce_eq, ← hhooks]
  exact (h.callHooks hrecord hshown n hasks hheeds).guarded _ _ _ he

/-- The engine with the lines and the cursor of a batch that is about to be announced. -/
def batched (lines : List String) (cursor : Int) (e : Engine σ) : Engine σ :=
  { e with progress := { e.progress with batch := lines, cursor } }

theorem openBatch_eq (lines : List String) (cursor : Int) (e : Engine σ) :
    openBatch lines cursor e = Engine.announce (.batchStart lines) (batched lines cursor e) := rfl

theorem Veils.fireRules (h : Veils allowed V R) (hrecord : ∀ r, (record r : Act σ Unit).Respects R)
    (c : StepContext) {rules : List (StepRule (StepContext → Script σ))}
    (hasks : ∀ rule ∈ rules, ∀ c, (rule.handler c).Asks allowed)
    (hheeds : ∀ rule ∈ rules, ∀ c, (rule.handler c).Heeds V) : (fireRules c rules).Respects R := by
  induction rules with
  | nil => exact respects_pure _
  | cons rule rules ih =>
    obtain ⟨hask, hasks⟩ := List.forall_mem_cons.mp hasks
    obtain ⟨hheed, hheeds⟩ := List.forall_mem_cons.mp hheeds
    exact (hrecord _).bind fun _ => (h.play _ (hask c) (hheed c)).discard.bind fun _ => ih hasks hheeds

/-- The host is told the code alike. -/
theorem Veils.callBack (h : Veils allowed V R) {code : Int} {e e' : Engine σ}
    (hsetup : e.setup.onCompletion = e'.setup.onCompletion)
    (hasks : ∀ script, e.setup.onCompletion = some script → (script code).Asks allowed)
    (hheeds : ∀ script, e.setup.onCompletion = some script → (script code).Heeds V) (he : R e e') :
    Alike (fun _ => R) (fun _ => R) (callBack code e) (callBack code e') := by
  have hcall (e : Engine σ) : Engine.callBack code e =
      (match e.setup.onCompletion with
        | none => pure code
        | some script => discard (Engine.play (script code)) >>= fun _ => pure code : Act σ Int) e := by
    cases hscript : e.setup.onCompletion <;> simp [Engine.callBack, hscript]
  rw [hcall, hcall, ← hsetup]
  cases hscript : e.setup.onCompletion with
  | none => exact .ok he
  | some script =>
    exact ((h.play _ (hasks script hscript) (hheeds script hscript)).discard.bind fun _ =>
      respects_pure code) e e' he

end Engine

end CommandBatch
