import CommandBatch.Proofs.Run.Amid

/-!
# What scripts raise

What a handler breaks off with is what its script raises, wherever and amid whatever it is played
(`Script.Raises`).  Most handlers are put together of a few combinators, and each of these raises what its
parts do and what is said here of itself: a change that the engine refuses, a number or truth value that a
datum cannot be taken for, or the end of a wait that is called off.
-/

namespace CommandBatch

variable {σ α : Type}

open Engine Process

/-- Every run ensures what always holds. -/
theorem Run.ensures_of_all {others : Engine σ → Engine σ → Prop} {W : Engine σ → Prop}
    {P : α → Engine σ → Prop} {F : Fault → Engine σ → Prop} (hW : ∀ e, W e) (hP : ∀ a e, P a e)
    (hF : ∀ fault e, F fault e) (run : Run σ α) : run.Ensures others W P F := by
  induction run with
  | ended r =>
    cases r with
    | ok a e => exact .ok (hP a e)
    | error fault e => exact .error (hF fault e)
  | waiting e w next ih => exact .waiting (hW e) fun signal e₁ _ => ih signal e₁
  | exhausted e => exact .exhausted (hW e)

namespace Script

/-- Wherever the script is played, and whatever others do in its waits, it raises no other faults. -/
def Raises (F : Fault → Prop) (script : Script σ) : Prop :=
  ∀ (others : Engine σ → Engine σ → Prop) (go : Task → Process σ Int) (e : Engine σ),
    (playOut go script e).Ensures others (fun _ => True) (fun _ _ => True) fun fault _ => F fault

variable {F : Fault → Prop} {next : Script σ}

theorem raises_of_all (h : ∀ fault, F fault) (script : Script σ) : script.Raises F := fun _ go e =>
  Run.ensures_of_all (fun _ => trivial) (fun _ _ => trivial) (fun fault _ => h fault) (playOut go script e)

theorem raises_done (answer : Datum) : (done answer : Script σ).Raises F := fun _ _ _ => ensures_pure trivial

theorem raises_silent : (silent : Script σ).Raises F := raises_done _

theorem raises_raise {fault : Fault} (h : F fault) : (raise fault : Script σ).Raises F := fun _ _ _ => .error h

theorem raises_failWith {reason : Reason} (h : F (.ofReason reason)) : (failWith reason : Script σ).Raises F :=
  raises_raise h

theorem raises_look {next : View → Script σ} (h : ∀ view, (next view).Raises F) :
    (look next).Raises F := fun others go e => h e.view others go e

theorem raises_orRaise {x : Except Fault α} {next : α → Script σ} (hfault : ∀ fault, x = .error fault → F fault)
    (h : ∀ a, x = .ok a → (next a).Raises F) : (orRaise next x).Raises F := by
  cases x with
  | ok a => exact h a rfl
  | error fault => exact raises_raise (hfault fault rfl)

theorem raises_converted {x : Except ConversionError α} {next : α → Script σ}
    (herror : ∀ error, x = .error error → F (.ofConversion error))
    (h : ∀ a, x = .ok a → (next a).Raises F) : (converted x next).Raises F := by
  cases x with
  | ok a => exact h a rfl
  | error error => exact raises_raise (herror error rfl)

theorem raises_andThen {ed : Edit}
    (hed : ∀ (e : Engine σ) fault e₁, Engine.edit ed e = .error fault e₁ → F fault) (h : next.Raises F) :
    (andThen ed next).Raises F := by
  intro others go e
  refine ensures_bind (ensures_ofAct ?_)
  unfold Act.Ensures Engine.attempt
  cases hr : Engine.edit ed e with
  | ok _ e₁ => exact h others go e₁
  | error fault e₁ => exact .error (hed e fault e₁ hr)

/-- A change that is always made raises nothing. -/
theorem raises_granted {ed : Edit} (hed : ∀ e : Engine σ, ∃ e₁, Engine.edit ed e = .ok () e₁)
    (h : next.Raises F) : (andThen ed next).Raises F := by
  refine raises_andThen (fun e fault e₁ hfault => ?_) h
  obtain ⟨e₂, he₂⟩ := hed e
  rw [he₂] at hfault
  cases hfault

theorem raises_edits {eds : List Edit} (heds : ∀ ed ∈ eds, ∀ e : Engine σ, ∃ e₁, Engine.edit ed e = .ok () e₁)
    (h : next.Raises F) : (edits eds next).Raises F := by
  induction eds with
  | nil => exact h
  | cons ed eds ih =>
    obtain ⟨hed, heds⟩ := List.forall_mem_cons.mp heds
    exact raises_granted hed (ih heds)

theorem raises_wait {w : Wait} (hcancel : F .cancelled) (h : next.Raises F) : (wait w next).Raises F :=
  fun others go _ => ensures_bind (ensures_wait trivial (fun e₁ _ => h others go e₁) fun _ _ => hcancel)

end Script

end CommandBatch
