import CommandBatch.Proofs.Run.Requests

/-!
# What host functions leave alone

Handlers, hooks and step rules may change nearly everything that an engine has, but not what belongs
to the run: how the engine was set up, its hooks, whether it is busy, what was reported as complete
(`Held`), and the line that runs, the trace and the lines begun so far (`Place`).  A script could
only get at these by starting a run of its own, and the engine refuses that while it is busy.

`Keeps view` says of an operation that something seen of the engine is the same behind it, whether it
succeeds or breaks off.  The run keeps both parts of its frame while a script is played
(`frame_playOut`), by recursion on the script; a line that is run keeps the first.
-/

namespace CommandBatch

variable {σ α β : Type}

/-- The line whose start an entry of the transcript announces. -/
def Record.begun? : Record → Option (Nat × String)
  | .announced (.beforeLine index text) => some (index, text)
  | _ => none

/-- The code that an entry of the transcript reports. -/
def Record.completion? : Record → Option Int
  | .completed code => some code
  | _ => none

/-- What stays as it is as long as a run lasts. -/
structure Held (σ : Type) where
  setup : Setup σ
  hooks : HookRegistry (Notice → Script σ) (StepContext → Script σ)
  busy : Bool
  completions : List Int

/-- How far a run has come. -/
structure Place where
  /-- The line that runs; none outside a run. -/
  index : Option Nat
  trace : Trace
  begun : List (Nat × String)

namespace Engine

/-- The lines that were begun, in order. -/
def begun (e : Engine σ) : List (Nat × String) := e.transcript.toList.filterMap Record.begun?

/-- The codes that were reported, in order. -/
def completions (e : Engine σ) : List Int := e.transcript.toList.filterMap Record.completion?

def held (e : Engine σ) : Held σ := ⟨e.setup, e.services.hooks, e.busy, e.completions⟩

def place (e : Engine σ) : Place :=
  ⟨if e.busy then e.progress.index else none, e.progress.trace, e.begun⟩

/-- What belongs to a run, and not to the lines that it executes. -/
def frame (e : Engine σ) : Held σ × Place := (e.held, e.place)

end Engine

/-- Something seen of the engine is the same behind the operation. -/
def Act.Keeps {γ : Type} (view : Engine σ → γ) (act : Act σ α) : Prop :=
  ∀ e, view (engineOf (act e)) = view e

namespace Act

variable {γ : Type} {view : Engine σ → γ}

/-- What is kept is preserved, whatever it is. -/
theorem keeps_iff {act : Act σ α} : act.Keeps view ↔ ∀ v, act.Preserves fun e => view e = v :=
  ⟨fun h _ => preserves_iff.mpr fun e he => (h e).trans he,
    fun h e => preserves_iff.mp (h (view e)) e rfl⟩

theorem keeps_pure (a : α) : Keeps view (pure a : Act σ α) := fun _ => rfl

theorem keeps_get : Keeps view (get : Act σ (Engine σ)) := fun _ => rfl

theorem keeps_modify {f : Engine σ → Engine σ} (h : ∀ e, view (f e) = view e) :
    Keeps view (modify f : Act σ Unit) := h

theorem Keeps.bind {x : Act σ α} {f : α → Act σ β} (hx : Keeps view x) (hf : ∀ a, Keeps view (f a)) :
    Keeps view (x >>= f) :=
  keeps_iff.mpr fun v => (keeps_iff.mp hx v).bind fun a => keeps_iff.mp (hf a) v

theorem Keeps.discard {x : Act σ α} (h : Keeps view x) : Keeps view (discard x : Act σ Unit) :=
  keeps_iff.mpr fun v => (keeps_iff.mp h v).discard

end Act

namespace Engine

open Act

theorem frame_record {e : Engine σ} {r : Record} (hb : r.begun? = none) (hc : r.completion? = none) :
    frame { e with transcript := e.transcript.push r } = frame e := by
  simp [frame, held, place, begun, completions, hb, hc]

/-- The index of the line is forgotten where no run is active, which is not seen of the frame. -/
theorem frame_faced (text : String) (e : Engine σ) : (faced text e).frame = e.frame := by
  cases hb : e.busy <;> simp [faced, frame, held, place, facing, begun, completions, hb]

/-- **No request touches the frame of a run.** -/
theorem frame_withstands (allowed : Request σ → Prop) (f : Held σ × Place) :
    Withstands allowed fun e : Engine σ => e.frame = f where
  host _ _ he := he
  edit _ _ := preserves_edit fun e e₁ he hedited => by
    cases hedited with
    | output | noted => exact (frame_record rfl rfl).trans he
    | refused | set | deleted | moved | typed => exact he
  registerCommand _ _ _ := preserves_registerCommand fun _ _ he _ => he
  interpret text _ := preserves_interpret (fun e he => (frame_faced text e).trans he)
    (fun e _ he _ => (frame_faced text e).trans he) fun e _ he _ => (frame_faced text e).trans he

/-- Nor does any request add to the transcript what is not output and no note. -/
theorem sifted_withstands {γ : Type} {sift : Record → Option γ}
    (houtput : ∀ text, sift (.output text) = none) (hnoted : ∀ n, sift (.noted n) = none)
    (allowed : Request σ → Prop) (v : (Held σ × Place) × List γ) :
    Withstands allowed fun e : Engine σ => (e.frame, e.transcript.toList.filterMap sift) = v where
  host _ _ he := he
  edit _ _ := preserves_edit fun e e₁ he hedited => by
    cases hedited with
    | output text =>
      rw [← he]
      exact Prod.ext (frame_record rfl rfl) (by simp [houtput])
    | noted n =>
      rw [← he]
      exact Prod.ext (frame_record rfl rfl) (by simp [hnoted])
    | refused | set | deleted | moved | typed => exact he
  registerCommand _ _ _ := preserves_registerCommand fun _ _ he _ => he
  interpret text _ := by
    have hfaced (e : Engine σ) (he : (e.frame, e.transcript.toList.filterMap sift) = v) :
        ((faced text e).frame, e.transcript.toList.filterMap sift) = v := by rwa [frame_faced]
    exact preserves_interpret hfaced (fun e _ he _ => hfaced e he) fun e _ he _ => hfaced e he

theorem keeps_interpret (text : String) : Keeps frame (interpret text : Act σ Int) :=
  keeps_iff.mpr fun f => (frame_withstands (fun _ => True) f).interpret text trivial

end Engine

/-- Something seen of an engine that is busy is the same behind the operation. -/
def Process.Keeps {γ : Type} (view : Engine σ → γ) (p : Process σ α) : Prop :=
  ∀ ⦃e r⦄, e.busy = true → p.Ends e r → view (engineOf r) = view e

namespace Process

open Engine Run

variable {γ : Type} {view : Engine σ → γ}

theorem keeps_ofAct {act : Act σ α} (h : act.Keeps view) : Keeps view (ofAct act) := by
  intro e r _ hr
  rw [← ends_ofAct.mp hr]
  exact h e

/-- The second operation finds the engine busy as well, which has to be seen. -/
theorem Keeps.bind {x : Process σ α} {f : α → Process σ β}
    (hview : ∀ {e e' : Engine σ}, view e' = view e → e'.busy = e.busy) (hx : Keeps view x)
    (hf : ∀ a, Keeps view (f a)) : Keeps view (x >>= f) := by
  intro e r hbusy hr
  rcases ends_bind.mp hr with ⟨a, e₁, h₁, h₂⟩ | ⟨fault, e₁, h₁, rfl⟩
  · have hsame : view e₁ = view e := hx hbusy h₁
    exact (hf a ((hview hsame).trans hbusy) h₂).trans hsame
  · exact hx (r := .error fault e₁) hbusy h₁

theorem Keeps.attempt {x : Process σ α} (hx : Keeps view x) : Keeps view x.attempt := by
  intro e r hbusy hr
  rcases ends_attempt.mp hr with ⟨a, e₁, h, rfl⟩ | ⟨fault, e₁, h, rfl⟩ <;> exact hx hbusy h

/-- What is upheld with nothing happening in the waits is kept. -/
theorem keeps_of_upholds {p : Process σ α}
    (h : ∀ e : Engine σ, e.busy = true → p.Upholds Eq fun e₁ => view e₁ = view e) :
    Keeps view p := fun e _ hbusy hr =>
  (h e hbusy).of_endsAmid rfl (endsAmid_of_result? (fun _ => rfl) (p e) hr)

end Process

namespace Engine

open Act Process

theorem busy_of_frame {e e' : Engine σ} (h : e'.frame = e.frame) : e'.busy = e.busy :=
  congrArg (fun f => f.1.busy) h

/-- Others keep the frame of a run that is active, so all that its handlers do keeps it. -/
theorem frame_steadfast {others : Engine σ → Engine σ → Prop} {e : Engine σ} (hbusy : e.busy = true)
    (hothers : ∀ e₁ e₂, others e₁ e₂ → e₂.frame = e₁.frame) :
    Steadfast others (fun _ => True) fun e₁ : Engine σ => e₁.frame = e.frame where
  toWithstands := frame_withstands _ _
  busy _ h := (busy_of_frame h).trans hbusy
  others e₁ e₂ h hothers₂ := (hothers e₁ e₂ hothers₂).trans h
  failing _ _ _ h := h
  calls _ _ command args _ _ := Script.asks_of_all (fun _ => trivial) (command.handler args)

/-- Nothing happens in the waits of a run. -/
theorem frame_undisturbed {e : Engine σ} (hbusy : e.busy = true) :
    Steadfast Eq (fun _ => True) fun e₁ : Engine σ => e₁.frame = e.frame :=
  frame_steadfast hbusy fun _ _ h => congrArg frame h.symm

theorem frame_playOut (fuel : Nat) (script : Script σ) :
    (playOut (carryOut fuel) script).Keeps frame :=
  keeps_of_upholds fun _ hbusy =>
    have h := frame_undisturbed hbusy
    h.playOut (h.carryOut fuel) script (Script.asks_of_all (fun _ => trivial) script)

/-- **What is sifted out of the transcript stays as it is while a line is executed**, if others leave it alone in
the waits.  The faults that come through the execution are those that come through the execution of any line. -/
theorem ensures_executeUnless_sifted {γ : Type} {sift : Record → Option γ}
    {others : Engine σ → Engine σ → Prop} {e : Engine σ} (houtput : ∀ text, sift (.output text) = none)
    (hnoted : ∀ n, sift (.noted n) = none) (hbusy : e.busy = true)
    (hothers : ∀ e e₁ : Engine σ, others e e₁ →
      (e₁.frame, e₁.transcript.toList.filterMap sift) = (e.frame, e.transcript.toList.filterMap sift))
    (code : Int) (fuel : Nat) :
    let Same (e₁ : Engine σ) : Prop :=
      (e₁.frame, e₁.transcript.toList.filterMap sift) = (e.frame, e.transcript.toList.filterMap sift)
    (executeUnless (carryOut fuel) code e).Ensures others Same (fun _ => Same)
      fun fault e₁ => Same e₁ ∧ fault.ComesThrough := by
  intro Same
  unfold executeUnless
  split
  · have hsteadfast : Steadfast others (fun _ => True) Same :=
      { toWithstands := sifted_withstands houtput hnoted _ _
        busy := fun e₁ h => (busy_of_frame (congrArg Prod.fst h)).trans hbusy
        others := fun e₁ e₂ h hmet => (hothers e₁ e₂ hmet).trans h
        failing := fun _ _ _ h => h
        calls := fun _ _ command args _ _ => Script.asks_of_all (fun _ => trivial) (command.handler args) }
    refine ensures_execute (I := Same) rfl (fun command args _ _ => ?_) (fun _ h => h) (fun _ _ h => h)
      fun _ _ hthrough h => ⟨h, hthrough⟩
    exact hsteadfast.playOut (hsteadfast.carryOut fuel) _
      (Script.asks_of_all (fun _ => trivial) (command.handler args)) e rfl
  · exact ensures_pure rfl

theorem frame_execute (fuel : Nat) : (execute (carryOut fuel) : Process σ Int).Keeps frame :=
  keeps_of_upholds fun _ hbusy =>
    have h := frame_undisturbed hbusy
    h.execute (h.carryOut fuel)

end Engine

end CommandBatch
