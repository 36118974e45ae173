import CommandBatch.Proofs.Run.Containment

/-!
# Runs that share an engine

Several jobs want to run something on one engine.  They take turns: a job that has not begun starts its
run, a job that waits goes on, and in its turn a job goes on until it waits again or is over.  `Scene.after`
says where a sequence of turns leads, whatever the turns are.

One run is active at a time (`one_run_at_a_time`).  The engine is busy exactly as long as a job has a run
under way; a start in the meantime is refused and leaves the engine as it is, so the jobs that are not
refused end up where they would without it.  A run frees the engine when its last line is done or when
it breaks off, and reports its code, exactly once, only if it was not broken off.

The reason is that everything between the start of a run and the end of its last line keeps what the run
holds on to (`held_step`), and a job that waits finds the engine as it has left it, since nobody else is
let in.
-/

namespace CommandBatch

variable {σ : Type}

/-- A run that is to be started. -/
inductive Start where
  | line (text : String)
  | batch (lines : List String)
  deriving DecidableEq, Repr

/-- The task that a start is for. -/
def Start.task : Start → Task
  | line text => .runLine text
  | batch lines => .runBatch lines

theorem Start.task_ne_execute (s : Start) : s.task ≠ .execute := by cases s <;> exact nofun

/-- How far the run of a job has come. -/
inductive Job (σ : Type) where
  /-- It has not been started. -/
  | fresh (s : Start)
  /-- It waits. -/
  | waiting (next : Signal → Engine σ → Run σ Int)
  /-- It has spent what it was given. -/
  | lost
  /-- It has come to an end, with a code or a fault. -/
  | finished (outcome : Except Fault Int)

/-- The engine that an operation has come to. -/
def Run.engine {α : Type} : Run σ α → Engine σ
  | .ended r => engineOf r
  | .waiting e _ _ => e
  | .exhausted e => e

namespace Job

/-- The run of the job is under way. -/
def Active : Job σ → Prop
  | waiting _ | lost => True
  | fresh _ | finished _ => False

/-- What the job is when its run has come so far. -/
def ofRun : Run σ Int → Job σ
  | .ended (.ok code _) => finished (.ok code)
  | .ended (.error fault _) => finished (.error fault)
  | .waiting _ _ next => waiting next
  | .exhausted _ => lost

/-- What the job does in a turn, if it has something to do.  A job that is told to stop before it has begun
does not begin. -/
def turn? (fuel : Nat) (signal : Signal) : Job σ → Option (Engine σ → Run σ Int)
  | fresh s =>
    match signal with
    | .resume => some (Engine.carryOut (fuel + 1) s.task)
    | .cancel => some fun e => .ended (.error .cancelled e)
  | waiting next => some (next signal)
  | lost | finished _ => none

end Job

/-- An engine and the jobs that share it. -/
structure Scene (σ : Type) where
  engine : Engine σ
  jobs : List (Job σ)

namespace Scene

/-- None of the runs has been started. -/
def start (e : Engine σ) (starts : List Start) : Scene σ := ⟨e, starts.map .fresh⟩

/-- A job takes a turn. -/
def turn (fuel : Nat) (s : Scene σ) (t : Nat × Signal) : Scene σ :=
  match s.jobs[t.1]?.bind (·.turn? fuel t.2) with
  | none => s
  | some go => ⟨(go s.engine).engine, s.jobs.set t.1 (.ofRun (go s.engine))⟩

/-- The jobs take turns. -/
def after (fuel : Nat) (s : Scene σ) (turns : List (Nat × Signal)) : Scene σ :=
  turns.foldl (turn fuel) s

/-- The run of the job with this number is under way. -/
def Active (s : Scene σ) (i : Nat) : Prop := ∃ job, s.jobs[i]? = some job ∧ job.Active

/-- The job goes on in its turn: it waits, or it is about to begin and is not refused. -/
def heeds (s : Scene σ) (t : Nat × Signal) : Bool :=
  match s.jobs[t.1]? with
  | some (.fresh _) => !s.engine.busy || t.2 == .cancel
  | some (.waiting _) => true
  | _ => false

/-- The turns without those in which nothing goes on: starts that are refused, and jobs that are over. -/
def heeded (fuel : Nat) (s : Scene σ) : List (Nat × Signal) → List (Nat × Signal)
  | [] => []
  | t :: turns => if s.heeds t then t :: heeded fuel (s.turn fuel t) turns
    else heeded fuel (s.turn fuel t) turns

/-- The first scene has the engine of the second, and its jobs, but for refused starts that it has still to
make. -/
structure Agrees (s s' : Scene σ) : Prop where
  engine : s.engine = s'.engine
  length : s.jobs.length = s'.jobs.length
  jobs : ∀ (i : Nat) (job : Job σ), s'.jobs[i]? = some job → s.jobs[i]? = some job ∨
    job = .finished (.error .alreadyRunning) ∧ ∃ start, s.jobs[i]? = some (Job.fresh start)

end Scene

namespace Engine

open Act Process Run

/-- How a run can come out for which an engine had this to hold on to. -/
inductive ComesOut (h : Held σ) : EStateM.Result Fault (Engine σ) Int → Prop
  /-- Its last line is done while the engine is busy; the rest happens on the free engine.  It is reported
  with a code, the host is told this code, and it returns it. -/
  | returns {code : Int} {e₀ e₁ e₂ : Engine σ} (hlast : e₀.held = { h with busy := true })
      (hcomplete : complete code (freed e₀) = callBack code e₁)
      (hreported : e₁.held = { h with busy := false, completions := h.completions ++ [code] })
      (hcall : callBack code e₁ = .ok code e₂) (hfree : e₂.held = e₁.held) : ComesOut h (.ok code e₂)
  /-- The host breaks off when it is told. -/
  | callback {code : Int} {fault : Fault} {e₀ e₁ e₂ : Engine σ}
      (hlast : e₀.held = { h with busy := true })
      (hcomplete : complete code (freed e₀) = callBack code e₁)
      (hreported : e₁.held = { h with busy := false, completions := h.completions ++ [code] })
      (hcall : callBack code e₁ = .error fault e₂) (hfree : e₂.held = e₁.held) :
      ComesOut h (.error fault e₂)
  /-- It breaks off before: nothing is reported. -/
  | broken {fault : Fault} {e₂ : Engine σ} (hfree : e₂.held = { h with busy := false }) :
      ComesOut h (.error fault e₂)

/-- The job begins on an engine that is free, or goes on with its run. -/
inductive Ready (e : Engine σ) : Job σ → Prop
  | begins {s : Start} (hidle : e.busy = false) : Ready e (.fresh s)
  | resumes {next : Signal → Engine σ → Run σ Int} (hbusy : e.busy = true) : Ready e (.waiting next)

/-- What can happen when a job takes its turn on an engine: what becomes of the job and of the engine. -/
inductive Takes (e : Engine σ) : Signal → Job σ → Job σ → Engine σ → Prop
  /-- A run is active, and another is refused.  The engine is the same. -/
  | refused {s : Start} (hbusy : e.busy = true) :
      Takes e .resume (.fresh s) (.finished (.error .alreadyRunning)) e
  /-- The job is told to stop before it has begun. -/
  | withdrawn {s : Start} : Takes e .cancel (.fresh s) (.finished (.error .cancelled)) e
  /-- The run has not come to an end: the engine is busy, and nothing has been reported. -/
  | goesOn {signal : Signal} {job job' : Job σ} {e₁ : Engine σ} (hready : Ready e job)
      (hactive : job'.Active) (hheld : e₁.held = { e.held with busy := true }) :
      Takes e signal job job' e₁
  /-- The run comes out with a code or a fault. -/
  | ends {signal : Signal} {job : Job σ} {r : EStateM.Result Fault (Engine σ) Int}
      (hready : Ready e job) (hout : ComesOut e.held r) :
      Takes e signal job (.ofRun (.ended r)) (engineOf r)
  /-- The run is over, or lost. -/
  | rests {signal : Signal} {job : Job σ} (hfinished : job = .lost ∨ ∃ outcome, job = .finished outcome) :
      Takes e signal job job e

/-! ## A single run -/

/-- Everything in a line keeps what the run holds on to. -/
theorem held_step {h : Held σ} (hbusy : h.busy = true) (fuel index : Nat) (text : String) :
    (step (carryOut fuel) index text).Upholds Eq fun e : Engine σ => e.held = h := by
  refine upholds_step (keeps_iff.mp (held_openLine index text) h) (fun e he => ?_) fun code =>
    keeps_iff.mp (held_closeLine index text code) h
  have hframe := frame_undisturbed (e := e) (he ▸ hbusy :)
  have hheld (e₁ : Engine σ) (h₁ : e₁.frame = e.frame) : e₁.held = h := (congrArg Prod.fst h₁).trans he
  exact (hframe.execute (hframe.carryOut fuel) e rfl).mono hheld (fun _ => hheld) fun _ => hheld

/-- The run keeps what an engine holds on to, as the engine of a run that is active. -/
def GoesWell (h : Held σ) (run : Run σ Int) : Prop :=
  run.Ensures Eq (fun e => e.held = { h with busy := true }) (fun code e => ComesOut h (.ok code e))
    fun fault e => ComesOut h (.error fault e)

theorem goesWell_complete {h : Held σ} (hidle : h.busy = false) {code : Int} {e : Engine σ}
    (he : e.held = { h with busy := true }) :
    (complete code).Ensures (fun code e => ComesOut h (.ok code e))
      (fun fault e => ComesOut h (.error fault e)) (freed e) := by
  have hfreed : (freed e).held = h := by
    have hheld : (freed e).held = { e.held with busy := false } := rfl
    rw [hheld, he, ← hidle]
  have hcompletions : (freed e).completions = h.completions := congrArg Held.completions hfreed
  unfold Act.Ensures
  rcases complete_cases code (freed e) with ⟨fault, e₁, hr, hheld, -⟩ | ⟨e₁, hheld, hr⟩
  · rw [hr]
    exact .broken (by rw [hheld, hfreed, ← hidle])
  · have hreported : e₁.held = { h with busy := false, completions := h.completions ++ [code] } := by
      rw [hheld, hfreed, hcompletions]
      simp [hidle]
    have hfree := (keeps_callBack code).held e₁
    cases hcall : callBack code e₁ with
    | ok code₁ e₂ =>
      obtain ⟨rfl, -⟩ := callBack_eq_ok hcall
      rw [hr, hcall]
      rw [hcall] at hfree
      exact .returns he hr hreported hcall hfree
    | error fault e₂ =>
      rw [hr, hcall]
      rw [hcall] at hfree
      exact .callback he hr hreported hcall hfree

theorem goesWell_start {e : Engine σ} (hidle : e.busy = false) (fuel : Nat) (s : Start) :
    GoesWell e.held (carryOut (fuel + 1) s.task e) := by
  have hentered : (entered e).held = { e.held with busy := true } := rfl
  refine ensures_run (L := fun _ e₁ => e₁.held = { e.held with busy := true })
    (G := fun _ e₁ => e₁.held = { e.held with busy := true }) s.task_ne_execute hidle
    (fun lines cursor => keeps_iff.mp (held_openBatch lines cursor) _ _ hentered) (fun _ _ h => h)
    (held_step rfl fuel) (fun _ h => h) (fun _ _ h => goesWell_complete hidle h) fun fault e₁ h => ?_
  exact .broken (by show ({ e₁.held with busy := false } : Held σ) = _; rw [h])

theorem ComesOut.free {h : Held σ} {r : EStateM.Result Fault (Engine σ) Int} (hout : ComesOut h r) :
    (engineOf r).busy = false := by
  cases hout with
  | returns _ _ hreported _ hfree | callback _ _ hreported _ hfree =>
    exact congrArg Held.busy (hfree.trans hreported)
  | broken hfree => exact congrArg Held.busy hfree

/-- Whether the engine was busy before does not matter. -/
theorem ComesOut.busy {h : Held σ} {r : EStateM.Result Fault (Engine σ) Int} (hout : ComesOut h r)
    (b : Bool) : ComesOut { h with busy := b } r := by
  cases hout with
  | returns hlast hcomplete hreported hcall hfree => exact .returns hlast hcomplete hreported hcall hfree
  | callback hlast hcomplete hreported hcall hfree =>
    exact .callback hlast hcomplete hreported hcall hfree
  | broken hfree => exact .broken hfree

theorem takes_of_goesWell {e : Engine σ} {job : Job σ} (hready : Ready e job) (signal : Signal)
    {run : Run σ Int} (h : GoesWell e.held run) : Takes e signal job (.ofRun run) run.engine := by
  cases h with
  | ok hout => exact .ends hready hout
  | error hout => exact .ends hready hout
  | waiting hheld _ => exact .goesOn hready trivial hheld
  | exhausted hheld => exact .goesOn hready trivial hheld

theorem bind_of_error {α β : Type} {x : Process σ α} (f : α → Process σ β) {e e₁ : Engine σ}
    {fault : Fault} (h : x e = .ended (.error fault e₁)) :
    (x >>= f) e = .ended (.error fault e₁) := by
  show (x e).andThen _ = _
  rw [h]
  rfl

theorem during_apply_of_busy (x : Process σ Int) {e : Engine σ} (hbusy : e.busy = true) :
    during x e = .ended (.error .alreadyRunning e) :=
  bind_of_error _ (congrArg Run.ended (enter_of_busy hbusy))

theorem start_of_busy (fuel : Nat) (s : Start) {e : Engine σ} (hbusy : e.busy = true) :
    carryOut (fuel + 1) s.task e = .ended (.error .alreadyRunning e) := by
  cases s <;> exact during_apply_of_busy _ hbusy

end Engine

namespace Scene

open Engine Run

/-! ## All runs together -/

/-- One run is active at most, which is when the engine is busy, and a job that waits goes on well. -/
structure Shared (s : Scene σ) : Prop where
  busy : s.engine.busy = true ↔ ∃ i, s.Active i
  one : ∀ i j, s.Active i → s.Active j → i = j
  waits : ∀ (i : Nat) next, s.jobs[i]? = some (.waiting next) → ∀ signal,
    GoesWell s.engine.held (next signal s.engine)

theorem active_set {jobs : List (Job σ)} {e : Engine σ} {i j : Nat} {job job' : Job σ}
    (hjob : jobs[i]? = some job) :
    Active ⟨e, jobs.set i job'⟩ j ↔ (j = i ∧ job'.Active) ∨ (j ≠ i ∧ Active ⟨e, jobs⟩ j) := by
  have hi : i < jobs.length := (List.getElem?_eq_some_iff.mp hjob).1
  by_cases hj : j = i
  · subst hj
    simp [Active, hi]
  · have hji : i ≠ j := fun h => hj h.symm
    simp [Active, hj, hji]

theorem turn_eq {s : Scene σ} {fuel i : Nat} {signal : Signal} {job : Job σ}
    {go : Engine σ → Run σ Int} (hjob : s.jobs[i]? = some job)
    (hturn : job.turn? fuel signal = some go) :
    s.turn fuel (i, signal) = ⟨(go s.engine).engine, s.jobs.set i (.ofRun (go s.engine))⟩ := by
  simp [turn, hjob, hturn]

theorem turn_of_finished {s : Scene σ} {fuel i : Nat} {signal : Signal}
    (h : s.jobs[i]?.bind (·.turn? fuel signal) = none) : s.turn fuel (i, signal) = s := by
  simp [turn, h]

/-- A job that is ready is the only one that can have a run under way. -/
theorem Shared.alone {s : Scene σ} (h : s.Shared) {i j : Nat} {job : Job σ}
    (hjob : s.jobs[i]? = some job) (hready : Ready s.engine job) (hj : s.Active j) : j = i := by
  cases hready with
  | begins hidle =>
    have hbusy := h.busy.mpr ⟨j, hj⟩
    rw [hidle] at hbusy
    cases hbusy
  | resumes => exact h.one j i hj ⟨_, hjob, trivial⟩

theorem Shared.ready {s : Scene σ} (h : s.Shared) {i : Nat} {job : Job σ}
    (hjob : s.jobs[i]? = some job) (hready : Ready s.engine job) {run : Run σ Int}
    (hrun : GoesWell s.engine.held run) :
    Shared ⟨run.engine, s.jobs.set i (.ofRun run)⟩ := by
  have hactive (j : Nat) : Active ⟨run.engine, s.jobs.set i (.ofRun run)⟩ j ↔
      j = i ∧ (Job.ofRun run).Active := by
    rw [active_set hjob]
    refine or_iff_left fun hj => hj.1 (h.alone hjob hready ?_)
    exact hj.2
  refine ⟨?_, fun j k hj hk => ((hactive j).mp hj).1.trans ((hactive k).mp hk).1.symm, ?_⟩
  · -- The engine is busy exactly if this run has not come to an end.
    have hbusy : run.engine.busy = true ↔ (Job.ofRun run).Active := by
      cases hrun with
      | ok hout | error hout =>
        have hfree : _ = false := hout.free
        exact iff_of_false (fun h => by cases hfree.symm.trans h) fun h => h
      | waiting hheld _ | exhausted hheld => exact iff_of_true (congrArg Held.busy hheld) trivial
    rw [hbusy]
    constructor
    · exact fun h => ⟨i, (hactive i).mpr ⟨rfl, h⟩⟩
    · rintro ⟨j, hj⟩
      exact ((hactive j).mp hj).2
  · intro j next hnext
    obtain ⟨rfl, -⟩ := (hactive j).mp ⟨_, hnext, trivial⟩
    have hj : j < s.jobs.length := (List.getElem?_eq_some_iff.mp hjob).1
    rw [List.getElem?_set_self hj] at hnext
    cases hrun with
    | ok | error | exhausted => cases hnext
    | @waiting e w next hheld hgoes =>
      cases hnext
      intro signal
      show GoesWell e.held (next signal e)
      rw [hheld]
      exact (hgoes signal e rfl).mono (fun _ h => h) (fun _ _ h => h.busy true) fun _ _ h => h.busy true

/-- A job that has not begun can end without having had a run under way. -/
theorem Shared.unstarted {s : Scene σ} (h : s.Shared) {i : Nat} {start : Start}
    (hjob : s.jobs[i]? = some (.fresh start)) (outcome : Except Fault Int) :
    Shared ⟨s.engine, s.jobs.set i (.finished outcome)⟩ := by
  have hactive (j : Nat) : Active ⟨s.engine, s.jobs.set i (.finished outcome)⟩ j ↔ s.Active j := by
    rw [active_set hjob]
    constructor
    · rintro (⟨-, hfinished⟩ | ⟨-, hj⟩)
      · exact hfinished.elim
      · exact hj
    · intro hj
      refine .inr ⟨?_, hj⟩
      rintro rfl
      obtain ⟨job, hjob', hjobactive⟩ := hj
      rw [hjob] at hjob'
      cases hjob'
      exact hjobactive
  refine ⟨h.busy.trans (exists_congr fun j => (hactive j).symm),
    fun j k hj hk => h.one j k ((hactive j).mp hj) ((hactive k).mp hk), fun j next hnext => ?_⟩
  by_cases hj : i = j
  · subst hj
    rw [List.getElem?_set_self (List.getElem?_eq_some_iff.mp hjob).1] at hnext
    cases hnext
  · rw [List.getElem?_set_ne hj] at hnext
    exact h.waits j next hnext

/-- **What a turn does**: the scene is shared as before, and one of the things happens that can. -/
theorem Shared.turn {s : Scene σ} (h : s.Shared) (fuel : Nat) {i : Nat} (signal : Signal) {job : Job σ}
    (hjob : s.jobs[i]? = some job) :
    (s.turn fuel (i, signal)).Shared ∧ ∃ job' e', s.turn fuel (i, signal) = ⟨e', s.jobs.set i job'⟩ ∧
      Takes s.engine signal job job' e' := by
  -- A job that is ready goes on with a run that goes well, which settles the rest.
  have hready (hready : Ready s.engine job) (go : Engine σ → Run σ Int)
      (hturn : job.turn? fuel signal = some go) (hgo : GoesWell s.engine.held (go s.engine)) :
      (s.turn fuel (i, signal)).Shared ∧ ∃ job' e', s.turn fuel (i, signal) = ⟨e', s.jobs.set i job'⟩ ∧
        Takes s.engine signal job job' e' := by
    rw [turn_eq hjob hturn]
    exact ⟨h.ready hjob hready hgo, _, _, rfl, takes_of_goesWell hready signal hgo⟩
  have hrests (hturn : job.turn? fuel signal = none)
      (hfinished : job = .lost ∨ ∃ outcome, job = .finished outcome) :
      (s.turn fuel (i, signal)).Shared ∧ ∃ job' e', s.turn fuel (i, signal) = ⟨e', s.jobs.set i job'⟩ ∧
        Takes s.engine signal job job' e' := by
    have hsame : s.jobs.set i job = s.jobs := by
      obtain ⟨hi, rfl⟩ := List.getElem?_eq_some_iff.mp hjob
      exact List.set_getElem_self hi
    rw [turn_of_finished (by rw [hjob]; exact hturn)]
    exact ⟨h, job, s.engine, by rw [hsame], .rests hfinished⟩
  cases job with
  | fresh start =>
    cases signal with
    | resume =>
      cases hbusy : s.engine.busy with
      | false => exact hready (.begins hbusy) _ rfl (goesWell_start hbusy fuel start)
      | true =>
        rw [turn_eq hjob rfl, start_of_busy fuel start hbusy]
        exact ⟨h.unstarted hjob _, _, _, rfl, .refused hbusy⟩
    | cancel =>
      rw [turn_eq hjob rfl]
      exact ⟨h.unstarted hjob _, _, _, rfl, .withdrawn⟩
  | waiting next =>
    have hbusy : s.engine.busy = true := h.busy.mpr ⟨i, _, hjob, trivial⟩
    exact hready (.resumes hbusy) _ rfl (h.waits i next hjob signal)
  | lost => exact hrests rfl (.inl rfl)
  | finished outcome => exact hrests rfl (.inr ⟨outcome, rfl⟩)

/-- At the beginning no job has begun. -/
theorem fresh_of_start {e : Engine σ} {starts : List Start} {i : Nat} {job : Job σ}
    (hjob : (Scene.start e starts).jobs[i]? = some job) : ∃ start, job = .fresh start := by
  rw [Scene.start, List.getElem?_map, Option.map_eq_some_iff] at hjob
  obtain ⟨start, -, rfl⟩ := hjob
  exact ⟨start, rfl⟩

theorem shared_start {e : Engine σ} (hidle : e.busy = false) (starts : List Start) :
    (Scene.start e starts).Shared := by
  have hnone (i : Nat) : ¬(Scene.start e starts).Active i := by
    rintro ⟨job, hjob, hactive⟩
    obtain ⟨start, rfl⟩ := fresh_of_start hjob
    exact hactive
  refine ⟨iff_of_false (by simp [Scene.start, hidle]) fun ⟨i, hi⟩ => hnone i hi,
    fun i j hi => absurd hi (hnone i), fun i next hnext => ?_⟩
  obtain ⟨start, hstart⟩ := fresh_of_start hnext
  cases hstart

theorem Shared.after {s : Scene σ} (h : s.Shared) (fuel : Nat) (turns : List (Nat × Signal)) :
    (s.after fuel turns).Shared := by
  induction turns generalizing s with
  | nil => exact h
  | cons t turns ih =>
    obtain ⟨i, signal⟩ := t
    refine ih ?_
    cases hjob : s.jobs[i]? with
    | none =>
      rw [turn_of_finished (by rw [hjob]; rfl)]
      exact h
    | some job => exact (h.turn fuel signal hjob).1

/-! ## Without the starts that are refused -/

theorem Agrees.refl (s : Scene σ) : s.Agrees s := ⟨rfl, rfl, fun _ _ h => .inl h⟩

/-- A turn in which something goes on is the same turn where refused starts are still to be made. -/
theorem Agrees.turn {s s' : Scene σ} (h : s.Agrees s') {fuel : Nat} {t : Nat × Signal}
    (hheeds : s'.heeds t = true) : (s.turn fuel t).Agrees (s'.turn fuel t) := by
  obtain ⟨i, signal⟩ := t
  cases hjob : s'.jobs[i]? with
  | none => simp [heeds, hjob] at hheeds
  | some job =>
    have hsame : s.jobs[i]? = some job := by
      rcases h.jobs i job hjob with hsame | ⟨rfl, -⟩
      · exact hsame
      · simp [heeds, hjob] at hheeds
    cases hturn : job.turn? fuel signal with
    | none =>
      rw [turn_of_finished (by rw [hsame]; exact hturn), turn_of_finished (by rw [hjob]; exact hturn)]
      exact h
    | some go =>
      rw [turn_eq hjob hturn, turn_eq hsame hturn, h.engine]
      refine ⟨rfl, by simpa using h.length, fun j job' hjob' => ?_⟩
      by_cases hj : i = j
      · subst hj
        rw [List.getElem?_set_self (List.getElem?_eq_some_iff.mp hjob).1] at hjob'
        rw [List.getElem?_set_self (List.getElem?_eq_some_iff.mp hsame).1]
        exact .inl hjob'
      · rw [List.getElem?_set_ne hj] at hjob'
        rw [List.getElem?_set_ne hj]
        exact h.jobs j job' hjob'

/-- Any other turn makes no difference. -/
theorem Agrees.skip {s s' : Scene σ} (h : s.Agrees s') {fuel : Nat} {t : Nat × Signal}
    (hheeds : s'.heeds t = false) : s.Agrees (s'.turn fuel t) := by
  obtain ⟨i, signal⟩ := t
  cases hjob : s'.jobs[i]? with
  | none =>
    rw [turn_of_finished (by rw [hjob]; rfl)]
    exact h
  | some job =>
    cases job with
    | waiting next => simp [heeds, hjob] at hheeds
    | lost | finished =>
      rw [turn_of_finished (by rw [hjob]; rfl)]
      exact h
    | fresh start =>
      obtain ⟨hbusy, rfl⟩ : s'.engine.busy = true ∧ signal = .resume := by
        cases signal with
        | resume => exact ⟨by simpa [heeds, hjob] using hheeds, rfl⟩
        | cancel => simp [heeds, hjob] at hheeds
      rw [turn_eq hjob rfl, start_of_busy fuel start hbusy]
      refine ⟨h.engine, by simpa using h.length, fun j job' hjob' => ?_⟩
      by_cases hj : i = j
      · subst hj
        rw [List.getElem?_set_self (List.getElem?_eq_some_iff.mp hjob).1] at hjob'
        cases hjob'
        rcases h.jobs i _ hjob with hfresh | ⟨hfinished, -⟩
        · exact .inr ⟨rfl, start, hfresh⟩
        · cases hfinished
      · rw [List.getElem?_set_ne hj] at hjob'
        exact h.jobs j job' hjob'

theorem Agrees.after {s s' : Scene σ} (h : s.Agrees s') (fuel : Nat) (turns : List (Nat × Signal)) :
    (s.after fuel (s'.heeded fuel turns)).Agrees (s'.after fuel turns) := by
  induction turns generalizing s s' with
  | nil => exact h
  | cons t turns ih =>
    unfold heeded
    cases hheeds : s'.heeds t with
    | true => exact ih (h.turn hheeds)
    | false => exact ih (h.skip hheeds)

/-- **One run at a time.**  Several jobs share an engine that is free, and have taken any number of turns.
The engine is busy exactly if the run of a job is under way, and that is one job.  When any job takes the
next turn, a start on a busy engine is refused and leaves the engine as it is; a run that is under way
keeps the engine busy and has nothing reported; and a run that comes to an end leaves it free, has been
reported with the code that it returns or, if it was broken off, has not been reported at all.  Without
the starts that were refused, all others are where they are now, and so is the engine. -/
theorem one_run_at_a_time {e : Engine σ} (hidle : e.busy = false) (fuel : Nat) (starts : List Start)
    (turns : List (Nat × Signal)) :
    let s := (Scene.start e starts).after fuel turns
    (s.engine.busy = true ↔ ∃ i, s.Active i) ∧ (∀ i j, s.Active i → s.Active j → i = j) ∧
      (∀ i signal job, s.jobs[i]? = some job → ∃ job' e',
        s.turn fuel (i, signal) = ⟨e', s.jobs.set i job'⟩ ∧ Takes s.engine signal job job' e') ∧
      ((Scene.start e starts).after fuel ((Scene.start e starts).heeded fuel turns)).Agrees s := by
  have hshared := (shared_start hidle starts).after fuel turns
  exact ⟨hshared.busy, hshared.one, fun i signal job hjob => (hshared.turn fuel signal hjob).2,
    (Agrees.refl _).after fuel turns⟩

/-- A command that waits for a sign from outside. -/
def pausing : Command (Handler Unit) where
  signature := { name := "PAUSE", params := [] }
  handler := fun _ => .wait .block .silent

theorem one_run_at_a_time_pausing :
    let s := (Scene.start (hosted [] [pausing]) [.batch ["PAUSE"], .line "PAUSE"]).after 3
      [(0, .resume), (1, .resume)]
    s.engine.busy = true ∧ ∃ i, s.Active i ∧ ∀ j, s.Active j → j = i := by
  intro s
  have hbusy : s.engine.busy = true := by decide +kernel
  obtain ⟨hactive, hone, -, -⟩ := one_run_at_a_time (e := hosted [] [pausing]) rfl 3
    [.batch ["PAUSE"], .line "PAUSE"] [(0, .resume), (1, .resume)]
  obtain ⟨i, hi⟩ := hactive.mp hbusy
  exact ⟨hbusy, i, hi, fun j hj => hone j i hj hi⟩

end Scene

end CommandBatch
