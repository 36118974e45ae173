import CommandBatch.Proofs.Run.Containment
import CommandBatch.Proofs.Run.Unhooked

/-!
# Which line a failure outside a run points at

A failure is noted with the index of the line that runs.  A run sets this index when it begins a line, and
nothing takes it away when the run is over: only the next run and a text that is interpreted outside a run do.
So a host that has a text interpreted gets a failure without a line, whatever happened to the engine before.
A host that executes what is there already gets a failure with the line that a run has left behind, and one
without a line only as long as no run has begun a line since the host had a text interpreted last
(`failures_of_direct_calls`).

That nothing else can be pointed at is an invariant of everything that an engine does, at every moment of it
(`Pointing`): the index is that of the last line begun since, or there is none.  Each part of a run keeps it,
and by induction on the fuel so does every task, also one whose handlers start runs of their own.
-/

namespace CommandBatch.Engine

open Act Process Run

variable {σ : Type}

/-- The lines begun since there were so many. -/
def begunSince (base : Nat) (e : Engine σ) : List (Nat × String) := e.begun.drop base

/-- Counted from a number of lines begun, and from the failure that was noted then: the index of the line that
runs is that of the last line begun since, if there is one, and a failure that was noted since points at one of
these lines, or at none. -/
structure Pointing (base : Nat) (before : Option Failure) (e : Engine σ) : Prop where
  base_le : base ≤ e.begun.length
  index : ∀ i, e.progress.index = some i → ∃ text, (e.begunSince base).getLast? = some (i, text)
  failure : e.progress.failure = before ∨ ∀ f i, e.progress.failure = some f → f.line = some i →
    ∃ text, (i, text) ∈ e.begunSince base

namespace Pointing

variable {base : Nat} {before : Option Failure} {e e₁ : Engine σ}

/-- The index may be forgotten at any time. -/
theorem same (h : Pointing base before e) (hbegun : e₁.begun = e.begun)
    (hindex : e₁.progress.index = e.progress.index ∨ e₁.progress.index = none)
    (hfailure : e₁.progress.failure = e.progress.failure) : Pointing base before e₁ := by
  have hsince : e₁.begunSince base = e.begunSince base := by rw [begunSince, begunSince, hbegun]
  refine ⟨hbegun ▸ h.base_le, fun i hi => ?_, ?_⟩
  · rw [hsince]
    rcases hindex with hindex | hindex <;> rw [hindex] at hi
    · exact h.index i hi
    · cases hi
  · rw [hsince, hfailure]
    exact h.failure

/-- A failure that is noted points where the index does. -/
theorem failing (h : Pointing base before e) (r : Reason) (text : String) :
    Pointing base before (e.failing r text) := by
  refine ⟨h.base_le, h.index, .inr fun f i hf hi => ?_⟩
  cases hf
  obtain ⟨text', hlast⟩ := h.index i hi
  exact ⟨text', List.mem_of_getLast? hlast⟩

/-- A line that is begun is the last one. -/
theorem begins (h : Pointing base before e) (index : Nat) (text : String) :
    Pointing base before
      (announcing (.beforeLine index text) { e with progress := { e.progress with index := some index } }) := by
  have hbegun := begun_announcing (.beforeLine index text)
    { e with progress := { e.progress with index := some index } }
  have hsince : begunSince base (announcing (.beforeLine index text)
      { e with progress := { e.progress with index := some index } }) =
      e.begunSince base ++ [(index, text)] := by
    rw [begunSince, hbegun]
    exact List.drop_append_of_le_length h.base_le
  refine ⟨?_, fun i hi => ?_, ?_⟩
  · rw [hbegun, List.length_append]
    exact Nat.le_add_right_of_le h.base_le
  · cases hi
    exact ⟨text, by rw [hsince, List.getLast?_concat]⟩
  · rcases h.failure with hbefore | hsince'
    · exact .inl hbefore
    · refine .inr fun f i hf hi => ?_
      obtain ⟨text', hmem⟩ := hsince' f i hf hi
      exact ⟨text', by rw [hsince]; exact List.mem_append_left _ hmem⟩

/-- A run begins without an index and without a failure. -/
theorem entered (h : Pointing base before e) : Pointing base before (entered e) :=
  ⟨h.base_le, nofun, .inr nofun⟩

theorem pushed (h : Pointing base before e) {r : Record} (hr : r.begun? = none) :
    Pointing base before { e with transcript := e.transcript.push r } :=
  h.same (by simp [begun, hr]) (.inl rfl) rfl

end Pointing

variable {base : Nat} {before : Option Failure}

/-! ## What scripts keep -/

theorem pointing_withstands (allowed : Request σ → Prop) :
    Withstands allowed fun e : Engine σ => Pointing base before e where
  host _ _ h := h.same rfl (.inl rfl) rfl
  edit _ _ := preserves_edit fun e e₁ h hedited => by
    cases hedited with
    | output | noted => exact h.pushed rfl
    | refused => exact h
    | set | deleted | moved | typed => exact h.same rfl (.inl rfl) rfl
  registerCommand _ _ _ := preserves_registerCommand fun _ _ h _ => h.same rfl (.inl rfl) rfl
  interpret text _ := by
    have hfaced (e : Engine σ) (h : Pointing base before e) : Pointing base before (faced text e) := by
      refine h.same rfl ?_ rfl
      cases hbusy : e.busy with
      | true => exact .inl (by simp [faced, facing, hbusy])
      | false => exact .inr (by simp [faced, facing, hbusy])
    exact preserves_interpret hfaced (fun e _ h _ => (hfaced e h).same rfl (.inl rfl) rfl)
      fun e f h _ => (hfaced e h).failing f.reason text

theorem Pointing.meddled {e e₁ : Engine σ} (h : Pointing base before e)
    (hmeddled : Meddled (fun _ => True) e e₁) : Pointing base before e₁ :=
  (pointing_withstands _).meddled (fun r text _ h => h.failing r text) h hmeddled

/-! ## The parts of a run -/

theorem Pointing.announce {e : Engine σ} {n : Notice} (h : Pointing base before (announcing n e)) :
    (Engine.announce n).Ensures (fun _ => Pointing base before) (fun _ => Pointing base before) e :=
  (pointing_withstands fun _ => True).announce (fun _ _ _ h => h.pushed rfl)
    (HookRegistry.asks_of_all (fun _ => trivial) _) h

/-- Any other announcement begins no line. -/
theorem pointing_announce {n : Notice} (hn : (Record.announced n).begun? = none) :
    (announce n : Act σ Unit).Preserves (Pointing base before) := fun e h => by
  refine Pointing.announce (h.same ?_ (.inl ?_) ?_)
  · rw [begun_announcing, hn]
    exact List.append_nil _
  · cases n <;> rfl
  · cases n <;> rfl

theorem pointing_openLine (index : Nat) (text : String) :
    (openLine index text : Act σ Int).Preserves (Pointing base before) := fun _ h =>
  ensures_bind (ensures_bind ((h.begins index text).announce.mono
    (fun _ e₁ h₁ => (pointing_withstands fun _ => True).interpret text trivial e₁ h₁) fun _ _ h₁ => h₁))

theorem pointing_closeLine (index : Nat) (text : String) (code : Int) :
    (closeLine index text code : Act σ Int).Preserves (Pointing base before) := fun e h => by
  have hlog : (logStep index text code).Ensures (fun _ => Pointing base before)
      (fun _ => Pointing base before) e :=
    (pointing_withstands fun _ => True).logStep (fun _ _ h => h.pushed rfl)
      (HookRegistry.asks_of_all (fun _ => trivial) _) (h.same rfl (.inl rfl) rfl) (fun _ h => h) fun _ => h
  refine (ensures_closing hlog fun e₁ h₁ => ?_).mono (fun _ _ h => h.2) fun _ _ h => h
  refine (pointing_announce rfl e₁ h₁).mono (fun _ e₂ h₂ => ?_) fun _ _ h => h
  by_cases hcode : code = 0
  · rw [if_pos hcode]
    exact h₂
  · rw [if_neg hcode]
    exact pointing_announce rfl e₂ h₂

theorem pointing_progressBy (f : Progress → Progress) (hindex : ∀ p, (f p).index = p.index)
    (hfailure : ∀ p, (f p).failure = p.failure) :
    (progressBy f : Act σ Unit).Preserves (Pointing base before) :=
  fun _ h => h.same rfl (.inl (hindex _)) (hfailure _)

theorem pointing_openBatch (lines : List String) (cursor : Int) :
    (openBatch lines cursor : Act σ Unit).Preserves (Pointing base before) :=
  (pointing_progressBy (fun p => { p with batch := lines, cursor }) (fun _ => rfl) fun _ => rfl).bind fun _ =>
    pointing_announce (n := .batchStart lines) rfl

theorem pointing_complete (code : Int) :
    (complete code : Act σ Int).Preserves (Pointing base before) := by
  refine (pointing_progressBy (fun p => { p with code }) (fun _ => rfl) fun _ => rfl).bind fun _ =>
    (pointing_announce (n := .batchEnd code) rfl).bind fun _ => Preserves.bind (fun _ h => ?_) fun _ _ h => ?_
  · exact h.pushed (r := .completed code) rfl
  · exact (pointing_withstands fun _ => True).callBack
      (fun script _ => Script.asks_of_all (fun _ => trivial) (script code)) h

theorem pointing_enter : (enter : Act σ Unit).Preserves (Pointing base before) := by
  refine preserves_iff.mpr fun e h => ?_
  cases hbusy : e.busy with
  | true =>
    rw [enter_of_busy hbusy]
    exact h
  | false =>
    rw [enter_of_idle hbusy]
    exact h.entered

/-! ## Tasks -/

/-- What others make of the engine in a wait of a task that a host has begun. -/
abbrev Meddling (e e₁ : Engine σ) : Prop := Meddled (fun _ => True) e e₁

variable {go : Task → Process σ Int}

/-- The handler of a line, its waits and its tasks keep what they point at. -/
theorem pointing_playOut (hgo : ∀ t, (go t).Upholds Meddling (Pointing base before)) (script : Script σ) :
    (playOut go script).Upholds Meddling (Pointing base before) :=
  (pointing_withstands fun _ => True).playOut (fun _ _ h hmeddled => h.meddled hmeddled) (fun t _ => hgo t)
    script (Script.asks_of_all (fun _ => trivial) script)

/-- A line that is executed and gives a code other than 0 has noted a failure, with the index that the engine
then has. -/
theorem pointing_execute (hgo : ∀ t, (go t).Upholds Meddling (Pointing base before)) {e : Engine σ}
    (h : Pointing base before e) :
    (execute go e).Ensures Meddling (Pointing base before)
      (fun code e₁ => Pointing base before e₁ ∧ (code ≠ 0 → ∃ r : Reason, r.code = code ∧
        e₁.progress.failure = some ⟨r, e₁.progress.index, some e.progress.text⟩))
      fun _ => Pointing base before :=
  ensures_execute h (fun command args _ _ => pointing_playOut hgo (command.handler args) e h)
    (fun _ h₁ => ⟨h₁, fun hcode => absurd rfl hcode⟩)
    (fun r _ h₁ => ⟨h₁.failing r e.progress.text, fun _ => ⟨r, rfl, rfl⟩⟩) fun _ _ _ h₁ => h₁

theorem pointing_step (hgo : ∀ t, (go t).Upholds Meddling (Pointing base before)) (index : Nat)
    (text : String) : (step go index text).Upholds Meddling (Pointing base before) :=
  upholds_step (pointing_openLine index text)
    (fun _ h => (pointing_execute hgo h).mono (fun _ h₁ => h₁) (fun _ _ h₁ => h₁.1) fun _ _ h₁ => h₁)
    (pointing_closeLine index text)

theorem pointing_during {x : Process σ Int} (hx : x.Upholds Meddling (Pointing base before)) :
    (during x).Upholds Meddling (Pointing base before) := by
  refine (upholds_ofAct pointing_enter).bind fun _ => Upholds.bind (fun e h => ensures_releasing ?_)
    fun code => upholds_ofAct (pointing_complete code)
  exact (hx e h).mono (fun _ h₁ => h₁) (fun _ _ h₁ => h₁.same rfl (.inl rfl) rfl)
    fun _ _ h₁ => h₁.same rfl (.inl rfl) rfl

/-- **Every task keeps what is pointed at**, by induction on the tasks inside one another. -/
theorem pointing_carryOut (fuel : Nat) (t : Task) :
    (carryOut fuel t).Upholds Meddling (Pointing (σ := σ) base before) := by
  induction fuel generalizing t with
  | zero => exact fun _ h => .exhausted h
  | succ fuel ih =>
    cases t with
    | execute =>
      exact fun _ h => (pointing_execute ih h).mono (fun _ h₁ => h₁) (fun _ _ h₁ => h₁.1) fun _ _ h₁ => h₁
    | runLine line =>
      exact pointing_during ((upholds_ofAct (pointing_openBatch [line] 1)).bind fun _ =>
        pointing_step ih 0 line)
    | runBatch lines =>
      refine pointing_during ((upholds_ofAct (pointing_openBatch lines 0)).bind fun _ => ?_)
      exact upholds_proceed (fun _ _ h => h.same rfl (.inl rfl) rfl) (pointing_step ih) fuel

/-! ## What a host has done -/

/-- A host has made an engine and called it, one call after the other: it has run lines and batches, with
whatever outcome, had texts interpreted and executed, registered things, and changed variables and the cursor.
The number is how many lines runs had begun when the host had a text interpreted last. -/
inductive History : Nat → Engine σ → Prop
  | new {setup : Setup σ} {services : Services σ} {host : σ} {e : Engine σ}
      (h : Engine.new setup services host = .ok e) : History 0 e
  | carried {base : Nat} {e : Engine σ} {t : Task} {r : EStateM.Result Fault (Engine σ) Int}
      (h : History base e) (hends : CarriesAmid Meddling t e r) : History base (engineOf r)
  | interpreted {base : Nat} {e : Engine σ} (h : History base e) (hidle : e.busy = false) (text : String) :
      History e.begun.length (engineOf (interpret text e))
  | edited {base : Nat} {e : Engine σ} (h : History base e) (ed : Edit) : History base (engineOf (edit ed e))
  | registered {base : Nat} {e : Engine σ} (h : History base e) (owner : String) (r : Registration σ) :
      History base (engineOf (register owner r e))

theorem register_eq (owner : String) (r : Registration σ) (e : Engine σ) :
    ∃ services, engineOf (register owner r e) = { e with services } := by
  simp only [register, bind_apply, get_apply, orThrow]
  cases e.services.register owner r with
  | ok services => exact ⟨services, rfl⟩
  | error reason => exact ⟨e.services, rfl⟩

/-- A text that is interpreted outside a run begins no line, and no line runs behind it. -/
theorem Pointing.interpreted {e : Engine σ} (hidle : e.busy = false) (text : String) :
    Pointing e.begun.length (engineOf (interpret text e)).progress.failure (engineOf (interpret text e)) := by
  have hindex : (engineOf (interpret text e)).progress.index = none ∧
      (engineOf (interpret text e)).begun = e.begun := by
    rw [interpret_eq]
    cases Line.read e.services.types.types e.setup.marks text with
    | ok line => exact ⟨by simp [taken, understood, faced, facing, hidle], rfl⟩
    | error fault => cases fault <;> exact ⟨by simp [taken, Engine.failing, faced, facing, hidle], rfl⟩
  exact ⟨hindex.2 ▸ Nat.le_refl _, fun i hi => (by cases hindex.1.symm.trans hi), .inl rfl⟩

/-- What is pointed at may be counted from the failure that is there. -/
theorem Pointing.anew {e : Engine σ} (h : Pointing base before e) : Pointing base e.progress.failure e :=
  ⟨h.base_le, h.index, .inl rfl⟩

/-- **Whatever a host has done**, the index is that of the last line begun since it had a text interpreted
last, or there is none. -/
theorem History.pointing {e : Engine σ} (h : History base e) : Pointing base e.progress.failure e := by
  induction h with
  | new h =>
    unfold Engine.new at h
    split at h
    · cases h
    · cases h
      exact ⟨Nat.zero_le _, nofun, .inl rfl⟩
  | carried _ hends ih =>
    obtain ⟨fuel, hends⟩ := hends
    exact ((pointing_carryOut fuel _).of_endsAmid ih hends).anew
  | interpreted _ hidle text => exact .interpreted hidle text
  | edited _ ed ih =>
    exact (preserves_iff.mp ((pointing_withstands fun _ => True).edit ed trivial) _ ih).anew
  | @registered _ e _ owner r ih =>
    obtain ⟨services, hr⟩ := register_eq owner r e
    rw [hr]
    have hedited : Pointing _ _ { e with services } := ih.same rfl (.inl rfl) rfl
    exact hedited.anew

/-! ## Direct calls -/

/-- A text that is interpreted outside a run and fails does so without a line. -/
theorem interpret_of_idle {e : Engine σ} (hidle : e.busy = false) (text : String) :
    (∀ code e₁, interpret text e = .ok code e₁ → (code = 0 ∧ e₁.progress.failure = e.progress.failure) ∨
      ∃ r : Reason, r.code = code ∧ e₁.progress.failure = some ⟨r, none, some text⟩) ∧
    ∀ fault e₁, interpret text e = .error fault e₁ → e₁.progress.failure = e.progress.failure := by
  have hindex : (faced text e).progress.index = none := by simp [faced, facing, hidle]
  have hfailing (r : Reason) :
      (failing r text (faced text e)).progress.failure = some ⟨r, none, some text⟩ := by
    rw [← hindex]
    rfl
  rw [interpret_eq]
  cases Line.read e.services.types.types e.setup.marks text with
  | ok line =>
    refine ⟨fun code e₁ h => ?_, fun fault e₁ h => ?_⟩ <;> cases h
    exact .inl ⟨rfl, rfl⟩
  | error fault =>
    cases fault with
    | failure f =>
      refine ⟨fun code e₁ h => ?_, fun fault e₁ h => ?_⟩ <;> cases h
      exact .inr ⟨f.reason, rfl, hfailing f.reason⟩
    | _ =>
      refine ⟨fun code e₁ h => ?_, fun fault e₁ h => ?_⟩ <;> cases h
      rfl

/-- **What the failures of direct calls point at.**  A host has used an engine in any way, and no run is
active.  A text that it has interpreted fails without a line.  What it has executed leaves the failure that was
there, or one that points at a line, if at any, that a run has begun since the host had a text interpreted
last.  If it gives a code other than 0, the failure points at the last line begun since, or at none; and at none
if no line has been begun since. -/
theorem failures_of_direct_calls {e : Engine σ} (h : History base e) (hidle : e.busy = false) :
    (∀ text,
      (∀ code e₁, interpret text e = .ok code e₁ → (code = 0 ∧ e₁.progress.failure = e.progress.failure) ∨
        ∃ r : Reason, r.code = code ∧ e₁.progress.failure = some ⟨r, none, some text⟩) ∧
      ∀ fault e₁, interpret text e = .error fault e₁ → e₁.progress.failure = e.progress.failure) ∧
    ∀ r, CarriesAmid Meddling .execute e r →
      ((engineOf r).progress.failure = e.progress.failure ∨
        ∀ f i, (engineOf r).progress.failure = some f → f.line = some i →
          ∃ text, (i, text) ∈ (engineOf r).begunSince base) ∧
      ∀ code e₁, r = .ok code e₁ → code ≠ 0 → ∃ (reason : Reason) (line : Option Nat),
        reason.code = code ∧ e₁.progress.failure = some ⟨reason, line, some e.progress.text⟩ ∧
        (∀ i, line = some i → ∃ text, (e₁.begunSince base).getLast? = some (i, text)) ∧
        (e₁.begun.length = base → line = none) := by
  refine ⟨interpret_of_idle hidle, ?_⟩
  rintro r ⟨_ | fuel, hends⟩
  · cases hends
  have hexecute := pointing_execute (pointing_carryOut fuel) h.pointing
  have hpointing : Pointing base e.progress.failure (engineOf r) :=
    (pointing_carryOut (fuel + 1) .execute).of_endsAmid h.pointing hends
  refine ⟨hpointing.failure, ?_⟩
  rintro code e₁ rfl hcode
  obtain ⟨-, hnotes⟩ := hexecute.of_ok hends
  obtain ⟨reason, hreason, hfailure⟩ := hnotes hcode
  refine ⟨reason, e₁.progress.index, hreason, hfailure, hpointing.index, fun hnone => ?_⟩
  cases hline : e₁.progress.index with
  | none => rfl
  | some i =>
    obtain ⟨text, hlast⟩ := hpointing.index i hline
    rw [begunSince, engineOf_ok, List.drop_eq_nil_of_le (Nat.le_of_eq hnone)] at hlast
    cases hlast

/-- An engine that has just been made, without commands. -/
def untouched : Engine Unit := { services := .standard, host := () }

theorem history_untouched : History 0 untouched :=
  .new (show Engine.new {} .standard () = .ok untouched from rfl)

/-- The test that no run is active and that what is executed fails as a command that is not there, with this
line. -/
def refails (line : Option Nat) (e : Engine Unit) : Bool :=
  !e.busy && (carryOut 1 .execute e).result?.any
    (returns 9 fun e => e.progress.failure.map Failure.line == some line)

theorem of_refails {line : Option Nat} {e : Engine Unit} (h : refails line e = true) :
    e.busy = false ∧ ∃ e₁ f, CarriesAmid Meddling .execute e (.ok 9 e₁) ∧ e₁.progress.failure = some f ∧
      f.line = line := by
  obtain ⟨hidle, hexecute⟩ := Bool.and_eq_true_iff.mp h
  obtain ⟨r, hcarries, hreturns⟩ := carries_of_any 1 _ hexecute
  obtain ⟨e₁, rfl, htest⟩ := of_returns hreturns
  obtain ⟨f, hfailure, hline⟩ := Option.map_eq_some_iff.mp (eq_of_beq htest)
  exact ⟨by simpa using hidle, e₁, f, carriesAmid_of_carries .refl hcarries, hfailure, hline⟩

/-- A host that has had a text interpreted behind a run gets a failure without a line. -/
theorem failures_of_direct_calls_anew :
    ∃ e e₁ : Engine Unit, History 1 e ∧ e.busy = false ∧ CarriesAmid Meddling .execute e (.ok 9 e₁) ∧
      ∃ reason, e₁.progress.failure = some ⟨reason, none, some e.progress.text⟩ := by
  obtain ⟨r, hruns, hreturns⟩ := carries_of_any (t := .runBatch ["MISSING"]) (e := untouched) 3
    (returns 9 fun e => !e.busy && e.begun.length == 1 && refails none (engineOf (interpret "OTHER" e)))
    (by decide +kernel)
  obtain ⟨e, rfl, htest⟩ := of_returns hreturns
  obtain ⟨hrun, hrefails⟩ := Bool.and_eq_true_iff.mp htest
  obtain ⟨hidle, hbegun⟩ := Bool.and_eq_true_iff.mp hrun
  obtain ⟨hidle₁, e₁, f, hexecutes, hfailure, hline⟩ := of_refails hrefails
  have hhistory : History e.begun.length (engineOf (interpret "OTHER" e)) :=
    .interpreted (history_untouched.carried (carriesAmid_of_carries .refl hruns)) (by simpa using hidle) "OTHER"
  rw [eq_of_beq hbegun] at hhistory
  obtain ⟨-, hexecuted⟩ := failures_of_direct_calls hhistory hidle₁
  obtain ⟨reason, line, -, hpoints, -⟩ := (hexecuted _ hexecutes).2 9 e₁ rfl (by decide)
  rw [hfailure] at hpoints
  cases hpoints
  exact ⟨_, e₁, hhistory, hidle₁, hexecutes, reason, by rw [hfailure, ← hline]⟩

/-- A host that executes what a run has left gets a failure with the line of that run. -/
theorem executed_again_points_back :
    ¬ ∀ (base : Nat) (e : Engine Unit), History base e → e.busy = false →
      ∀ code e₁, CarriesAmid Meddling .execute e (.ok code e₁) → code ≠ 0 →
        ∀ f, e₁.progress.failure = some f → f.line = none := by
  intro h
  obtain ⟨r, hruns, hreturns⟩ := carries_of_any (t := .runBatch ["MISSING"]) (e := untouched) 3
    (returns 9 (refails (some 0))) (by decide +kernel)
  obtain ⟨e, rfl, hrefails⟩ := of_returns hreturns
  obtain ⟨hidle, e₁, f, hexecutes, hfailure, hline⟩ := of_refails hrefails
  have hnone := h 0 e (history_untouched.carried (carriesAmid_of_carries .refl hruns)) hidle 9 e₁ hexecutes
    (by decide) f hfailure
  cases hline.symm.trans hnone

end CommandBatch.Engine
