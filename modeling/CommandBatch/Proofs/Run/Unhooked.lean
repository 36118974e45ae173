import CommandBatch.Proofs.Run.Lines

/-!
# Runs without hooks

Where there are no hooks, what surrounds the lines of a run is known to the last detail.  A line that
ends with a code leaves the engine as its handler left it, but for the step that is logged
(`line_of_unhooked`), and a batch is the lines that it runs between its beginning and its report
(`runBatch_iff`).  So the lines that were begun and the trace of a run are known from the lines that it
ran (`begun_of_line`, `trace_of_line`), whatever the handlers of these did.
-/

namespace CommandBatch

variable {σ : Type}

namespace Engine

open Act Process

theorem begun_announcing (n : Notice) (e : Engine σ) :
    (announcing n e).begun = e.begun ++ (Record.announced n).begun?.toList := by
  simp only [announcing, begun, Array.toList_push, List.filterMap_append]
  cases n <;> rfl

theorem held_beginning (index : Nat) (text : String) (e : Engine σ) :
    (beginning index text e).held = e.held :=
  held_announcing (.beforeLine index text) { e with progress := { e.progress with index := some index } }

theorem place_beginning (index : Nat) (text : String) {e : Engine σ} (hbusy : e.busy = true) :
    (beginning index text e).place =
      ⟨some index, e.progress.trace, e.begun ++ [(index, text)]⟩ := by
  have hbegun : (beginning index text e).begun = e.begun ++ [(index, text)] :=
    begun_announcing (.beforeLine index text)
      { e with progress := { e.progress with index := some index } }
  show (⟨if e.busy then (if e.busy then some index else none) else none, e.progress.trace,
    (beginning index text e).begun⟩ : Place) = _
  rw [hbegun, if_pos hbusy, if_pos hbusy]

theorem frame_taken (text : String) (e : Engine σ) (r : Except Fault Line) :
    (engineOf (taken text e r)).frame = e.frame := by
  cases r with
  | ok line => rfl
  | error fault => cases fault <;> rfl

theorem held_closed (index : Nat) (text : String) (code : Int) (e : Engine σ) :
    (closed index text code e).held = e.held := by
  unfold closed
  by_cases hcode : code = 0
  · simp only [if_pos hcode]
    exact held_announcing _ _
  · simp only [if_neg hcode]
    exact (held_announcing _ _).trans (held_announcing _ _)

theorem begun_closed (index : Nat) (text : String) (code : Int) (e : Engine σ) :
    (closed index text code e).begun = e.begun := by
  have hafter : (announcing (.afterLine index text code) (logged index text code e)).begun = e.begun :=
    (begun_announcing _ _).trans (List.append_nil _)
  unfold closed
  by_cases hcode : code = 0
  · simp only [if_pos hcode]
    exact hafter
  · simp only [if_neg hcode]
    exact ((begun_announcing _ _).trans (List.append_nil _)).trans hafter

/-- Where a step has been logged, all that follows is announced. -/
theorem closed_eq (index : Nat) (text : String) (code : Int) (e : Engine σ) :
    ∃ transcript, closed index text code e = { logged index text code e with transcript } := by
  unfold closed
  by_cases hcode : code = 0
  · simp only [if_pos hcode]
    exact ⟨_, rfl⟩
  · simp only [if_neg hcode]
    exact ⟨_, rfl⟩

theorem progress_closed (index : Nat) (text : String) (code : Int) (e : Engine σ) :
    (closed index text code e).progress = (logged index text code e).progress := by
  obtain ⟨transcript, hclosed⟩ := closed_eq index text code e
  rw [hclosed]

/-! ## One line -/

/-- **What a line comes to.**  Between its beginning and its end, the frame of the run is the same, and also
where the line breaks off. -/
theorem line_of_unhooked {index : Nat} {text : String} {e : Engine σ}
    {r : EStateM.Result Fault (Engine σ) Int} (hhooks : e.services.hooks = {}) (hbusy : e.busy = true)
    (h : LineEnds index text e r) :
    ∃ e₁, e₁.frame = (beginning index text e).frame ∧
      ((∃ fault, r = .error fault e₁) ∨ ∃ code, r = .ok code (closed index text code e₁)) := by
  obtain ⟨fuel, h⟩ := h
  have hopened (r₁ : EStateM.Result Fault (Engine σ) Int) (hopen : (ofAct (openLine index text)).Ends e r₁) :
      (engineOf r₁).frame = (beginning index text e).frame := by
    rw [ends_ofAct, openLine_of_unhooked hhooks] at hopen
    rw [← hopen, frame_taken]
  rcases ends_bind.mp h with ⟨code₁, e₃, hopen, h⟩ | ⟨fault, e₃, hopen, rfl⟩
  case inr => exact ⟨e₃, hopened _ hopen, .inl ⟨fault, rfl⟩⟩
  have hframe₃ : e₃.frame = (beginning index text e).frame := hopened _ hopen
  have hbusy₃ : e₃.busy = true := (busy_of_frame hframe₃).trans hbusy
  have hexecuted (r₁ : EStateM.Result Fault (Engine σ) Int)
      (hexecute : (executeUnless (carryOut fuel) code₁).Ends e₃ r₁) :
      (engineOf r₁).frame = (beginning index text e).frame := by
    refine Eq.trans ?_ hframe₃
    by_cases hcode : code₁ = 0
    · rw [executeUnless, if_pos hcode] at hexecute
      exact frame_execute fuel hbusy₃ hexecute
    · rw [executeUnless, if_neg hcode] at hexecute
      exact Process.keeps_ofAct (Act.keeps_pure code₁) hbusy₃ hexecute
  rcases ends_bind.mp h with ⟨code₂, e₄, hexecute, hclose⟩ | ⟨fault, e₄, hexecute, rfl⟩
  case inr => exact ⟨e₄, hexecuted _ hexecute, .inl ⟨fault, rfl⟩⟩
  have hframe₄ : e₄.frame = (beginning index text e).frame := hexecuted _ hexecute
  have hhooks₄ : e₄.services.hooks = {} := by
    have hheld : e₄.held = e.held := (congrArg Prod.fst hframe₄).trans (held_beginning index text e)
    rw [hooks_of_held hheld, hhooks]
  rw [ends_ofAct, closeLine_of_unhooked hhooks₄] at hclose
  refine ⟨e₄, hframe₄, ?_⟩
  by_cases hrecordable : e₄.Recordable
  · rw [closing_of_recordable hrecordable] at hclose
    exact .inr ⟨code₂, hclose.symm⟩
  · rw [closing_of_not_recordable hrecordable] at hclose
    exact .inl ⟨_, hclose.symm⟩

theorem held_of_line {index : Nat} {text : String} {e : Engine σ}
    {r : EStateM.Result Fault (Engine σ) Int} (hhooks : e.services.hooks = {}) (hbusy : e.busy = true)
    (h : LineEnds index text e r) : (engineOf r).held = e.held := by
  obtain ⟨e₁, hframe, hr⟩ := line_of_unhooked hhooks hbusy h
  have hheld : e₁.held = e.held := (congrArg Prod.fst hframe).trans (held_beginning index text e)
  rcases hr with ⟨fault, rfl⟩ | ⟨code, rfl⟩
  · exact hheld
  · exact (held_closed index text code e₁).trans hheld

theorem begun_of_line {index : Nat} {text : String} {e : Engine σ}
    {r : EStateM.Result Fault (Engine σ) Int} (hhooks : e.services.hooks = {}) (hbusy : e.busy = true)
    (h : LineEnds index text e r) : (engineOf r).begun = e.begun ++ [(index, text)] := by
  obtain ⟨e₁, hframe, hr⟩ := line_of_unhooked hhooks hbusy h
  have hplace : e₁.place = _ := (congrArg Prod.snd hframe).trans (place_beginning index text hbusy)
  have hbegun : e₁.begun = e.begun ++ [(index, text)] := congrArg Place.begun hplace
  rcases hr with ⟨fault, rfl⟩ | ⟨code, rfl⟩
  · exact hbegun
  · rw [engineOf_ok, begun_closed]
    exact hbegun

/-- A line that has ended is the last step of the trace, with the command that it leaves behind. -/
theorem trace_of_line {index : Nat} {text : String} {code : Int} {e e₁ : Engine σ}
    (hhooks : e.services.hooks = {}) (hbusy : e.busy = true)
    (h : LineEnds index text e (.ok code e₁)) :
    e₁.progress.trace = e.progress.trace.push
      (e.progress.trace.nextEntry (some index) text e₁.progress.command code
        (if e₁.setup.verbose then some e₁.env.snapshot else none)) := by
  obtain ⟨e₂, hframe, ⟨_, hr⟩ | ⟨_, hr⟩⟩ := line_of_unhooked hhooks hbusy h <;> cases hr
  have hplace : e₂.place = _ := (congrArg Prod.snd hframe).trans (place_beginning index text hbusy)
  have htrace : e₂.progress.trace = e.progress.trace := congrArg Place.trace hplace
  obtain ⟨transcript, hclosed⟩ := closed_eq index text code e₂
  rw [hclosed, ← htrace]
  rfl

/-- A line that breaks off is no step of the trace. -/
theorem trace_of_broken {index : Nat} {text : String} {fault : Fault} {e e₁ : Engine σ}
    (hhooks : e.services.hooks = {}) (hbusy : e.busy = true) (h : LineEnds index text e (.error fault e₁)) :
    e₁.progress.trace = e.progress.trace := by
  obtain ⟨e₂, hframe, ⟨_, hr⟩ | ⟨_, hr⟩⟩ := line_of_unhooked hhooks hbusy h <;> cases hr
  have hplace : e₁.place = _ := (congrArg Prod.snd hframe).trans (place_beginning index text hbusy)
  exact congrArg Place.trace hplace

/-! ## Batches -/

/-- **What a batch has done** when it has run some lines: nothing that is held was changed, and these
are the lines that were begun. -/
theorem of_runs {e e₁ : Engine σ} {lines : List (Nat × String)} (hhooks : e.services.hooks = {})
    (hbusy : e.busy = true) (h : Runs e lines e₁) :
    e₁.held = e.held ∧ e₁.begun = e.begun ++ lines := by
  induction h with
  | refl e => exact ⟨rfl, (List.append_nil _).symm⟩
  | @line e e₁ e₂ index text lines hnext hline _ ih =>
    have hheld : e₁.held = e.held := held_of_line (e := passing index e) hhooks hbusy hline
    have hbegun : e₁.begun = e.begun ++ [(index, text)] :=
      begun_of_line (e := passing index e) hhooks hbusy hline
    obtain ⟨hheld₂, hbegun₂⟩ := ih ((hooks_of_held hheld).trans hhooks)
      ((busy_of_held hheld).trans hbusy)
    refine ⟨hheld₂.trans hheld, ?_⟩
    rw [hbegun₂, hbegun, List.append_assoc, List.singleton_append]

/-- A batch begins with what was held before, and no line begun. -/
theorem held_opened (lines : List String) (e : Engine σ) :
    (opened lines (entered e)).held = { e.held with busy := true } :=
  held_announcing (.batchStart lines)
    { entered e with progress := { (entered e).progress with batch := lines, cursor := 0 } }

theorem begun_opened (lines : List String) (e : Engine σ) :
    (opened lines (entered e)).begun = e.begun :=
  (begun_announcing (.batchStart lines)
    { entered e with progress := { (entered e).progress with batch := lines, cursor := 0 } }).trans
    (List.append_nil _)

theorem held_completed (code : Int) (e : Engine σ) :
    (completed code e).held = { e.held with completions := e.completions ++ [code] } := by
  have hheld := held_announcing (.batchEnd code) { e with progress := { e.progress with code } }
  rw [completed, held_completing, show (announcing (.batchEnd code) _).held = e.held from hheld,
    show (announcing (.batchEnd code) _).completions = e.completions from
      congrArg Held.completions hheld]

theorem begun_completed (code : Int) (e : Engine σ) : (completed code e).begun = e.begun := by
  have hbegun := begun_announcing (.batchEnd code) { e with progress := { e.progress with code } }
  have hreport (e : Engine σ) : (completing code e).begun = e.begun := by
    simp [completing, begun, Record.begun?]
  rw [completed, hreport, hbegun]
  exact List.append_nil _

theorem runBatch_iff {e : Engine σ} {lines : List String}
    {r : EStateM.Result Fault (Engine σ) Int} (hhooks : e.services.hooks = {})
    (hidle : e.busy = false) :
    Carries (.runBatch lines) e r ↔
      ∃ r₁, Proceeds (opened lines (entered e)) r₁ ∧ concluded r₁ = r := by
  have hopen : openBatch lines 0 (entered e) = .ok () (opened lines (entered e)) :=
    openBatch_of_unhooked (e := entered e) hhooks lines
  have hbody (go : Task → Process σ Int) (n : Nat) (r₁ : EStateM.Result Fault (Engine σ) Int) :
      (do
        ofAct (openBatch lines 0)
        proceed go n : Process σ Int).Ends (entered e) r₁ ↔
        (proceed go n).Ends (opened lines (entered e)) r₁ := by
    simp only [ends_bind, ends_ofAct, hopen]
    constructor
    · rintro (⟨_, _, he, hr⟩ | ⟨_, _, he, -⟩)
      · cases he
        exact hr
      · cases he
    · exact fun hr => .inl ⟨_, _, rfl, hr⟩
  constructor
  · rintro ⟨_ | fuel, h⟩
    · exact absurd h not_ends_exhausted
    · obtain ⟨r₁, hr₁, hr⟩ := (during_iff hidle).mp h
      exact ⟨r₁, ⟨fuel, fuel, (hbody _ _ r₁).mp hr₁⟩, hr⟩
  · rintro ⟨r₁, ⟨fuel, n, hr₁⟩, hr⟩
    have hmore := proceed_below (carryOut_below (Nat.le_max_left fuel n)) (Nat.le_max_right fuel n) hr₁
    exact ⟨max fuel n + 1, (during_iff hidle).mpr ⟨r₁, (hbody _ _ r₁).mpr hmore, hr⟩⟩

/-- A line that is run by itself is the first line of a batch, with the cursor behind it. -/
theorem carries_runLine {e : Engine σ} {line : String} {r : EStateM.Result Fault (Engine σ) Int}
    (hhooks : e.services.hooks = {}) (hidle : e.busy = false)
    (h : LineEnds 0 line (passing 0 (opened [line] (entered e))) r) :
    Carries (.runLine line) e (concluded r) := by
  have hopen : openBatch [line] 1 (entered e) = .ok () (passing 0 (opened [line] (entered e))) :=
    announce_of_unhooked
      (e := { entered e with progress := { (entered e).progress with batch := [line], cursor := 1 } })
      hhooks (.batchStart [line])
  obtain ⟨fuel, h⟩ := h
  exact ⟨fuel + 1, (during_iff hidle).mpr
    ⟨r, ends_bind.mpr (.inl ⟨(), _, ends_ofAct.mpr hopen, h⟩), rfl⟩⟩

/-- How a batch stands that has been started on an engine and has run some lines. -/
theorem of_batch {e e₁ : Engine σ} {lines : List String} {ran : List (Nat × String)}
    (hhooks : e.services.hooks = {}) (hruns : Runs (opened lines (entered e)) ran e₁) :
    e₁.held = { e.held with busy := true } ∧ e₁.begun = e.begun ++ ran := by
  have hstart := held_opened lines e
  obtain ⟨hheld, hbegun⟩ := of_runs (e := opened lines (entered e)) hhooks
    (congrArg Held.busy hstart) hruns
  exact ⟨hheld.trans hstart, hbegun.trans (by rw [begun_opened])⟩

theorem of_stops {e : Engine σ} {last : Option (Nat × String)} {r : EStateM.Result Fault (Engine σ) Int}
    (hhooks : e.services.hooks = {}) (hbusy : e.busy = true) (h : Stops e last r) :
    (engineOf r).held = e.held ∧ (engineOf r).begun = e.begun ++ last.toList := by
  cases h with
  | behind => exact ⟨rfl, (List.append_nil _).symm⟩
  | @failed index text _ _ _ hline | @broken index text _ _ _ hline =>
    exact ⟨held_of_line (e := passing index e) hhooks hbusy hline,
      begun_of_line (e := passing index e) hhooks hbusy hline⟩

/-- **A batch that stops with a code** has begun the lines that it ran and the one that it stopped at.
It reports the code, frees the engine, and returns the code as soon as the host has been told. -/
theorem batch_of_stops {e e₁ e₂ : Engine σ} {lines : List String} {ran : List (Nat × String)}
    {last : Option (Nat × String)} {code : Int} (hidle : e.busy = false)
    (hhooks : e.services.hooks = {}) (hruns : Runs (opened lines (entered e)) ran e₁)
    (hstops : Stops e₁ last (.ok code e₂)) :
    (completed code (freed e₂)).held = { e.held with completions := e.completions ++ [code] } ∧
      (completed code (freed e₂)).begun = e.begun ++ ran ++ last.toList ∧
      ∀ r, Carries (.runBatch lines) e r ↔ r = callBack code (completed code (freed e₂)) := by
  obtain ⟨hheld₁, hbegun₁⟩ := of_batch hhooks hruns
  obtain ⟨hheld₂, hbegun₂⟩ := of_stops ((congrArg Held.hooks hheld₁).trans hhooks)
    (congrArg Held.busy hheld₁) hstops
  have hfreed : (freed e₂).held = e.held := by
    show ({ e₂.held with busy := false } : Held σ) = e.held
    rw [show e₂.held = e₁.held from hheld₂, hheld₁, ← hidle]
    rfl
  refine ⟨?_, ?_, fun r => ?_⟩
  · rw [held_completed, hfreed, show (freed e₂).completions = e.completions from
      congrArg Held.completions hfreed]
  · rw [begun_completed, ← hbegun₁]
    exact hbegun₂
  · have hcarries : Carries (.runBatch lines) e (callBack code (completed code (freed e₂))) :=
      (runBatch_iff hhooks hidle).mpr ⟨_, proceeds_iff.mpr ⟨ran, e₁, last, hruns, hstops⟩,
        complete_of_unhooked ((hooks_of_held hfreed).trans hhooks) code⟩
    constructor
    · exact fun h => h.unique hcarries
    · rintro rfl
      exact hcarries

/-- **A batch that breaks off** has begun the same lines.  It frees the engine, and comes to the fault of the
line that it broke off at. -/
theorem batch_of_breaks {e e₁ e₂ : Engine σ} {lines : List String} {ran : List (Nat × String)}
    {last : Option (Nat × String)} {fault : Fault} (hidle : e.busy = false)
    (hhooks : e.services.hooks = {}) (hruns : Runs (opened lines (entered e)) ran e₁)
    (hstops : Stops e₁ last (.error fault e₂)) :
    (freed e₂).held = e.held ∧ (freed e₂).begun = e.begun ++ ran ++ last.toList ∧
      ∀ r, Carries (.runBatch lines) e r ↔ r = .error fault (freed e₂) := by
  obtain ⟨hheld₁, hbegun₁⟩ := of_batch hhooks hruns
  obtain ⟨hheld₂, hbegun₂⟩ := of_stops ((congrArg Held.hooks hheld₁).trans hhooks)
    (congrArg Held.busy hheld₁) hstops
  have hcarries : Carries (.runBatch lines) e (.error fault (freed e₂)) :=
    (runBatch_iff hhooks hidle).mpr ⟨.error fault e₂, proceeds_iff.mpr ⟨ran, e₁, _, hruns, hstops⟩, rfl⟩
  refine ⟨?_, ?_, fun r => ⟨fun h => h.unique hcarries, ?_⟩⟩
  · show ({ e₂.held with busy := false } : Held σ) = e.held
    rw [show e₂.held = e₁.held from hheld₂, hheld₁, ← hidle]
    rfl
  · rw [← hbegun₁]
    exact hbegun₂
  · rintro rfl
    exact hcarries

end Engine

end CommandBatch
