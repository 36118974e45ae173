import CommandBatch.Proofs.Run.Ending

/-!
# What a run goes through

`Runs` says which lines a batch has run, each with code 0, and how they left the engine; `Stops` says
how the batch then ends: there is no line to go on with, or the next one gives a code other than 0,
or it breaks off.  Every batch that ends is one of these after the other, and the other way round
(`proceeds_iff`), so what a line preserves is preserved up to the end of a batch, by induction on
`Runs`.  Neither says anything about fuel: a line ends if it does so with some amount of it, and more
of it changes nothing.

What a whole run adds is the same for a batch and for a single line: the engine is busy meanwhile,
and the code is reported behind it (`during_iff`).
-/

namespace CommandBatch.Engine

open Process

variable {σ : Type}

/-- The line of an index ends in this way. -/
def LineEnds (index : Nat) (text : String) (e : Engine σ)
    (r : EStateM.Result Fault (Engine σ) Int) : Prop :=
  ∃ fuel, (step (carryOut fuel) index text).Ends e r

/-- The batch that the engine is in ends in this way. -/
def Proceeds (e : Engine σ) (r : EStateM.Result Fault (Engine σ) Int) : Prop :=
  ∃ fuel lines, (proceed (carryOut fuel) lines).Ends e r

/-- The task ends in this way. -/
def Carries (t : Task) (e : Engine σ) (r : EStateM.Result Fault (Engine σ) Int) : Prop :=
  ∃ fuel, (carryOut fuel t).Ends e r

theorem Carries.unique {t : Task} {e : Engine σ} {r r' : EStateM.Result Fault (Engine σ) Int}
    (h : Carries t e r) (h' : Carries t e r') : r = r' := by
  obtain ⟨n, h⟩ := h
  obtain ⟨n', h'⟩ := h'
  exact (carryOut_below (Nat.le_max_left n n') t h).unique
    (carryOut_below (Nat.le_max_right n n') t h')

theorem LineEnds.unique {index : Nat} {text : String} {e : Engine σ}
    {r r' : EStateM.Result Fault (Engine σ) Int} (h : LineEnds index text e r)
    (h' : LineEnds index text e r') : r = r' := by
  obtain ⟨n, h⟩ := h
  obtain ⟨n', h'⟩ := h'
  exact (step_below (carryOut_below (Nat.le_max_left n n')) index text h).unique
    (step_below (carryOut_below (Nat.le_max_right n n')) index text h')

/-- What a task on a given engine comes to is found by carrying it out. -/
theorem carries_of_any {t : Task} {e : Engine σ} (fuel : Nat)
    (test : EStateM.Result Fault (Engine σ) Int → Bool)
    (h : (carryOut fuel t e).result?.any test = true) : ∃ r, Carries t e r ∧ test r = true := by
  cases hr : (carryOut fuel t e).result? with
  | none => rw [hr] at h; cases h
  | some r => rw [hr] at h; exact ⟨r, ⟨fuel, hr⟩, h⟩

/-- The test that an operation has ended with a code, on an engine that passes a test. -/
def returns (code : Int) (test : Engine σ → Bool) : EStateM.Result Fault (Engine σ) Int → Bool
  | .ok code₁ e => code₁ == code && test e
  | .error _ _ => false

theorem of_returns {code : Int} {test : Engine σ → Bool}
    {r : EStateM.Result Fault (Engine σ) Int} (h : returns code test r = true) :
    ∃ e, r = .ok code e ∧ test e = true := by
  cases r with
  | ok code₁ e =>
    obtain ⟨hcode, htest⟩ := Bool.and_eq_true_iff.mp h
    exact ⟨e, by rw [eq_of_beq hcode], htest⟩
  | error => cases h

theorem nextLine?_eq_some_iff {p : Progress} {index : Nat} {text : String} :
    nextLine? p = some (index, text) ↔ p.cursor = index ∧ p.batch[index]? = some text := by
  unfold nextLine?
  split
  · constructor
    · nofun
    · rintro ⟨hcursor, -⟩
      omega
  · rw [Option.map_eq_some_iff]
    constructor
    · rintro ⟨_, htext, hpair⟩
      cases hpair
      exact ⟨by omega, htext⟩
    · rintro ⟨hcursor, htext⟩
      obtain rfl : p.cursor.toNat = index := by omega
      exact ⟨text, htext, rfl⟩

theorem nextLine?_eq_none_iff {p : Progress} :
    nextLine? p = none ↔ ¬(0 ≤ p.cursor ∧ p.cursor < p.batch.length) := by
  unfold nextLine?
  split
  · exact ⟨fun _ => by omega, fun _ => rfl⟩
  · rw [Option.map_eq_none_iff, List.getElem?_eq_none_iff]
    omega

/-- The cursor stands behind the line of an index. -/
def passing (index : Nat) (e : Engine σ) : Engine σ :=
  { e with progress := { e.progress with cursor := index + 1 } }

/-- The batch runs these lines, each with code 0. -/
inductive Runs : Engine σ → List (Nat × String) → Engine σ → Prop
  | refl (e : Engine σ) : Runs e [] e
  | line {e e₁ e₂ : Engine σ} {index : Nat} {text : String} {lines : List (Nat × String)}
      (hnext : nextLine? e.progress = some (index, text))
      (hline : LineEnds index text (passing index e) (.ok 0 e₁)) (hrest : Runs e₁ lines e₂) :
      Runs e ((index, text) :: lines) e₂

/-- The batch ends here: behind its last line, or with a line that fails or breaks off. -/
inductive Stops (e : Engine σ) :
    Option (Nat × String) → EStateM.Result Fault (Engine σ) Int → Prop
  | behind (hnext : nextLine? e.progress = none) : Stops e none (.ok 0 e)
  | failed {index : Nat} {text : String} {code : Int} {e₁ : Engine σ}
      (hnext : nextLine? e.progress = some (index, text))
      (hline : LineEnds index text (passing index e) (.ok code e₁)) (hcode : code ≠ 0) :
      Stops e (some (index, text)) (.ok code e₁)
  | broken {index : Nat} {text : String} {fault : Fault} {e₁ : Engine σ}
      (hnext : nextLine? e.progress = some (index, text))
      (hline : LineEnds index text (passing index e) (.error fault e₁)) :
      Stops e (some (index, text)) (.error fault e₁)

/-! ## One line, and the rest -/

/-- What a line comes to for the batch that it is in. -/
theorem ends_proceed_succ {go : Task → Process σ Int} {lines index : Nat} {text : String}
    {e : Engine σ} {r : EStateM.Result Fault (Engine σ) Int}
    (hnext : nextLine? e.progress = some (index, text)) :
    (proceed go (lines + 1)).Ends e r ↔
      (∃ code e₁, (step go index text).Ends (passing index e) (.ok code e₁) ∧
        if code = 0 then (proceed go lines).Ends e₁ r else .ok code e₁ = r) ∨
      ∃ fault e₁, (step go index text).Ends (passing index e) (.error fault e₁) ∧
        .error fault e₁ = r := by
  have hgo : (proceed go (lines + 1)).Ends e r ↔
      (step go index text >>= fun code =>
        if code = 0 then proceed go lines else pure code : Process σ Int).Ends (passing index e) r := by
    simp only [Ends, proceed, hnext]
    rfl
  rw [hgo, ends_bind]
  refine or_congr (exists_congr fun code => exists_congr fun e₁ => and_congr_right fun _ => ?_) .rfl
  by_cases hcode : code = 0
  · rw [if_pos hcode, if_pos hcode]
  · rw [if_neg hcode, if_neg hcode, ends_pure]

theorem proceeds_of_line {index : Nat} {text : String} {e e₁ : Engine σ}
    {r : EStateM.Result Fault (Engine σ) Int} (hnext : nextLine? e.progress = some (index, text))
    (hline : LineEnds index text (passing index e) (.ok 0 e₁)) (hrest : Proceeds e₁ r) :
    Proceeds e r := by
  obtain ⟨n, hline⟩ := hline
  obtain ⟨n', lines, hrest⟩ := hrest
  refine ⟨max n n', lines + 1, (ends_proceed_succ hnext).mpr (.inl ⟨0, e₁, ?_, ?_⟩)⟩
  · exact step_below (carryOut_below (Nat.le_max_left n n')) index text hline
  · rw [if_pos rfl]
    exact proceed_below (carryOut_below (Nat.le_max_right n n')) (Nat.le_refl _) hrest

theorem proceeds_of_stops {e : Engine σ} {last : Option (Nat × String)}
    {r : EStateM.Result Fault (Engine σ) Int} (h : Stops e last r) : Proceeds e r := by
  cases h with
  | behind hnext => exact ⟨0, 1, by simp [Ends, proceed, hnext, Run.result?]⟩
  | failed hnext hline hcode =>
    obtain ⟨n, hline⟩ := hline
    exact ⟨n, 1, (ends_proceed_succ hnext).mpr (.inl ⟨_, _, hline, by rw [if_neg hcode]⟩)⟩
  | broken hnext hline =>
    obtain ⟨n, hline⟩ := hline
    exact ⟨n, 1, (ends_proceed_succ hnext).mpr (.inr ⟨_, _, hline, rfl⟩)⟩

/-- **A batch runs lines with code 0 until it stops.** -/
theorem proceeds_iff {e : Engine σ} {r : EStateM.Result Fault (Engine σ) Int} :
    Proceeds e r ↔ ∃ lines e₁ last, Runs e lines e₁ ∧ Stops e₁ last r := by
  constructor
  · rintro ⟨fuel, n, h⟩
    induction n generalizing e with
    | zero => exact absurd h not_ends_exhausted
    | succ n ih =>
      cases hnext : nextLine? e.progress with
      | none =>
        have hr : .ok 0 e = r := by simpa [Ends, proceed, hnext, Run.result?] using h
        exact ⟨[], e, none, .refl e, hr ▸ .behind hnext⟩
      | some line =>
        rcases (ends_proceed_succ hnext).mp h with ⟨code, e₁, hline, hr⟩ | ⟨fault, e₁, hline, rfl⟩
        · by_cases hcode : code = 0
          · subst hcode
            obtain ⟨lines, e₂, last, hruns, hstops⟩ := ih hr
            exact ⟨_ :: lines, e₂, last, .line hnext ⟨fuel, hline⟩ hruns, hstops⟩
          · rw [if_neg hcode] at hr
            subst hr
            exact ⟨[], e, _, .refl e, .failed hnext ⟨fuel, hline⟩ hcode⟩
        · exact ⟨[], e, _, .refl e, .broken hnext ⟨fuel, hline⟩⟩
  · rintro ⟨lines, e₁, last, hruns, hstops⟩
    induction hruns with
    | refl => exact proceeds_of_stops hstops
    | line hnext hline _ ih => exact proceeds_of_line hnext hline (ih hstops)

/-! ## Whole runs -/

/-- The engine when a run begins. -/
def entered (e : Engine σ) : Engine σ :=
  { e with
    busy := true
    progress :=
      { e.progress with
        trace := e.progress.trace.clear, index := none, command := "", args := [],
        failure := none, code := 0 } }

/-- What a run comes to once its lines have: a code is reported, a fault comes through. -/
def concluded : EStateM.Result Fault (Engine σ) Int → EStateM.Result Fault (Engine σ) Int
  | .ok code e => complete code (freed e)
  | .error fault e => .error fault (freed e)

/-- Only a run that has come to a code returns one. -/
theorem code_of_concluded {r : EStateM.Result Fault (Engine σ) Int} {code : Int} {e : Engine σ}
    (h : concluded r = .ok code e) : ∃ code₁ e₁, r = .ok code₁ e₁ := by
  cases r with
  | ok code₁ e₁ => exact ⟨code₁, e₁, rfl⟩
  | error => cases h

theorem enter_of_idle {e : Engine σ} (h : e.busy = false) : enter e = .ok () (entered e) := by
  simp [enter, entered, progressBy, h]

theorem enter_of_busy {e : Engine σ} (h : e.busy = true) : enter e = .error .alreadyRunning e := by
  simp [enter, h]

/-- **A run on an engine that is free** is the operation on the engine that it enters, and its
completion. -/
theorem during_iff {x : Process σ Int} {e : Engine σ} {r : EStateM.Result Fault (Engine σ) Int}
    (hidle : e.busy = false) :
    (during x).Ends e r ↔ ∃ r₁, x.Ends (entered e) r₁ ∧ concluded r₁ = r := by
  simp only [during, ends_bind, ends_ofAct, ends_releasing, enter_of_idle hidle]
  constructor
  · rintro (⟨_, e₀, he, hx⟩ | ⟨_, _, he, -⟩)
    · cases he
      rcases hx with ⟨code, e₁, ⟨a, e₂, hx, ha⟩ | ⟨_, _, _, ha⟩, hr⟩ |
        ⟨fault, e₁, ⟨_, _, _, ha⟩ | ⟨f, e₂, hx, ha⟩, hr⟩
      · cases ha
        exact ⟨_, hx, hr⟩
      · cases ha
      · cases ha
      · cases ha
        exact ⟨_, hx, hr⟩
    · cases he
  · rintro ⟨code | fault, hx, hr⟩
    · exact .inl ⟨_, _, rfl, .inl ⟨_, _, .inl ⟨_, _, hx, rfl⟩, hr⟩⟩
    · exact .inl ⟨_, _, rfl, .inr ⟨_, _, .inr ⟨_, _, hx, rfl⟩, hr⟩⟩

end CommandBatch.Engine
