import CommandBatch.Proofs.Standard.Refinement

/-!
# Splitting a batch

Where no line says where to go on, lines are run from the first to the last, up to one that fails.  What
they come to (`Language.yield`) is a fold: nothing but the variables is carried from one line to the next.
So what a batch comes to is what its beginning comes to, followed by what the rest comes to from there if
the beginning has not failed (`yield_append`), and only the indices of lines depend on where the rest
stands (`yield_shift`).

An engine with the standard commands does the same: in one batch (`runBatch_yields`), in two of them
(`runBatch_append`), or line by line as at a prompt.  Only behind its first line can a run break off, for
variables that a host has set and that a verbose engine cannot write (`runBatch_breaks`).
-/

namespace CommandBatch

open Text Engine Process

namespace Standard

variable {σ : Type}

/-- The failure of a line that stands further behind. -/
def shifted (offset : Nat) (f : Failure) : Failure := { f with line := f.line.map (· + offset) }

/-- The failure of a line that stands alone. -/
def alone (f : Failure) : Failure := { f with line := some 0 }

/-- What lines come to: the variables, the output and the failure that they stop with. -/
structure Yield where
  env : Environment
  output : List String := []
  failure : Option Failure := none

namespace Yield

/-- The code that lines end with. -/
def code (y : Yield) : Int := (y.failure.map Failure.code).getD 0

/-- What lines come to, and others behind them unless these have failed. -/
def andThen (y : Yield) (next : Environment → Yield) : Yield :=
  match y.failure with
  | some _ => y
  | none => { next y.env with output := y.output ++ (next y.env).output }

/-- What the lines come to if they stand elsewhere. -/
def mapFailure (g : Failure → Failure) (y : Yield) : Yield := { y with failure := y.failure.map g }

theorem andThen_of_none {y : Yield} (h : y.failure = none) (next : Environment → Yield) :
    y.andThen next = { next y.env with output := y.output ++ (next y.env).output } := by
  rw [andThen, h]

theorem andThen_of_some {y : Yield} {f : Failure} (h : y.failure = some f)
    (next : Environment → Yield) : y.andThen next = y := by
  rw [andThen, h]

theorem andThen_assoc (y : Yield) (next next' : Environment → Yield) :
    (y.andThen next).andThen next' = y.andThen fun env => (next env).andThen next' := by
  cases h : y.failure with
  | some f => rw [andThen_of_some h, andThen_of_some h, andThen_of_some h]
  | none =>
    rw [andThen_of_none h, andThen_of_none h]
    cases h₁ : (next y.env).failure with
    | some f => rw [andThen_of_some h₁, andThen_of_some (by exact h₁)]
    | none =>
      rw [andThen_of_none h₁, andThen_of_none (by exact h₁)]
      simp only [List.append_assoc]

theorem mapFailure_andThen (g : Failure → Failure) (y : Yield) (next : Environment → Yield) :
    (y.andThen next).mapFailure g = (y.mapFailure g).andThen fun env => (next env).mapFailure g := by
  have hmap : (y.mapFailure g).failure = y.failure.map g := rfl
  cases h : y.failure with
  | some f =>
    rw [h] at hmap
    rw [andThen_of_some h, andThen_of_some hmap]
  | none =>
    rw [h] at hmap
    rw [andThen_of_none h, andThen_of_none hmap]
    rfl

theorem code_mapFailure {g : Failure → Failure} (hg : ∀ f, (g f).code = f.code) (y : Yield) :
    (y.mapFailure g).code = y.code := by
  unfold code mapFailure
  cases y.failure with
  | none => rfl
  | some f => exact hg f

theorem code_of_none {y : Yield} (h : y.failure = none) : y.code = 0 := by
  rw [code, h]
  rfl

end Yield

/-- What the line of an index comes to. -/
def Language.yieldLine (l : Language) (index : Nat) (env : Environment) (text : String) : Yield :=
  match l.run env text with
  | .ok eff => { env := eff.env, output := eff.output }
  | .error reason => { env, failure := some ⟨reason, some index, some text⟩ }

/-- What lines come to that are run one after the other, the first of them with an index. -/
def Language.yield (l : Language) (index : Nat) (env : Environment) : List String → Yield
  | [] => { env }
  | text :: lines => (l.yieldLine index env text).andThen fun env => l.yield (index + 1) env lines

/-- The line does not say where the batch goes on. -/
def Language.Straight (l : Language) (text : String) : Prop :=
  l.command text ≠ "GOTO" ∧ l.command text ≠ "EXIT"

instance (l : Language) (text : String) : Decidable (l.Straight text) :=
  inferInstanceAs (Decidable (_ ∧ _))

/-! ## What lines come to -/

/-- **Lines in two parts**: the second part goes on from the variables of the first. -/
theorem yield_append (l : Language) (index : Nat) (env : Environment) (first second : List String) :
    l.yield index env (first ++ second) =
      (l.yield index env first).andThen fun env => l.yield (index + first.length) env second := by
  induction first generalizing index env with
  | nil => rfl
  | cons text first ih =>
    show (l.yieldLine index env text).andThen _ = ((l.yieldLine index env text).andThen _).andThen _
    rw [Yield.andThen_assoc]
    congr 1
    funext env₁
    rw [show index + (text :: first).length = index + 1 + first.length by rw [List.length_cons]; omega]
    exact ih (index + 1) env₁

/-- **Where the lines stand does not matter**, but for the index of one that fails. -/
theorem yield_shift (l : Language) (index offset : Nat) (env : Environment) (lines : List String) :
    l.yield (index + offset) env lines = (l.yield index env lines).mapFailure (shifted offset) := by
  induction lines generalizing index env with
  | nil => rfl
  | cons text lines ih =>
    have hline : l.yieldLine (index + offset) env text =
        (l.yieldLine index env text).mapFailure (shifted offset) := by
      unfold Language.yieldLine
      cases l.run env text <;> rfl
    show (l.yieldLine (index + offset) env text).andThen _ =
      ((l.yieldLine index env text).andThen _).mapFailure (shifted offset)
    rw [Yield.mapFailure_andThen, hline]
    congr 1
    funext env₁
    rw [Nat.add_right_comm]
    exact ih (index + 1) env₁

/-! ## What a line does to an engine -/

variable {e e₁ e₂ : Engine σ} {l : Language} {lines : List String} {index : Nat} {text : String}

theorem IsStandard.flow_of_run {env : Environment} {eff : Effect} (h : IsStandard e)
    (hstraight : (language e).Straight text) (hrun : (language e).run env text = .ok eff) :
    eff.flow = .next := by
  obtain ⟨line, hread, ⟨-, rfl⟩ | ⟨s, args, hfound, -, heffect⟩⟩ := Language.run_eq_ok hrun
  · rfl
  · have hcommand : (language e).command text = line.command := by rw [Language.command, hread]
    rw [Language.Straight, hcommand] at hstraight
    rw [show (language e).commands = e.services.commands.signatures from rfl,
      CommandRegistry.get?_signatures, Option.map_eq_some_iff] at hfound
    obtain ⟨command, hfind, rfl⟩ := hfound
    rw [(h.handles hread hfind).1] at heffect
    exact (effect_cases heffect).2 hstraight.1 hstraight.2

/-- What the machine fails a line for has a code. -/
theorem IsStandard.code_of_run {env : Environment} {reason : Reason} (h : IsStandard e)
    (hrun : (language e).run env text = .error reason) : reason.code ≠ 0 := by
  have hstandard : IsStandard { e with env, busy := true } :=
    ⟨h.types, h.commands, h.hooks, h.separators, h.limit⟩
  obtain ⟨code, e₁, -, hfollows, -⟩ := lineDoes hstandard rfl 0 text
  rw [show (language { e with env, busy := true }).run env text = _ from hrun] at hfollows
  cases hfollows with
  | failure _ _ hreason hcode => exact hreason ▸ hcode

theorem IsStandard.code_of_line {env : Environment} {f : Failure} (h : IsStandard e)
    (hfailure : ((language e).yieldLine index env text).failure = some f) :
    ((language e).yieldLine index env text).code ≠ 0 := by
  unfold Language.yieldLine at hfailure ⊢
  cases hrun : (language e).run env text with
  | ok eff =>
    rw [hrun] at hfailure
    cases hfailure
  | error reason => exact h.code_of_run hrun

/-- Lines that stop with a failure stop with a code. -/
theorem IsStandard.code_of_yield {env : Environment} {f : Failure} (h : IsStandard e)
    (hfailure : ((language e).yield index env lines).failure = some f) :
    ((language e).yield index env lines).code ≠ 0 := by
  induction lines generalizing index env with
  | nil => cases hfailure
  | cons text lines ih =>
    unfold Language.yield at hfailure ⊢
    cases hline : ((language e).yieldLine index env text).failure with
    | some f =>
      rw [Yield.andThen_of_some hline]
      exact h.code_of_line hline
    | none =>
      rw [Yield.andThen_of_none hline] at hfailure ⊢
      exact ih hfailure

/-- The engine has come to this: the same settings and services, the variables and the failure that lines
come to, and their output behind what was there. -/
structure Comes (e : Engine σ) (y : Yield) (e₁ : Engine σ) : Prop where
  setup : e₁.setup = e.setup
  services : e₁.services = e.services
  env : e₁.env = y.env
  outputs : e₁.outputs = e.outputs ++ y.output
  failure : e₁.progress.failure = y.failure

theorem Comes.andThen {y : Yield} {next : Environment → Yield} (h : Comes e y e₁)
    (hnone : y.failure = none) (h' : Comes e₁ (next e₁.env) e₂) : Comes e (y.andThen next) e₂ := by
  rw [Yield.andThen_of_none hnone, ← h.env]
  refine ⟨h'.setup.trans h.setup, h'.services.trans h.services, h'.env, ?_, h'.failure⟩
  rw [h'.outputs, h.outputs, List.append_assoc]

/-- What the machine says of a line is what the line comes to. -/
theorem Follows.comes {code : Int}
    (h : Follows index text (Engine.passing index e) (l.run e.env text) code e₁) (hsetup : e₁.setup = e.setup)
    (hfailure : e.progress.failure = none) :
    code = (l.yieldLine index e.env text).code ∧ Comes e (l.yieldLine index e.env text) e₁ := by
  have hservices : e₁.services = e.services := congrArg Prod.fst h.fixed_eq
  unfold Language.yieldLine
  generalize l.run e.env text = meaning at h
  cases h with
  | success _ henv _ houtputs hkept =>
    exact ⟨rfl, hsetup, hservices, henv, houtputs, hkept.trans hfailure⟩
  | failure _ henv hreason _ _ houtputs hnoted =>
    subst hreason
    exact ⟨rfl, hsetup, hservices, henv, houtputs.trans (List.append_nil _).symm, hnoted⟩

/-- A line that is no jump leaves the batch with its code and, unless it has failed, with the next line. -/
theorem Standing.straight (h : Standing l lines e) (hstraight : l.Straight text) (hrecords : Records e text)
    (hfailure : e.progress.failure = none) :
    ∃ e₁, LineEnds index text (Engine.passing index e) (.ok (l.yieldLine index e.env text).code e₁) ∧
      Standing l lines e₁ ∧ e₁.Recordable ∧ Comes e (l.yieldLine index e.env text) e₁ ∧
      ((l.yieldLine index e.env text).failure = none → e₁.progress.cursor = index + 1) := by
  obtain ⟨code, e₁, hends⟩ := h.line hrecords index
  obtain ⟨hstanding, hrecordable, hfollows, -⟩ := h.of_line hends
  have hsetup : e₁.setup = e.setup := congrArg Held.setup
    (held_of_line (e := Engine.passing index e) h.standard.hooks h.busy hends)
  obtain ⟨hcode, hcomes⟩ := hfollows.comes hsetup hfailure
  refine ⟨e₁, hcode ▸ hends, hstanding, hrecordable, hcomes, fun hnone => ?_⟩
  unfold Language.yieldLine at hnone
  generalize hrun : l.run e.env text = meaning at hfollows hnone
  cases hfollows with
  | success _ _ hcursor =>
    rw [← h.language] at hstraight hrun
    rw [hcursor, h.standard.flow_of_run hstraight hrun]
    rfl
  | failure => cases hnone

/-! ## What lines do to an engine -/

/-- The step of the first of these lines can be recorded. -/
def RecordsFirst (e : Engine σ) (lines : List String) : Prop := ∀ text ∈ lines.head?, Records e text

theorem Records.of_eq (h : Records e text) (hsetup : e₁.setup = e.setup) (hservices : e₁.services = e.services)
    (henv : e₁.env = e.env) : Records e₁ text := by
  unfold Records
  rw [language_eq hsetup hservices, hsetup, henv]
  exact h

theorem RecordsFirst.of_append {first second : List String} (h : RecordsFirst e (first ++ second)) :
    RecordsFirst e first := by
  cases first with
  | nil => exact nofun
  | cons => exact h

theorem IsStandard.recordsFirst (h : IsStandard e) (hrecordable : e.Recordable) (lines : List String) :
    RecordsFirst e lines :=
  fun text _ => h.records hrecordable text

/-- Behind some lines of its batch, an engine does with the others what they come to. -/
theorem Standing.proceeds (done : List String) {rest : List String} (h : Standing l (done ++ rest) e)
    (hstraight : ∀ text ∈ rest, l.Straight text) (hrecords : RecordsFirst e rest)
    (hcursor : e.progress.cursor = done.length) (hfailure : e.progress.failure = none) :
    ∃ e₁, Proceeds e (.ok (l.yield done.length e.env rest).code e₁) ∧ Standing l (done ++ rest) e₁ ∧
      (e.Recordable ∨ rest ≠ [] → e₁.Recordable) ∧ Comes e (l.yield done.length e.env rest) e₁ := by
  induction rest generalizing done e with
  | nil =>
    have hnext : nextLine? e.progress = none := by
      rw [nextLine?_eq_none_iff, hcursor, h.batch, List.append_nil]
      omega
    exact ⟨e, proceeds_of_stops (.behind hnext), h, fun hrecordable => hrecordable.resolve_right (absurd rfl),
      rfl, rfl, rfl, (List.append_nil _).symm, hfailure⟩
  | cons text rest ih =>
    obtain ⟨htext, hrest⟩ := List.forall_mem_cons.mp hstraight
    have hnext : nextLine? e.progress = some (done.length, text) :=
      nextLine?_eq_some_iff.mpr ⟨hcursor, by simp [h.batch]⟩
    obtain ⟨e₁, hends, hstanding, hrecordable, hcomes, hgoes⟩ :=
      h.straight htext (hrecords text rfl) hfailure
    show ∃ e₁, Proceeds e (.ok ((l.yieldLine done.length e.env text).andThen _).code e₁) ∧ _ ∧ _ ∧
      Comes e ((l.yieldLine done.length e.env text).andThen _) e₁
    cases hnone : (l.yieldLine done.length e.env text).failure with
    | some f =>
      have hcode : (l.yieldLine done.length e.env text).code ≠ 0 := by
        rw [← h.language] at hnone ⊢
        exact h.standard.code_of_line hnone
      rw [Yield.andThen_of_some hnone]
      exact ⟨e₁, proceeds_of_stops (.failed hnext hends hcode), hstanding, fun _ => hrecordable, hcomes⟩
    | none =>
      rw [Yield.code_of_none hnone] at hends
      obtain ⟨e₂, hproceeds, hstanding₂, hrecordable₂, hcomes₂⟩ := ih (done ++ [text]) (e := e₁)
        (by rwa [List.append_assoc]) hrest (hstanding.standard.recordsFirst hrecordable rest)
        (by simpa using hgoes hnone) (hcomes.failure.trans hnone)
      rw [List.append_assoc] at hstanding₂
      rw [List.length_append, List.length_singleton] at hproceeds hcomes₂
      refine ⟨e₂, proceeds_of_line hnext hends ?_, hstanding₂, fun _ => hrecordable₂ (.inl hrecordable),
        hcomes.andThen hnone hcomes₂⟩
      rw [Yield.andThen_of_none hnone, ← hcomes.env]
      exact hproceeds

/-- Whatever the host does when it is told a code, it does not break off, and leaves the variables, the
services, the output and the failure alone. -/
def Unobtrusive (setup : Setup σ) : Prop :=
  ∀ script, setup.onCompletion = some script → ∀ (code : Int) (e : Engine σ), ∃ answer e₁,
    play (script code) e = .ok answer e₁ ∧ e₁.env = e.env ∧ e₁.services = e.services ∧
      e₁.outputs = e.outputs ∧ e₁.progress.failure = e.progress.failure

/-- The end of a run is of no consequence to what it has come to. -/
theorem Standing.concluded (h : Standing l lines e₁) (hquiet : Unobtrusive e₁.setup) (code : Int) :
    ∃ e₂, Engine.concluded (.ok code e₁) = .ok code e₂ ∧ IsStandard e₂ ∧ e₂.busy = false ∧
      (e₁.Recordable → e₂.Recordable) ∧ ∀ e y, Comes e y e₁ → Comes e y e₂ := by
  have houtputs : (completed code (freed e₁)).outputs = e₁.outputs := outputs_completed code
  have hcall : ∃ e₂, callBack code (completed code (freed e₁)) = .ok code e₂ ∧ e₂.env = e₁.env ∧
      e₂.services = e₁.services ∧ e₂.outputs = e₁.outputs ∧
      e₂.progress.failure = e₁.progress.failure := by
    cases hscript : (completed code (freed e₁)).setup.onCompletion with
    | none => exact ⟨_, callBack_of_none hscript code, rfl, rfl, houtputs, rfl⟩
    | some script =>
      obtain ⟨answer, e₂, hplay, henv, hservices, hout, hfailure⟩ :=
        hquiet script hscript code (completed code (freed e₁))
      refine ⟨e₂, ?_, henv, hservices, hout.trans houtputs, hfailure⟩
      rw [callBack_of_some hscript, Act.bind_apply, Act.discard_apply, hplay]
      rfl
  obtain ⟨e₂, hcall, henv, hservices, hout, hfailure⟩ := hcall
  obtain ⟨-, hframe, -⟩ := callBack_eq_ok hcall
  have hsetup : e₂.setup = e₁.setup := congrArg (·.1.setup) hframe
  have htrace : e₂.progress.trace = e₁.progress.trace := congrArg (·.2.trace) hframe
  refine ⟨e₂, (complete_of_unhooked (e := freed e₁) h.standard.hooks code).trans hcall,
    h.standard.of_eq hsetup hservices (congrArg Trace.limit htrace), congrArg (·.1.busy) hframe,
    fun hrecordable => by unfold Engine.Recordable; rwa [hsetup, henv],
    fun e y hcomes => ⟨hsetup.trans hcomes.setup, hservices.trans hcomes.services,
      henv.trans hcomes.env, hout.trans hcomes.outputs, hfailure.trans hcomes.failure⟩⟩

/-- Nothing has come of a run that has just begun. -/
theorem Comes.of_opened {y : Yield} (h : Comes (opened lines (entered e)) y e₁) : Comes e y e₁ :=
  ⟨h.setup, h.services, h.env,
    h.outputs.trans (congrArg (· ++ y.output) (outputs_announcing (e := { entered e with progress := _ }) _)),
    h.failure⟩

/-! ## Runs -/

/-- **A batch without jumps comes to what its lines come to.** -/
theorem runBatch_yields (hstandard : IsStandard e) (hidle : e.busy = false)
    (hquiet : Unobtrusive e.setup) (lines : List String)
    (hstraight : ∀ text ∈ lines, (language e).Straight text) (hrecords : RecordsFirst e lines) :
    ∃ e₁, Carries (.runBatch lines) e (.ok ((language e).yield 0 e.env lines).code e₁) ∧
      IsStandard e₁ ∧ e₁.busy = false ∧ (e.Recordable ∨ lines ≠ [] → e₁.Recordable) ∧
      Comes e ((language e).yield 0 e.env lines) e₁ := by
  have hrecordsOpened : RecordsFirst (opened lines (entered e)) lines := hrecords
  obtain ⟨e₁, hproceeds, hstanding, hrecordable, hcomes⟩ :=
    (hstandard.standing lines).proceeds [] hstraight hrecordsOpened rfl rfl
  have hcomes := hcomes.of_opened
  obtain ⟨e₂, hconcluded, hstandard₂, hidle₂, hrecordable₂, hcomes₂⟩ :=
    hstanding.concluded (by rwa [hcomes.setup]) _
  exact ⟨e₂, (runBatch_iff hstandard.hooks hidle).mpr ⟨_, hproceeds, hconcluded⟩, hstandard₂, hidle₂,
    fun h => hrecordable₂ (hrecordable h), hcomes₂ _ _ hcomes⟩

/-- A line that is no jump comes to the same if it is run by itself. -/
theorem runLine_yields (hstandard : IsStandard e) (hidle : e.busy = false)
    (hquiet : Unobtrusive e.setup) (hstraight : (language e).Straight text) (hrecords : Records e text) :
    ∃ e₁, Carries (.runLine text) e (.ok ((language e).yieldLine 0 e.env text).code e₁) ∧
      IsStandard e₁ ∧ e₁.busy = false ∧ e₁.Recordable ∧
      Comes e ((language e).yieldLine 0 e.env text) e₁ := by
  have hrecordsOpened : Records (opened [text] (entered e)) text := hrecords
  obtain ⟨e₁, hends, hstanding, hrecordable, hcomes, -⟩ :=
    (hstandard.standing [text]).straight hstraight hrecordsOpened rfl
  have hcomes := hcomes.of_opened
  obtain ⟨e₂, hconcluded, hstandard₂, hidle₂, hrecordable₂, hcomes₂⟩ :=
    hstanding.concluded (by rwa [hcomes.setup]) _
  exact ⟨e₂, hconcluded ▸ carries_runLine hstandard.hooks hidle hends, hstandard₂, hidle₂,
    hrecordable₂ hrecordable, hcomes₂ _ _ hcomes⟩

theorem yield_singleton (l : Language) (index : Nat) (env : Environment) (text : String) :
    l.yield index env [text] = l.yieldLine index env text := by
  simp only [Language.yield]
  cases hfailure : (l.yieldLine index env text).failure with
  | some f => rw [Yield.andThen_of_some hfailure]
  | none => rw [Yield.andThen_of_none hfailure, List.append_nil, ← hfailure]

/-- **A batch whose first line cannot be recorded breaks off there**, and has come to what this line comes to. -/
theorem runBatch_breaks (hstandard : IsStandard e) (hidle : e.busy = false)
    (hrecords : ¬RecordsFirst e lines) :
    ∃ e₁, Carries (.runBatch lines) e (.error (.ofConversion .unwritable) e₁) ∧
      Comes e ((language e).yield 0 e.env (lines.take 1)) e₁ := by
  cases lines with
  | nil => exact absurd nofun hrecords
  | cons text rest =>
    have hfirst : ¬Records (opened (text :: rest) (entered e)) text :=
      fun h => hrecords fun _ hhead => Option.some.inj hhead ▸ h
    have hnext : nextLine? (opened (text :: rest) (entered e)).progress = some (0, text) := rfl
    obtain ⟨code, e₁, hends, hfollows, hsetup, -⟩ :=
      (hstandard.standing (text :: rest)).unrecorded hfirst 0
    obtain ⟨-, hcomes⟩ := hfollows.comes hsetup rfl
    have hcomes := hcomes.of_opened
    have hcarries := ((batch_of_breaks hidle hstandard.hooks (.refl _) (.broken hnext hends)).2.2 _).mpr rfl
    refine ⟨freed e₁, hcarries, ?_⟩
    rw [List.take_succ_cons, List.take_zero, yield_singleton]
    exact ⟨hcomes.setup, hcomes.services, hcomes.env, hcomes.outputs, hcomes.failure⟩

/-- Lines are run by themselves, one after the other, up to the first that fails. -/
inductive Fed : Engine σ → List String → Int → Engine σ → Prop
  | nil (e : Engine σ) : Fed e [] 0 e
  | stop {e e₁ : Engine σ} {text : String} {lines : List String} {code : Int}
      (hline : Carries (.runLine text) e (.ok code e₁)) (hcode : code ≠ 0) :
      Fed e (text :: lines) code e₁
  | next {e e₁ e₂ : Engine σ} {text : String} {lines : List String} {code : Int}
      (hline : Carries (.runLine text) e (.ok 0 e₁)) (hrest : Fed e₁ lines code e₂) :
      Fed e (text :: lines) code e₂

theorem fed_yields (hstandard : IsStandard e) (hidle : e.busy = false) (hquiet : Unobtrusive e.setup)
    (hstraight : ∀ text ∈ lines, (language e).Straight text) (hrecords : RecordsFirst e lines)
    (hfailure : lines = [] → e.progress.failure = none) :
    ∃ e₁, Fed e lines ((language e).yield 0 e.env lines).code e₁ ∧
      Comes e (((language e).yield 0 e.env lines).mapFailure alone) e₁ := by
  induction lines generalizing e with
  | nil => exact ⟨e, .nil e, rfl, rfl, rfl, (List.append_nil _).symm, hfailure rfl⟩
  | cons text lines ih =>
    obtain ⟨htext, hrest⟩ := List.forall_mem_cons.mp hstraight
    obtain ⟨e₁, hcarries, hstandard₁, hidle₁, hrecordable₁, hcomes⟩ :=
      runLine_yields hstandard hidle hquiet htext (hrecords text rfl)
    have halone : ((language e).yieldLine 0 e.env text).mapFailure alone =
        (language e).yieldLine 0 e.env text := by
      unfold Language.yieldLine
      cases (language e).run e.env text <;> rfl
    have hlanguage := language_eq hcomes.setup hcomes.services
    show ∃ e₁, Fed e (text :: lines) (((language e).yieldLine 0 e.env text).andThen _).code e₁ ∧
      Comes e ((((language e).yieldLine 0 e.env text).andThen _).mapFailure alone) e₁
    rw [Yield.mapFailure_andThen, halone]
    cases hnone : ((language e).yieldLine 0 e.env text).failure with
    | some f =>
      rw [Yield.andThen_of_some hnone, Yield.andThen_of_some hnone]
      exact ⟨e₁, .stop hcarries (hstandard.code_of_line hnone), hcomes⟩
    | none =>
      rw [Yield.code_of_none hnone] at hcarries
      obtain ⟨e₂, hfed, hcomes₂⟩ := ih hstandard₁ hidle₁ (by rwa [hcomes.setup])
        (by rwa [hlanguage]) (hstandard₁.recordsFirst hrecordable₁ lines) fun _ => hcomes.failure.trans hnone
      rw [hlanguage] at hfed hcomes₂
      -- The rest stands one line further behind in the batch, which only its failure shows.
      have hrest (env : Environment) : ((language e).yield (0 + 1) env lines).mapFailure alone =
          ((language e).yield 0 env lines).mapFailure alone := by
        rw [yield_shift]
        unfold Yield.mapFailure
        cases ((language e).yield 0 env lines).failure <;> rfl
      refine ⟨e₂, .next hcarries ?_, hcomes.andThen hnone ?_⟩
      · have hcode : ((language e).yield (0 + 1) e₁.env lines).code =
            ((language e).yield 0 e₁.env lines).code := by
          rw [yield_shift]
          exact Yield.code_mapFailure (g := shifted 1) (fun _ => rfl) _
        rw [Yield.andThen_of_none hnone, ← hcomes.env]
        show Fed e₁ lines ((language e).yield (0 + 1) e₁.env lines).code e₂
        rw [hcode]
        exact hfed
      · rw [hrest]
        exact hcomes₂

/-- Where steps can be recorded, two batches come to what the batch of all their lines comes to. -/
theorem runBatch_append_of_records (hstandard : IsStandard e) (hidle : e.busy = false)
    (hquiet : Unobtrusive e.setup) (first second : List String)
    (hstraight : ∀ text ∈ first ++ second, (language e).Straight text)
    (hrecords : RecordsFirst e (first ++ second)) :
    ∃ code e₁ code' e₁', Carries (.runBatch (first ++ second)) e (.ok code e₁) ∧
      Carries (.runBatch first) e (.ok code' e₁') ∧
      (code' ≠ 0 → code = code' ∧ e₁.env = e₁'.env ∧ e₁.outputs = e₁'.outputs ∧
        e₁.progress.failure = e₁'.progress.failure) ∧
      (code' = 0 → ∃ e₂, Carries (.runBatch second) e₁' (.ok code e₂) ∧ e₁.env = e₂.env ∧
        e₁.outputs = e₂.outputs ∧
        e₁.progress.failure = e₂.progress.failure.map (shifted first.length)) ∧
      (first ++ second ≠ [] → ∃ e₂, Fed e (first ++ second) code e₂ ∧ e₂.env = e₁.env ∧
        e₂.outputs = e₁.outputs ∧ e₂.progress.failure = e₁.progress.failure.map alone) := by
  obtain ⟨e₁, hcarries, -, -, -, hcomes⟩ := runBatch_yields hstandard hidle hquiet _ hstraight hrecords
  obtain ⟨hfirst, hsecond⟩ := List.forall_mem_append.mp hstraight
  obtain ⟨e₁', hcarries', hstandard', hidle', hrecordable', hcomes'⟩ :=
    runBatch_yields hstandard hidle hquiet first hfirst hrecords.of_append
  have hrecords' : RecordsFirst e₁' second := by
    cases first with
    | nil => exact fun text hhead => (hrecords text hhead).of_eq hcomes'.setup hcomes'.services hcomes'.env
    | cons => exact hstandard'.recordsFirst (hrecordable' (.inr (List.cons_ne_nil _ _))) second
  have happend := yield_append (language e) 0 e.env first second
  have hlanguage := language_eq hcomes'.setup hcomes'.services
  refine ⟨_, e₁, _, e₁', hcarries, hcarries', fun hcode => ?_, fun hcode => ?_, fun hlines => ?_⟩
  · cases hfailure : ((language e).yield 0 e.env first).failure with
    | none => exact absurd (Yield.code_of_none hfailure) hcode
    | some f =>
      rw [Yield.andThen_of_some hfailure] at happend
      rw [happend] at hcomes ⊢
      exact ⟨rfl, hcomes.env.trans hcomes'.env.symm, hcomes.outputs.trans hcomes'.outputs.symm,
        hcomes.failure.trans hcomes'.failure.symm⟩
  · cases hfailure : ((language e).yield 0 e.env first).failure with
    | some f => exact absurd hcode (hstandard.code_of_yield hfailure)
    | none =>
      obtain ⟨e₂, hcarries₂, -, -, -, hcomes₂⟩ := runBatch_yields hstandard' hidle'
        (by rwa [hcomes'.setup]) second (by rwa [hlanguage]) hrecords'
      rw [hlanguage, hcomes'.env] at hcarries₂ hcomes₂
      rw [Yield.andThen_of_none hfailure, yield_shift] at happend
      rw [happend] at hcomes ⊢
      refine ⟨e₂, ?_, hcomes.env.trans hcomes₂.env.symm, ?_, ?_⟩
      · rw [← Yield.code_mapFailure (g := shifted first.length) (fun _ => rfl)] at hcarries₂
        exact hcarries₂
      · rw [hcomes.outputs, hcomes₂.outputs, hcomes'.outputs, List.append_assoc]
        rfl
      · rw [hcomes.failure, hcomes₂.failure]
        rfl
  · obtain ⟨e₂, hfed, hcomes₂⟩ := fed_yields hstandard hidle hquiet hstraight hrecords fun h => absurd h hlines
    refine ⟨e₂, hfed, hcomes₂.env.trans hcomes.env.symm, hcomes₂.outputs.trans hcomes.outputs.symm, ?_⟩
    rw [hcomes₂.failure, hcomes.failure]
    rfl

/-- Where the first step cannot be recorded, the batch that it is in breaks off as the batch of all lines does. -/
theorem runBatch_append_of_not_records (hstandard : IsStandard e) (hidle : e.busy = false)
    (hquiet : Unobtrusive e.setup) (first second : List String)
    (hrecords : ¬RecordsFirst e (first ++ second)) :
    ∃ e₁ e₂, Carries (.runBatch (first ++ second)) e (.error (.ofConversion .unwritable) e₁) ∧
      (Carries (.runBatch first) e (.error (.ofConversion .unwritable) e₂) ∨
        ∃ e₁', Carries (.runBatch first) e (.ok 0 e₁') ∧
          Carries (.runBatch second) e₁' (.error (.ofConversion .unwritable) e₂)) ∧
      e₁.env = e₂.env ∧ e₁.outputs = e₂.outputs ∧ e₁.progress.failure = e₂.progress.failure := by
  obtain ⟨e₁, hcarries, hcomes⟩ := runBatch_breaks hstandard hidle hrecords
  cases first with
  | cons text rest =>
    have hfirst : ¬RecordsFirst e (text :: rest) := hrecords
    obtain ⟨e₂, hcarries₂, hcomes₂⟩ := runBatch_breaks hstandard hidle hfirst
    exact ⟨e₁, e₂, hcarries, .inl hcarries₂, hcomes.env.trans hcomes₂.env.symm,
      hcomes.outputs.trans hcomes₂.outputs.symm, hcomes.failure.trans hcomes₂.failure.symm⟩
  | nil =>
    obtain ⟨e₁', hcarries', hstandard', hidle', -, hcomes'⟩ :=
      runBatch_yields hstandard hidle hquiet [] nofun nofun
    have hsecond : ¬RecordsFirst e₁' second := fun h => hrecords fun text hhead =>
      (h text hhead).of_eq hcomes'.setup.symm hcomes'.services.symm hcomes'.env.symm
    obtain ⟨e₂, hcarries₂, hcomes₂⟩ := runBatch_breaks hstandard' hidle' hsecond
    rw [language_eq hcomes'.setup hcomes'.services, show e₁'.env = e.env from hcomes'.env] at hcomes₂
    have houtputs : e₁'.outputs = e.outputs := hcomes'.outputs.trans (List.append_nil _)
    refine ⟨e₁, e₂, hcarries, .inr ⟨e₁', hcarries', hcarries₂⟩, hcomes.env.trans hcomes₂.env.symm, ?_,
      hcomes.failure.trans hcomes₂.failure.symm⟩
    rw [hcomes.outputs, hcomes₂.outputs, houtputs]
    rfl

/-- **Splitting a batch keeps its meaning.**  The lines of two batches are no jumps, and the host does
nothing of consequence when it is told a code.  The first batch ends, and so does the batch of all lines.
If the first fails, the batch of all lines has come to the same: code, variables, output and failure.  If it
returns 0, the second batch ends behind it with what the batch of all lines has come to, but that the line
that fails stands behind the first batch there.  The same comes of all lines if they are run by themselves,
one after the other, up to the first that fails, which is then a batch of its own.

Where a verbose engine cannot write the variables behind the very first line, which a host must have set then,
the batch of all lines breaks off there, and so does the one that this line is in. -/
theorem runBatch_append (hstandard : IsStandard e) (hidle : e.busy = false)
    (hquiet : Unobtrusive e.setup) (first second : List String)
    (hstraight : ∀ text ∈ first ++ second, (language e).Straight text) :
    (RecordsFirst e (first ++ second) →
      ∃ code e₁ code' e₁', Carries (.runBatch (first ++ second)) e (.ok code e₁) ∧
        Carries (.runBatch first) e (.ok code' e₁') ∧
        (code' ≠ 0 → code = code' ∧ e₁.env = e₁'.env ∧ e₁.outputs = e₁'.outputs ∧
          e₁.progress.failure = e₁'.progress.failure) ∧
        (code' = 0 → ∃ e₂, Carries (.runBatch second) e₁' (.ok code e₂) ∧ e₁.env = e₂.env ∧
          e₁.outputs = e₂.outputs ∧
          e₁.progress.failure = e₂.progress.failure.map (shifted first.length)) ∧
        (first ++ second ≠ [] → ∃ e₂, Fed e (first ++ second) code e₂ ∧ e₂.env = e₁.env ∧
          e₂.outputs = e₁.outputs ∧ e₂.progress.failure = e₁.progress.failure.map alone)) ∧
    (¬RecordsFirst e (first ++ second) →
      ∃ e₁ e₂, Carries (.runBatch (first ++ second)) e (.error (.ofConversion .unwritable) e₁) ∧
        (Carries (.runBatch first) e (.error (.ofConversion .unwritable) e₂) ∨
          ∃ e₁', Carries (.runBatch first) e (.ok 0 e₁') ∧
            Carries (.runBatch second) e₁' (.error (.ofConversion .unwritable) e₂)) ∧
        e₁.env = e₂.env ∧ e₁.outputs = e₂.outputs ∧ e₁.progress.failure = e₂.progress.failure) := by
  refine ⟨fun hrecords => runBatch_append_of_records hstandard hidle hquiet first second hstraight hrecords,
    fun hrecords => runBatch_append_of_not_records hstandard hidle hquiet first second hrecords⟩

/-- A host without a function for the end of runs does nothing then. -/
theorem unobtrusive_of_none {setup : Setup σ} (h : setup.onCompletion = none) : Unobtrusive setup :=
  fun _ hscript => absurd (h.symm.trans hscript) nofun

theorem runBatch_append_undefined :
    ∃ e₁ e₁' e₂, Carries (.runBatch ["SET $x 1", "PRINT $x", "PRINT $y"]) plain (.ok 10 e₁) ∧
      Carries (.runBatch ["SET $x 1"]) plain (.ok 0 e₁') ∧
      Carries (.runBatch ["PRINT $x", "PRINT $y"]) e₁' (.ok 10 e₂) ∧ e₁.outputs = ["1"] ∧
      e₁.progress.failure = e₂.progress.failure.map (shifted 1) := by
  obtain ⟨r, hcarries, hreturns⟩ := carries_of_any (e := plain)
    (t := .runBatch ["SET $x 1", "PRINT $x", "PRINT $y"]) 5 (returns 10 fun e => e.outputs == ["1"])
    (by decide +kernel)
  obtain ⟨e₁, rfl, htest⟩ := of_returns hreturns
  obtain ⟨r', hcarries', hreturns'⟩ := carries_of_any (e := plain) (t := .runBatch ["SET $x 1"]) 3
    (returns 0 fun _ => true) (by decide +kernel)
  obtain ⟨e₁', rfl, -⟩ := of_returns hreturns'
  obtain ⟨code, e₂, code', e₂', hwhole, hfirst, -, hgoes, -⟩ :=
    (runBatch_append (isStandard_install {} () rfl) rfl (unobtrusive_of_none rfl) ["SET $x 1"]
      ["PRINT $x", "PRINT $y"] (by decide +kernel)).1 fun _ _ => nofun
  cases hwhole.unique hcarries
  cases hfirst.unique hcarries'
  obtain ⟨e₃, hsecond, -, -, hfailure⟩ := hgoes rfl
  exact ⟨e₁, e₁', e₃, hcarries, hcarries', hsecond, eq_of_beq htest, hfailure⟩

end Standard

end CommandBatch
