import CommandBatch.Proofs.CommandLine.Program
import CommandBatch.Proofs.Extension.Loading
import CommandBatch.Proofs.Run.Containment

/-!
# How sessions end

A session that is begun with words that are understood ends with a status, as a rule.  It catches the errors of
extensions while it loads them and while it runs a program, and an obstacle in the way to the program's file.
What else breaks off breaks the session (`Unreported`): something that loading does not look for, a program file
whose bytes are no text or whose path cannot be one, a run that breaks off with an error of another kind, and a
report that is cut short.  At the prompt not even the errors of extensions are caught.

Without extensions only the program's file is left: nothing else can go wrong in loading, and a standard engine
has neither hooks nor types of others that could break off a run, nor numbers that a report could not tell of.
-/

namespace CommandBatch.CommandLine

open Engine Extension Files Standard Text

variable {σ : Type} {w : Installation σ} {host : σ} {words lines : List String} {o : Options} {f : Fault}
  {e e₁ : Engine σ} {t : Task}

/-! ## Runs -/

/-- Why a run breaks off with a fault whose host is not told of its end, on the engine that it leaves behind. -/
inductive Breakdown (e : Engine σ) (f : Fault) (e₁ : Engine σ) : Prop
  /-- A hook or a step rule breaks off. -/
  | hook {e₂ : Engine σ} (hraises : HookRaises e.services.hooks f e₂)
  /-- A type breaks off inside an argument, with something else than a failure. -/
  | type {type : TokenType} (hmem : type ∈ e₁.services.types.types) (hraises : type.lexis.Raises f)
      (hother : ∀ x, f ≠ .failure x)
  /-- A number has more digits than can be written: in the answer of a handler, in the datum of a reference, or in
  the variables of a verbose engine. -/
  | unwritten {e₂ : Engine σ} (hunwritten : Unwritten e₂) (hleft : e₁ = Process.freed e₂)
      (hfault : f = .ofConversion .unwritable)
  /-- The run is called off. -/
  | cancelled (hcancelled : f = .cancelled)

/-- A run can be started on the engine, and its host is not told of the end. -/
structure Ready (e : Engine σ) : Prop where
  idle : e.busy = false
  separators : e.setup.marks.separators ≠ []
  untold : e.setup.onCompletion = none

/-! ## What is not reported -/

/-- The engines that a session starts runs on: the one that it makes, and what a line at the prompt leaves. -/
inductive Serves (w : Installation σ) (host : σ) (o : Options) : Engine σ → Prop
  | made {e : Engine σ} (hmake : makeEngine w host o = .ok e) : Serves w host o e
  | left {e e₁ : Engine σ} {line : String} {code : Int} (hserves : Serves w host o e)
      (hcarries : Carries (.runLine line) e (.ok code e₁)) : Serves w host o e₁

/-- The program's file cannot be read, for something else than an obstacle in the way to it. -/
inductive Unreadable (w : Installation σ) (o : Options) : Fault → Prop
  /-- Its bytes are no text. -/
  | bytes {path : String} {file : SourceFile σ} {e : DecodeError} (hprogram : o.program = some path)
      (hfile : o.source = false) (hread : w.read path = .ok file) (hdecode : decodeUtf8 file.bytes = .error e) :
      Unreadable w o (.outside (.undecodable e))
  /-- Its path holds the null character. -/
  | path {path : String} (hprogram : o.program = some path) (hfile : o.source = false)
      (hread : w.read path = .error .nullCharacter) : Unreadable w o (.outside (.access .nullCharacter))

/-- The faults that a session does not report. -/
inductive Unreported (w : Installation σ) (host : σ) (o : Options) (f : Fault) : Prop
  /-- Loading does not look for it. -/
  | loading (hslips : Slips w o.extensions f)
  /-- It is not what is looked for in the way to the program. -/
  | program (hunreadable : Unreadable w o f)
  /-- The run of a program breaks off with it, and it is no error of an extension. -/
  | batch {e e₁ : Engine σ} {lines : List String} (hprogram : o.program ≠ none) (hmake : makeEngine w host o = .ok e)
      (hcarries : Carries (.runBatch lines) e (.error f e₁)) (hbreakdown : Breakdown e f e₁)
      (hother : ∀ x, f ≠ .extension x)
  /-- The report on a program that has failed is cut short by it. -/
  | report {e e₁ : Engine σ} {lines : List String} {code : Int} {error : ConversionError}
      (hprogram : o.program ≠ none) (hmake : makeEngine w host o = .ok e)
      (hcarries : Carries (.runBatch lines) e (.ok code e₁)) (hcut : CutShort e₁ o.structured error)
      (hfault : f = .ofConversion error)
  /-- The run of a line at the prompt breaks off with it. -/
  | line {e e₁ : Engine σ} {line : String} (hprompt : o.program = none) (hserves : Serves w host o e)
      (hcarries : Carries (.runLine line) e (.error f e₁)) (hbreakdown : Breakdown e f e₁)
  /-- The report on a line at the prompt that has failed is cut short by it. -/
  | lineReport {e e₁ : Engine σ} {line : String} {code : Int} {error : ConversionError}
      (hprompt : o.program = none) (hserves : Serves w host o e)
      (hcarries : Carries (.runLine line) e (.ok code e₁)) (hcut : CutShort e₁ false error)
      (hfault : f = .ofConversion error)

/-- The ways in which a session may end whose runs are given `fuel`. -/
inductive Accounted (w : Installation σ) (host : σ) (o : Options) (fuel : Nat) : Ending → Prop
  | status (code : Int) : Accounted w host o fuel (.status code)
  /-- A run does not end within what it is given. -/
  | exhausted {e : Engine σ} {t : Task} (hserves : Serves w host o e) (hrun : t ≠ .execute)
      (hresult : (carryOut fuel t e).result? = none) : Accounted w host o fuel .exhausted
  | broken {f : Fault} (h : Unreported w host o f) : Accounted w host o fuel (.broken f)

/-! ## The parts of a session -/

theorem makeEngine_error (h : makeEngine w host o = .error f) :
    (∃ x, f = .extension x) ∨ Slips w o.extensions f := by
  rcases bind_eq_error_iff.mp h with hload | ⟨⟨services, host₁⟩, -, hnew⟩
  · exact Installation.load_error hload
  · rcases bind_eq_error_iff.mp hnew with hnew | ⟨e, -, hpure⟩
    · cases hnew
    · cases hpure

theorem ready_of_makeEngine (h : makeEngine w host o = .ok e) : Ready e := by
  obtain ⟨⟨services, host₁⟩, -, hnew⟩ := bind_eq_ok_iff.mp h
  obtain ⟨e₀, hnew, hpure⟩ := bind_eq_ok_iff.mp hnew
  cases hnew
  cases hpure
  exact ⟨rfl, by simp [install], rfl⟩

/-- The program's text is read, or the session is over: it complains of an obstacle or breaks off. -/
theorem readProgram_cases {path : String} (hprogram : o.program = some path) (hfile : o.source = false) :
    (∃ text, readProgram w path = .ok text) ∨
      (∃ obstacle place, readProgram w path =
        .error (refused s!"Failed to read {path}: {(AccessError.blocked obstacle place).message}\n")) ∨
      ∃ f, Unreadable w o f ∧ readProgram w path = .error { ending := .broken f } := by
  unfold readProgram
  cases htext : w.readText path with
  | ok text => exact .inl ⟨text, rfl⟩
  | error f =>
    rcases Installation.readText_error htext with ⟨e, hread, rfl⟩ | ⟨file, e, hread, hdecode, rfl⟩
    · cases e with
      | blocked obstacle place => exact .inr (.inl ⟨obstacle, place, rfl⟩)
      | nullCharacter => exact .inr (.inr ⟨_, .path hprogram hfile hread, rfl⟩)
    · exact .inr (.inr ⟨_, .bytes hprogram hfile hread hdecode, rfl⟩)

/-- A line at the prompt that has come to a code leads to the next one, unless the report on it is cut short. -/
theorem concludeLine_cases (length : Nat) (c : Console) (code : Int) (e : Engine σ) :
    (∃ c₁, concludeLine length c (some (.ok code e)) = .next e c₁) ∨
      ∃ error s, CutShort e false error ∧ s.ending = .broken (.ofConversion error) ∧
        concludeLine length c (some (.ok code e)) = .over s := by
  unfold concludeLine
  by_cases hcode : code = 0
  · exact .inl ⟨_, by simp only [if_pos hcode]; rfl⟩
  · simp only [if_neg hcode]
    rcases report_cases e code e.setup.verbose false with ⟨text, hreport⟩ | ⟨text, error, hcut, hreport⟩ <;>
      rw [hreport]
    · exact .inl ⟨_, rfl⟩
    · exact .inr ⟨error, _, hcut, rfl, rfl⟩

/-- What a session is, once its engine is made: a complaint, the prompt, the run of a program, or broken before
it has begun. -/
theorem session_cases (hwords : parse words = .ok (.run o)) (hmake : makeEngine w host o = .ok e) (fuel : Nat)
    (input : String) :
    (∃ text, run fuel w host words input = refused text) ∨
      (o.program = none ∧ ∃ c, run fuel w host words input = converse fuel e c (inputLines input)) ∨
        (o.program ≠ none ∧ ∃ lines, run fuel w host words input =
          concludeProgram o 0 (carryOut fuel (.runBatch lines) e).result?) ∨
          ∃ f, Unreadable w o f ∧ run fuel w host words input = { ending := .broken f } := by
  unfold run start
  simp only [hwords, hmake]
  cases hprogram : o.program with
  | none =>
    cases hsource : o.source with
    | true => exact .inl ⟨_, rfl⟩
    | false => exact .inr (.inl ⟨rfl, _, rfl⟩)
  | some path =>
    cases hsource : o.source with
    | true => exact .inr (.inr (.inl ⟨nofun, _, rfl⟩))
    | false =>
      rcases readProgram_cases (w := w) hprogram hsource with ⟨text, htext⟩ | ⟨obstacle, place, htext⟩ |
        ⟨f, hunreadable, htext⟩ <;> simp only [htext]
      · exact .inr (.inr (.inl ⟨nofun, _, rfl⟩))
      · exact .inl ⟨_, rfl⟩
      · exact .inr (.inr (.inr ⟨f, hunreadable, rfl⟩))

/-! ## Without extensions -/

/-- A program whose file cannot be read is not begun. -/
theorem run_of_unreadable (hwords : parse words = .ok (.run o)) (hmake : makeEngine w host o = .ok e)
    (h : Unreadable w o f) (fuel : Nat) (input : String) :
    run fuel w host words input = { ending := .broken f } := by
  cases h with
  | bytes hprogram hfile hread hdecode =>
    simp [run, start, hwords, hmake, hprogram, hfile, readProgram, Installation.readText, hread, hdecode,
      Except.mapError]
  | path hprogram hfile hread =>
    simp [run, start, hwords, hmake, hprogram, hfile, readProgram, Installation.readText, hread]

/-- A line that is run by itself on a standard engine comes to a code, and leaves the engine standard and all that
a report would tell of such that it can be written, as long as the variables could. -/
theorem carries_runLine_standard (hstandard : IsStandard e) (hready : Ready e) (henv : e.env.isWritable = true)
    (line : String) :
    ∃ code e₁, Carries (.runLine line) e (.ok code e₁) ∧ IsStandard e₁ ∧ Reportable e₁ := by
  have hopened := hstandard.standing [line]
  obtain ⟨code, e₁, hends⟩ := hopened.line (hopened.standard.records (fun _ => henv) line) 0
  obtain ⟨hstanding, -⟩ := hopened.of_line hends
  have hreportable := hopened.reportable_of_line (reportable_opened henv [line]) hends
  have hheld := held_of_line (e := passing 0 (opened [line] (entered e))) hstandard.hooks rfl hends
  have hcarries := carries_runLine hstandard.hooks hready.idle hends
  have hcompleted : concluded (.ok code e₁) = .ok code (completed code (Process.freed e₁)) := by
    rw [concluded, complete_of_unhooked (e := Process.freed e₁) hstanding.standard.hooks]
    refine callBack_of_none ?_ code
    have hsetup : e₁.setup = e.setup := congrArg Held.setup hheld
    rw [← hready.untold, ← hsetup]
    rfl
  rw [hcompleted] at hcarries
  exact ⟨code, _, hcarries, .of_eq (e := e₁) rfl rfl hstanding.standard rfl,
    hreportable.env, hreportable.failure, hreportable.trace⟩

/-! ## Whole sessions -/

end CommandBatch.CommandLine
