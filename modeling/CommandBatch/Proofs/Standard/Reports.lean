import CommandBatch.Proofs.Decimal.Binary
import CommandBatch.Proofs.Standard.Refinement
import CommandBatch.Report.Traceback

/-!
# Reports on standard commands

A report tells of the code of a failure and of those of the steps around it, and of the column that a host has
given the failure.  A host may choose numbers that cannot be written.  Standard commands fail with codes of the
interpreter, and with the code that `EXIT` is given, which can be written as long as the variables can
(`isReportable_of_run`).  So behind every line that is run on variables that can be written, a report has nothing
to tell of that cannot be (`Standing.reportable_of_line`), and the variables can be written as before.
-/

namespace CommandBatch

open Text

/-- The code of the reason can be written, and no host has given it a column. -/
def Reason.IsReportable (r : Reason) : Prop :=
  Decimal.isWritable r.code = true ∧ Report.givenColumn r = none

/-- Every code of the interpreter can be written. -/
theorem Reason.IsReportable.of_code {r : Reason} (c : ErrorCode) (hcode : r.code = c.toInt)
    (hcolumn : Report.givenColumn r = none) : r.IsReportable := by
  refine ⟨?_, hcolumn⟩
  rw [hcode]
  cases c <;> decide

theorem Reason.OfReading.isReportable {r : Reason} (h : r.OfReading) : r.IsReportable := by
  cases r with
  | unclaimed | glued => exact .of_code .unknownType rfl rfl
  | unclosed => exact .of_code .unclosedArgument rfl rfl
  | parserFailed | parserAnswered => exact .of_code .parseFailure rfl rfl
  | invalidLiteral => exact .of_code .syntaxError rfl rfl
  | _ => cases h

theorem Reason.OfBinding.isReportable {r : Reason} (h : r.OfBinding) : r.IsReportable := by
  cases r with
  | unresolved | nameless => exact .of_code .unknownVariable rfl rfl
  | mismatch => exact .of_code .typeMismatch rfl rfl
  | tooMany => exact .of_code .tooManyArguments rfl rfl
  | tooFew => exact .of_code .tooFewArguments rfl rfl
  | _ => cases h

/-! ## Whole numbers -/

/-- A whole number that is read off a text keeps to the limit of digits. -/
theorem Decimal.isWritable_of_readWhole {text : String} {i : Int} (h : readWhole text = .ok i) :
    isWritable i = true := by
  have hsign (negative : Bool) (n : Nat) : (signed negative n).natAbs = n := by
    cases negative <;> simp [signed]
  unfold readWhole at h
  dsimp only at h
  split at h
  · cases h
  · cases h
  · rename_i digits _ hdigits
    obtain ⟨cs, -, hvalues⟩ := Option.bind_eq_some_iff.mp hdigits
    obtain ⟨-, rfl⟩ := digits?_eq_some_iff.mp hvalues
    unfold withinLimit at h
    split at h
    · next hlimit =>
      cases h
      refine decide_eq_true ?_
      rw [hsign]
      exact Token.length_toDigits_ofDigits hlimit
    · cases h

/-- A whole number that a datum is taken for can be written if the datum can. -/
theorem Datum.isWritable_of_toWhole {d : Datum} {i : Int} (hd : d.isWritable = true) (h : d.toWhole = .ok i) :
    Decimal.isWritable i = true := by
  have hpart {x : Float} (hx : wholePart x = .ok i) : Decimal.isWritable i = true := by
    unfold wholePart at hx
    split at hx
    · next htruncate =>
      cases hx
      exact decide_eq_true (Decimal.length_toDigits_of_truncate? htruncate)
    · cases hx
  cases d with
  | bool b =>
    cases b <;> cases h <;> decide
  | whole j =>
    cases h
    exact hd
  | float x => exact hpart h
  | text s =>
    cases hread : Decimal.readWhole s with
    | ok j =>
      rw [toWhole, hread] at h
      cases h
      exact Decimal.isWritable_of_readWhole hread
    | error e =>
      rw [toWhole, hread] at h
      cases h
  | tensor t =>
    obtain ⟨shape, entries⟩ := t
    match entries with
    | [x] => exact hpart h
    | [] | _ :: _ :: _ => cases h
  | nothing | list => cases h

namespace Standard

open Engine Signature

/-! ## Commands -/

section Effects
variable {α β : Type} {commands : OrderedMap Signature} {env : Environment} {name : String} {args : List Value}
  {r : Reason}

/-- A datum that cannot be taken for something else is no obstacle, so it is the rest that matters. -/
theorem isReportable_of_converted {x : Except ConversionError α} {next : α → Except Reason β}
    (h : (converted name x).bind next = .error r) (hnext : ∀ a, next a = .error r → r.IsReportable) :
    r.IsReportable := by
  cases x with
  | ok a => exact hnext a h
  | error error =>
    cases h
    exact .of_code .thrownError rfl rfl

theorem isReportable_of_wholeOf {v : Value} {next : Int → Except Reason β} (hv : v.datum.isWritable = true)
    (h : (explained name (wholeOf name v)).bind next = .error r)
    (hnext : ∀ i, Decimal.isWritable i = true → next i = .error r → r.IsReportable) : r.IsReportable := by
  unfold wholeOf at h
  split at h
  · split at h
    · next htruncate => exact hnext _ (decide_eq_true (Decimal.length_toDigits_of_truncate? htruncate)) h
    · cases h
      exact .of_code .typeMismatch rfl rfl
  · cases hwhole : v.datum.toWhole with
    | ok i =>
      rw [hwhole] at h
      exact hnext i (Datum.isWritable_of_toWhole hv hwhole) h
    | error error =>
      rw [hwhole] at h
      cases h
      exact .of_code .thrownError rfl rfl

/-- What a command fails for whose arguments can be written can be reported.  Only `EXIT` fails with a code that
it is given. -/
theorem isReportable_of_effect (hargs : ∀ v ∈ args, v.datum.isWritable = true)
    (h : effect commands env name args = .error r) : r.IsReportable := by
  unfold effect at h
  split at h
  · exact isReportable_of_converted h fun texts h => by cases h
  · exact isReportable_of_converted h fun key h => by cases h
  · refine isReportable_of_converted h fun key h => ?_
    rcases bind_eq_error_iff.mp h with h | ⟨_, -, h⟩
    · obtain rfl := eq_of_delete h
      exact .of_code .unknownVariable rfl rfl
    · cases h
  · exact isReportable_of_wholeOf (hargs _ List.mem_cons_self) h fun goal _ h => by cases h
  · refine isReportable_of_converted h fun x h => ?_
    split at h
    · refine isReportable_of_converted h fun shown h => ?_
      cases h
      exact .of_code .typeMismatch rfl rfl
    · cases h
  · cases h
  · refine isReportable_of_converted h fun shown h => ?_
    split at h <;> cases h
    exact .of_code .unknownCommand rfl rfl
  · cases h
  · refine isReportable_of_wholeOf (hargs _ List.mem_cons_self) h fun n hn h => ?_
    split at h <;> cases h
    exact ⟨hn, rfl⟩
  · refine isReportable_of_converted h fun holds h => ?_
    split at h
    · cases h
    · refine isReportable_of_converted h fun shown h => ?_
      cases h
      exact .of_code .thrownError rfl rfl
  · cases h
    exact .of_code .thrownError rfl rfl
  · refine isReportable_of_converted h fun text h => ?_
    cases h
    exact .of_code .thrownError rfl rfl
  · cases h

end Effects

/-! ## Lines -/

variable {σ : Type} {e e₁ : Engine σ} {l : Language} {lines : List String} {index : Nat} {text : String}

/-- **What a line fails for can be reported**, as long as the variables can be written. -/
theorem IsStandard.isReportable_of_run (h : IsStandard e) {env : Environment} (henv : env.isWritable = true)
    {r : Reason} (hrun : (language e).run env text = .error r) : r.IsReportable := by
  have htypes : e.services.types.types = Token.defaults := by rw [h.types]
  unfold Language.run at hrun
  cases hread : Line.read (language e).types (language e).marks text with
  | error fault =>
    obtain ⟨reason, rfl, hreading⟩ := (Line.faults_of_read h.separators hread).of_steady
      (by rw [show (language e).types = _ from htypes]; exact Token.defaults_steady)
    rw [hread] at hrun
    cases hrun
    exact hreading.isReportable
  | ok line =>
    rw [hread] at hrun
    dsimp only at hrun
    split at hrun
    · cases hrun
    · split at hrun
      · cases hrun
        exact .of_code .unknownCommand rfl rfl
      · rcases bind_eq_error_iff.mp hrun with hbind | ⟨args, hbind, heffect⟩
        · exact (ofBinding_of_bindFrom hbind).isReportable
        · exact isReportable_of_effect (isWritable_of_bind henv (h.isWritable_of_read hread) hbind) heffect

/-- Everything that a report would tell of the engine can be written, and so can its variables. -/
structure Reportable (e : Engine σ) : Prop where
  env : e.env.isWritable = true
  failure : ∀ f ∈ e.progress.failure, f.reason.IsReportable
  trace : ∀ entry ∈ e.progress.trace.entries, Decimal.isWritable entry.code = true

theorem mem_entries_of_push {t : Trace} {entry entry₁ : TraceEntry} (h : entry₁ ∈ (t.push entry).entries) :
    entry₁ ∈ t.entries ∨ entry₁ = entry := by
  have hmem : entry₁ ∈ t.entries ++ [entry] := by
    unfold Trace.push Trace.keepLast at h
    cases hlimit : t.limit with
    | none => simpa [hlimit] using h
    | some n => exact List.mem_of_mem_drop (by simpa [hlimit] using h)
  simpa using hmem

/-- **A line leaves an engine behind that can be reported on.** -/
theorem Standing.reportable_of_line {code : Int} (h : Standing l lines e) (hreportable : Reportable e)
    (hends : LineEnds index text (passing index e) (.ok code e₁)) : Reportable e₁ := by
  obtain ⟨-, -, hfollows, -⟩ := h.of_line hends
  have htrace := trace_of_line (e := passing index e) h.standard.hooks h.busy hends
  have hentries (hcode : Decimal.isWritable code = true) :
      ∀ entry ∈ e₁.progress.trace.entries, Decimal.isWritable entry.code = true := by
    intro entry hentry
    rw [htrace] at hentry
    rcases mem_entries_of_push hentry with hentry | rfl
    · exact hreportable.trace entry hentry
    · exact hcode
  have henv : e₁.env.isWritable = true := by
    rw [hfollows.env_eq, ← h.language]
    exact h.standard.isWritable_behind hreportable.env text
  generalize hrun : l.run e.env text = meaning at hfollows
  cases hfollows with
  | success _ _ _ _ hfailure =>
    exact ⟨henv, fun f hf => hreportable.failure f (hfailure ▸ hf), hentries (by decide)⟩
  | failure _ _ hreason _ _ _ hfailure =>
    have hreported := h.standard.isReportable_of_run hreportable.env (h.language ▸ hrun)
    refine ⟨henv, fun f hf => ?_, hentries (hreason ▸ hreported.1)⟩
    rw [hfailure] at hf
    cases hf
    exact hreported

theorem Standing.reportable_of_runs {ran : List (Nat × String)} (h : Standing l lines e)
    (hreportable : Reportable e) (hruns : Runs e ran e₁) : Reportable e₁ := by
  induction hruns with
  | refl => exact hreportable
  | line _ hline _ ih => exact ih (h.of_line hline).1 (h.reportable_of_line hreportable hline)

/-- A run begins without a failure and without steps. -/
theorem reportable_opened (henv : e.env.isWritable = true) (lines : List String) :
    Reportable (opened lines (entered e)) := ⟨henv, nofun, nofun⟩

/-- **A batch leaves an engine behind that can be reported on**, if its variables can be written and no one is
told of its end. -/
theorem IsStandard.reportable_of_runBatch {r : EStateM.Result Fault (Engine σ) Int} (h : IsStandard e)
    (hidle : e.busy = false) (huntold : e.setup.onCompletion = none) (henv : e.env.isWritable = true)
    (hcarries : Carries (.runBatch lines) e r) : ∃ code e₁, r = .ok code e₁ ∧ Reportable e₁ := by
  obtain ⟨r₁, hproceeds, rfl⟩ := (runBatch_iff h.hooks hidle).mp hcarries
  obtain ⟨ran, e₁, last, hruns, hstops⟩ := proceeds_iff.mp hproceeds
  have hopened := h.standing lines
  have hstanding := hopened.runs hruns
  have hreportable := hopened.reportable_of_runs (reportable_opened henv lines) hruns
  obtain ⟨code, e₂, rfl⟩ := hstanding.code_of_stops (fun _ => hreportable.env) hstops
  obtain ⟨hheld, -, hresult⟩ := batch_of_stops hidle h.hooks hruns hstops
  have huntold₂ : (completed code (Process.freed e₂)).setup.onCompletion = none :=
    (congrArg (·.setup.onCompletion) hheld).trans huntold
  refine ⟨code, _, ((hresult _).mp hcarries).trans (callBack_of_none huntold₂ code), ?_⟩
  have hreportable₂ : Reportable e₂ := by
    cases hstops with
    | behind => exact hreportable
    | failed _ hline => exact hstanding.reportable_of_line hreportable hline
  exact ⟨hreportable₂.env, hreportable₂.failure, hreportable₂.trace⟩

end Standard

end CommandBatch
