import CommandBatch.CommandLine.Session
import CommandBatch.Proofs.Files.Utf8
import CommandBatch.Proofs.Standard.Output
import CommandBatch.Proofs.Standard.Reports
import CommandBatch.Proofs.Text.Lines

/-!
# Programs in files

A program file without extensions is run as a batch of standard commands, and a host may run such a batch on an
engine of its own.  The two agree on every batch: the engines differ in nothing that a line can see
(`Fresh.prints_iff`), so the session ends with the code of the batch as its status and has printed what the batch
prints.

They need not agree on which batch it is.  Whoever writes lines to a file joins them by line feeds, but the file
is split at every character that ends a line, and a string may well hold a form feed or a line separator.  What
is run are the parts of the lines (`program_of_lines`), which are the lines only if none of them holds such a
character.
-/

namespace CommandBatch.CommandLine

open Engine Extension Files Standard Text

variable {σ : Type} {w : Installation σ} {words lines : List String} {l : Language} {code : Int} {out : String}

/-! ## Two engines -/

/-- What is on the output when some texts have been written to it: a line for each. -/
def printout (texts : List String) : String := String.join (texts.map (· ++ "\n"))

theorem printedSince_zero (e : Engine σ) : printedSince 0 e.transcript = printout e.outputs := by
  rw [printedSince, printout, outputs, List.drop_zero, List.map_filterMap]
  congr 2
  funext r
  cases r <;> rfl

/-- A standard engine that has run nothing so far and whose host is not told of the end of a run. -/
structure Fresh (l : Language) (e : Engine σ) : Prop where
  standard : IsStandard e
  idle : e.busy = false
  untold : e.setup.onCompletion = none
  env : e.env = {}
  outputs : e.outputs = []
  language : language e = l

/-- It has no variables that could not be written. -/
theorem Fresh.isWritable {e : Engine σ} (h : Fresh l e) : e.env.isWritable = true := by
  rw [h.env]
  rfl

theorem Fresh.recordable {e : Engine σ} (h : Fresh l e) : e.Recordable := fun _ => h.isWritable

/-- What a batch prints on such an engine is settled by what its lines are read by. -/
theorem Fresh.prints_iff {e : Engine σ} (h : Fresh l e) :
    (∃ e₁, Carries (.runBatch lines) e (.ok code e₁) ∧ printedSince 0 e₁.transcript = out) ↔
      ∃ texts, Prints l lines {} 0 code texts ∧ printout texts = out := by
  constructor
  · rintro ⟨e₁, hcarries, rfl⟩
    have hprints : Prints (Standard.language e) lines e.env 0 code e₁.outputs :=
      (runBatch_prints_iff h.standard h.idle h.recordable h.untold).mp
        ⟨e₁, hcarries, by rw [h.outputs, List.nil_append]⟩
    rw [h.language, h.env] at hprints
    exact ⟨e₁.outputs, hprints, (printedSince_zero e₁).symm⟩
  · rintro ⟨texts, hprints, rfl⟩
    rw [← h.language, ← h.env] at hprints
    obtain ⟨e₁, hcarries, houtputs⟩ := (runBatch_prints_iff h.standard h.idle h.recordable h.untold).mpr hprints
    rw [h.outputs, List.nil_append] at houtputs
    exact ⟨e₁, hcarries, by rw [printedSince_zero, houtputs]⟩

/-- The engine of a host that asks for the standard commands and for nothing else. -/
def standardEngine (host : σ) : Engine σ := install { services := .standard, host }

theorem fresh_standardEngine (host : σ) : Fresh (language (standardEngine host)) (standardEngine host) :=
  ⟨isStandard_install {} host rfl, rfl, rfl, rfl, rfl, rfl⟩

/-- The engine of a session without extensions reads lines as well as this one does. -/
theorem makeEngine_fresh (w : Installation σ) (host : σ) {o : Options} (h : o.extensions = []) :
    ∃ e, makeEngine w host o = .ok e ∧ Fresh (language (standardEngine host)) e := by
  have hload : w.load o.extensions host = .ok (.standard, host) := by
    rw [h]
    rfl
  refine ⟨install { setup := { verbose := o.verbose }, services := .standard, host }, ?_, ?_⟩
  · rw [makeEngine, hload]
    rfl
  · exact ⟨isStandard_install { verbose := o.verbose } host rfl, rfl, rfl, rfl, rfl, rfl⟩

/-! ## Reports -/

/-- The report on an engine is cut short by an error. -/
inductive CutShort (e : Engine σ) (structured : Bool) : ConversionError → Prop
  /-- The column that a host has given the failure is no position in a text. -/
  | column {f : Failure} (hfailure : e.progress.failure = some f) (htext : f.text.isNone = false)
      (hcolumn : (Report.givenColumn f.reason).all Report.isIndex = false) : CutShort e structured .beyondIndex
  /-- The report is to be structured, and a code or that column has more digits than can be written. -/
  | number {f : Failure} (hfailure : e.progress.failure = some f) (hstructured : structured = true)
      (hunwritable : Report.isWritable (e.progress.trace.recent Report.usualContext) f = false) :
      CutShort e structured .unwritable

/-- A report is written as a whole, or cut short. -/
theorem report_cases (e : Engine σ) (code : Int) (verbose structured : Bool) :
    (∃ text, report e code verbose structured = (text, none)) ∨
      ∃ text error, CutShort e structured error ∧ report e code verbose structured = (text, some error) := by
  cases hfailure : e.progress.failure with
  | none => exact .inl ⟨_, by rw [report, hfailure]⟩
  | some f =>
    cases htext : f.text.isNone || (Report.givenColumn f.reason).all Report.isIndex with
    | false =>
      obtain ⟨hisNone, hcolumn⟩ := Bool.or_eq_false_iff.mp htext
      exact .inr ⟨_, _, .column hfailure hisNone hcolumn, by simp only [report, hfailure, Report.toText, htext]; rfl⟩
    | true =>
      cases structured with
      | false => exact .inl ⟨_, by simp only [report, hfailure, Report.toText, htext]; rfl⟩
      | true =>
        cases hwritable : Report.isWritable (e.progress.trace.recent Report.usualContext) f with
        | false =>
          exact .inr ⟨_, _, .number hfailure rfl hwritable,
            by simp only [report, hfailure, Report.toText, htext, Report.toJson, hwritable]; rfl⟩
        | true =>
          exact .inl ⟨_, by simp only [report, hfailure, Report.toText, htext, Report.toJson, hwritable]; rfl⟩

/-- Where all that it tells of can be written, nothing cuts a report short. -/
theorem not_cutShort {e : Engine σ} (h : Reportable e) {structured : Bool} {error : ConversionError} :
    ¬CutShort e structured error := by
  rintro (⟨hfailure, -, hcolumn⟩ | ⟨hfailure, -, hunwritable⟩)
  · rw [(h.failure _ hfailure).2] at hcolumn
    cases hcolumn
  · obtain ⟨hcode, hcolumn⟩ := h.failure _ hfailure
    have hsteps : (e.progress.trace.recent Report.usualContext).all
        (fun entry => Decimal.isWritable entry.code) = true := by
      refine List.all_eq_true.mpr fun entry hentry => h.trace entry ?_
      unfold Trace.recent at hentry
      split at hentry <;> exact List.mem_of_mem_drop hentry
    rw [Report.isWritable, Failure.code, hcode, hcolumn, hsteps] at hunwritable
    cases hunwritable

/-- The session of a program whose run has come to a code ends with it, unless the report is cut short. -/
theorem conclude_cases (o : Options) (length : Nat) (code : Int) (e : Engine σ) :
    ∃ err ending, concludeProgram o length (some (.ok code e)) =
        { ending, console := ⟨printedSince length e.transcript, err⟩, transcript := e.transcript } ∧
      (ending = .status code ∨
        ∃ error, CutShort e o.structured error ∧ ending = .broken (.ofConversion error)) := by
  unfold concludeProgram
  by_cases hcode : code = 0
  · exact ⟨"", .status code, by simp [hcode], .inl rfl⟩
  · rcases report_cases e code o.verbose o.structured with ⟨text, hreport⟩ | ⟨text, error, hcut, hreport⟩
    · exact ⟨text, .status code, by simp [hcode, hreport], .inl rfl⟩
    · exact ⟨text, .broken (.ofConversion error), by simp [hcode, hreport], .inr ⟨error, hcut, rfl⟩⟩

theorem conclude_of_reportable {e : Engine σ} (h : Reportable e) (o : Options) (length : Nat) (code : Int) :
    ∃ err, concludeProgram o length (some (.ok code e)) =
      { ending := .status code, console := ⟨printedSince length e.transcript, err⟩, transcript := e.transcript } := by
  obtain ⟨err, ending, hconclude, rfl | ⟨error, hcut, -⟩⟩ := conclude_cases o length code e
  · exact ⟨err, hconclude⟩
  · exact absurd hcut (not_cutShort h)

/-! ## Sessions -/

/-- The words ask for a program in a file that holds some lines, joined by line feeds, without extensions. -/
inductive HoldsProgram (w : Installation σ) (words lines : List String) : Prop
  | file {o : Options} {path : String} {file : SourceFile σ} (hwords : parse words = .ok (.run o))
      (hprogram : o.program = some path) (hsource : o.source = false) (hextensions : o.extensions = [])
      (hread : w.read path = .ok file) (hbytes : file.bytes = ("\n".intercalate lines).toUTF8.data.toList) :
      HoldsProgram w words lines

/-- The session of some words comes to an end with a status, and has printed a text by then. -/
def Concludes (w : Installation σ) (host : σ) (words : List String) (input : String) (code : Int)
    (out : String) : Prop :=
  ∃ fuel, (run fuel w host words input).ending = .status code ∧ (run fuel w host words input).console.out = out

/-- A host that runs lines on an engine of its own gets a code, and the engine has printed a text by then. -/
def Answers (host : σ) (lines : List String) (code : Int) (out : String) : Prop :=
  ∃ e, Carries (.runBatch lines) (standardEngine host) (.ok code e) ∧ printedSince 0 e.transcript = out

/-- The session is the batch of the lines that are read of the file. -/
theorem run_program (h : HoldsProgram w words lines) (host : σ) :
    ∃ (o : Options) (e : Engine σ), Fresh (language (standardEngine host)) e ∧
      ∀ fuel input, run fuel w host words input =
        concludeProgram o 0 (carryOut fuel (.runBatch (Text.lines ("\n".intercalate lines))) e).result? := by
  obtain ⟨hwords, hprogram, hsource, hextensions, hread, hbytes⟩ := h
  rename_i o path file
  obtain ⟨e, hmake, hfresh⟩ := makeEngine_fresh w host hextensions
  have htext : readProgram w path = .ok ("\n".intercalate lines) := by
    rw [readProgram, Installation.readText, hread]
    simp only [hbytes, decodeUtf8_toUTF8]
    rfl
  refine ⟨o, e, hfresh, fun fuel input => ?_⟩
  simp [run, start, hwords, hmake, hprogram, hsource, htext]

theorem concludes_iff (h : HoldsProgram w words lines) (host : σ) (input : String) :
    Concludes w host words input code out ↔ Answers host (Text.lines ("\n".intercalate lines)) code out := by
  obtain ⟨o, e, hfresh, hrun⟩ := run_program h host
  -- The two engines are read by the same language, so the host's may be taken for the session's.
  rw [Answers, (fresh_standardEngine host).prints_iff, ← hfresh.prints_iff]
  constructor
  · rintro ⟨fuel, hending, hout⟩
    rw [hrun] at hending hout
    cases hr : (carryOut fuel (.runBatch (Text.lines ("\n".intercalate lines))) e).result? with
    | none =>
      rw [hr] at hending
      cases hending
    | some r =>
      obtain ⟨code₁, e₁, rfl, hreportable⟩ :=
        hfresh.standard.reportable_of_runBatch hfresh.idle hfresh.untold hfresh.isWritable ⟨fuel, hr⟩
      obtain ⟨err, hconclude⟩ := conclude_of_reportable hreportable o 0 code₁
      rw [hr, hconclude] at hending hout
      cases hending
      exact ⟨e₁, ⟨fuel, hr⟩, hout⟩
  · rintro ⟨e₁, ⟨fuel, hr⟩, hout⟩
    refine ⟨fuel, ?_⟩
    obtain ⟨code₁, e₂, hcode, hreportable⟩ :=
      hfresh.standard.reportable_of_runBatch hfresh.idle hfresh.untold hfresh.isWritable ⟨fuel, hr⟩
    cases hcode
    obtain ⟨err, hconclude⟩ := conclude_of_reportable hreportable o 0 code
    rw [hrun, show Run.result? _ = _ from hr, hconclude]
    exact ⟨rfl, hout⟩

/-- The run of a program on such an engine cannot break off, and neither can the report on it. -/
theorem Fresh.ending {e : Engine σ} (h : Fresh l e) (o : Options) (fuel : Nat) (lines : List String) :
    (concludeProgram o 0 (carryOut fuel (.runBatch lines) e).result?).ending = .exhausted ∨
      ∃ code, (concludeProgram o 0 (carryOut fuel (.runBatch lines) e).result?).ending = .status code := by
  cases hr : (carryOut fuel (.runBatch lines) e).result? with
  | none => exact .inl rfl
  | some r =>
    obtain ⟨code, e₁, rfl, hreportable⟩ :=
      h.standard.reportable_of_runBatch h.idle h.untold h.isWritable ⟨fuel, hr⟩
    obtain ⟨err, hconclude⟩ := conclude_of_reportable hreportable o 0 code
    exact .inr ⟨code, by rw [hconclude]⟩

/-- It makes no difference to a host whether an empty part at the very end is run. -/
theorem answers_lines_join (h : ∀ line ∈ lines, '\r' ∉ line.toList) (host : σ) :
    Answers host (Text.lines ("\n".intercalate lines)) code out ↔
      Answers host (lines.flatMap lineParts) code out := by
  rcases lines_join h with hparts | hparts
  · rw [hparts]
  · rw [hparts, Answers, Answers, (fresh_standardEngine host).prints_iff, (fresh_standardEngine host).prints_iff]
    simp only [prints_concat_blank]

/-- **A program in a file** that holds some lines, joined by line feeds, is the batch of the parts of these lines.
The session ends with a status, if it ends; and it comes to a status and has printed a text exactly if a host
gets this code for the parts and its engine has printed this text.  Where no line holds a character that ends a
line, the parts are the lines. -/
theorem program_of_lines (h : HoldsProgram w words lines) (hreturn : ∀ line ∈ lines, '\r' ∉ line.toList)
    (host : σ) (input : String) :
    (∀ fuel, (run fuel w host words input).ending = .exhausted ∨
      ∃ code, (run fuel w host words input).ending = .status code) ∧
    (∀ code out, Concludes w host words input code out ↔ Answers host (lines.flatMap lineParts) code out) ∧
    ((∀ line ∈ lines, ∀ c ∈ line.toList, isLineEnd c = false) →
      ∀ code out, Concludes w host words input code out ↔ Answers host lines code out) := by
  have hparts (code : Int) (out : String) :
      Concludes w host words input code out ↔ Answers host (lines.flatMap lineParts) code out :=
    (concludes_iff h host input).trans (answers_lines_join hreturn host)
  obtain ⟨o, e, hfresh, hrun⟩ := run_program h host
  refine ⟨fun fuel => hrun fuel input ▸ hfresh.ending o fuel _, hparts, fun hends => ?_⟩
  have hlines : lines.flatMap lineParts = lines := by
    rw [List.flatMap_congr fun line hline => lineParts_eq_singleton (hends line hline), List.flatMap_singleton']
  rwa [hlines] at hparts

/-- What is read of a file in a working directory that is the root. -/
theorem read_in_root (hroot : w.directory = "/") :
    w.read "p.cmd" = match w.tree.node? ["p.cmd"] with
      | none => .error (.blocked .missing "p.cmd")
      | some .directory => .error (.blocked .isADirectory "p.cmd")
      | some (.file file) => .ok file := by
  have hnames : Path.names (Path.below "/" "p.cmd") = ["", "p.cmd"] := by decide +kernel
  have hshort : ¬Workspace.pathLimit ≤ "p.cmd".utf8ByteSize := by decide
  have hname : ¬Tree.longestName < "p.cmd".utf8ByteSize := by decide
  cases hnode : w.tree.node? ["p.cmd"] with
  | none => simp [Workspace.read, Workspace.locate, hroot, hnames, hshort, hname, Tree.follow, hnode]
  | some node =>
    cases node <;>
      simp [Workspace.read, Workspace.locate, hroot, hnames, hshort, hname, Tree.follow, hnode]

/-- A working directory with a program file of some bytes. -/
def holding (bytes : List UInt8) : Installation Unit where
  tree := ⟨[(["p.cmd"], .file { bytes })]⟩
  bundled := "/ext"

theorem read_holding (bytes : List UInt8) : (holding bytes).read "p.cmd" = .ok { bytes } := by
  rw [read_in_root rfl]
  rfl

theorem parse_program : parse ["p.cmd"] = .ok (.run { program := some "p.cmd" }) := by
  decide +kernel

theorem holdsProgram_holding (lines : List String) :
    HoldsProgram (holding ("\n".intercalate lines).toUTF8.data.toList) ["p.cmd"] lines :=
  .file parse_program rfl rfl rfl (read_holding _) rfl

/-- The test that an operation has ended with a code and a text has been printed. -/
def prints (code : Int) (out : String) : EStateM.Result Fault (Engine Unit) Int → Bool :=
  returns code fun e => printedSince 0 e.transcript == out

theorem answers_of_any (fuel : Nat)
    (h : (carryOut fuel (.runBatch lines) (standardEngine ())).result?.any (prints code out) = true) :
    Answers () lines code out := by
  obtain ⟨r, hcarries, hprints⟩ := carries_of_any fuel _ h
  obtain ⟨e, rfl, hout⟩ := of_returns hprints
  exact ⟨e, hcarries, eq_of_beq hout⟩

/-- A program that prints a text and leaves with a code. -/
theorem program_of_lines_exit :
    ∃ w : Installation Unit, HoldsProgram w ["p.cmd"] ["PRINT \"a b\"", "EXIT 4"] ∧
      Concludes w () ["p.cmd"] "" 4 "a b\n" := by
  have hholds := holdsProgram_holding ["PRINT \"a b\"", "EXIT 4"]
  obtain ⟨-, -, hconcludes⟩ := program_of_lines hholds (by decide) () ""
  exact ⟨_, hholds, (hconcludes (by decide) 4 "a b\n").mpr (answers_of_any 4 (by decide +kernel))⟩

/-- A string with a form feed is printed by a host's engine, but a program file with it is split there. -/
theorem program_split_at_form_feed :
    ¬ ∀ (w : Installation Unit) (words lines : List String), HoldsProgram w words lines →
      (∀ line ∈ lines, '\n' ∉ line.toList ∧ '\r' ∉ line.toList) →
      ∀ code out, Answers () lines code out → Concludes w () words "" code out := by
  intro h
  have hholds := holdsProgram_holding ["PRINT \"a\x0cb\""]
  have hline : Answers () ["PRINT \"a\x0cb\""] 0 "a\x0cb\n" := answers_of_any 4 (by decide +kernel)
  have hparts : Answers () (Text.lines ("\n".intercalate ["PRINT \"a\x0cb\""])) 6 "" :=
    answers_of_any 4 (by decide +kernel)
  obtain ⟨e, hcarries, -⟩ := (concludes_iff hholds () "").mp (h _ _ _ hholds (by decide) _ _ hline)
  obtain ⟨e', hcarries', -⟩ := hparts
  cases hcarries.unique hcarries'

end CommandBatch.CommandLine
