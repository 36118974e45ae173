import CommandBatch.Proofs.Report.Reading
import CommandBatch.Proofs.Trace.Kept
import CommandBatch.Report.Traceback

/-!
# The steps in a report

A report shows the end of what the trace keeps: as many steps as its context says, and all of them for the
context zero (`Trace.recent_eq_drop`).  Which steps it shows can be read from the report again.  In a report in
text form each step has one line that says where it was (`readHead`), and no other line can be taken for such a
line (`filterMap_reportLines`).  In a structured report the steps are the items of the trace (`readSteps_json`),
and the report is found in its text.  So both reports show the recent steps, each once and in their order
(`recent_steps_reported`).
-/

namespace CommandBatch

open Text Decimal Token

namespace Trace

/-! ## The recent steps -/

/-- How many of the steps that are kept a report with this context shows. -/
def shown (context kept : Nat) : Nat := if context = 0 then kept else min context kept

theorem shown_le (context kept : Nat) : shown context kept ≤ kept := by
  unfold shown
  by_cases h : context = 0
  · rw [if_pos h]
  · rw [if_neg h]
    exact Nat.min_le_right context kept

/-- The recent steps are the last of those that are kept. -/
theorem recent_eq_drop (t : Trace) (context : Nat) :
    t.recent context = t.entries.drop (t.entries.length - shown context t.entries.length) := by
  unfold recent shown
  by_cases h : context = 0
  · subst h
    simp
  · have hpos : (context : Int) > 0 := by omega
    have hdropped : t.entries.length - min context t.entries.length = t.entries.length - context := by omega
    rw [if_pos hpos, if_neg h, hdropped]
    rfl

end Trace

namespace Report

/-! ## Reports in text form -/

/-- The lines below the steps. -/
def closingLines (f : Failure) : List String :=
  (match f.text, f.column with
    | some text, some column => markLines text column
    | _, _ => []) ++ verdictLines f

/-- All lines of a report. -/
def reportLines (steps : List TraceEntry) (f : Failure) (verbose : Bool) : List String :=
  "Traceback (most recent line last):" :: steps.flatMap (stepLines verbose) ++ closingLines f

/-- The place of a step. -/
def readPlace : Reader (Option Int)
  | '?' :: rest => some (none, rest)
  | cs => (readWhole cs).map fun p => (some (p.1 - 1), p.2)

/-- What a line says of a step: the index of its line, its number and its text. -/
def readHead (line : String) : Option (Option Int × Int × String) := do
  let cs ← "  Line ".toList.isPrefixOf? line.toList
  let place ← readPlace cs
  let cs ← ", step ".toList.isPrefixOf? place.2
  let step ← readWhole cs
  let cs ← ": ".toList.isPrefixOf? step.2
  return (place.1, step.1, .ofList cs)

/-- What the head of a step says. -/
def headOf (entry : TraceEntry) : Option Int × Int × String := (entry.line, entry.step, strip entry.text)

theorem text_eq_reportLines (steps : List TraceEntry) (f : Failure) (verbose : Bool) :
    text steps f verbose = "\n".intercalate (reportLines steps f verbose) := by
  rw [text, List.append_assoc]
  rfl

/-- A report is split into its lines, unless one of the texts in it is broken itself. -/
theorem splitOn_text {steps : List TraceEntry} {f : Failure} {verbose : Bool}
    (h : ∀ line ∈ reportLines steps f verbose, '\n' ∉ line.toList) :
    (text steps f verbose).toList.splitOn '\n' = (reportLines steps f verbose).map String.toList := by
  have hjoined : (text steps f verbose).toList =
      ['\n'].intercalate ((reportLines steps f verbose).map String.toList) := by
    rw [text_eq_reportLines]
    exact String.toList_intercalate
  rw [hjoined]
  exact List.splitOn_intercalate '\n' (List.forall_mem_map.mpr h) (List.cons_ne_nil _ _)

/-- Only what begins as the head of a step does can be taken for one. -/
theorem readHead_eq_none {line : String} (h : line.toList.head? ≠ some ' ' ∨ line.toList[2]? ≠ some 'L') :
    readHead line = none := by
  have hprefix : "  Line ".toList.isPrefixOf? line.toList = none := by
    apply Option.eq_none_iff_forall_ne_some.mpr
    intro cs hcs
    rw [← List.isPrefixOf?_eq_some_iff_append_eq.mp hcs] at h
    simp at h
  rw [readHead, hprefix]
  rfl

theorem readHead_indented {s : String} (h : s.toList.head? ≠ some 'L') : readHead ("  " ++ s) = none := by
  apply readHead_eq_none
  refine .inr ?_
  rw [String.toList_append, List.getElem?_append_right (by decide)]
  rw [List.head?_eq_getElem?] at h
  exact h

theorem exists_codeName (code : Int) : ∃ c cs, (codeName code).toList = c :: cs ∧ c ≠ ' ' := by
  unfold codeName
  cases ErrorCode.ofInt? code with
  | none => simp [codeHex]
  | some c => cases c <;> simp [ErrorCode.name]

theorem head?_codeDescription (code : Int) : (codeDescription code).toList.head? ≠ some 'L' := by
  unfold codeDescription
  cases ErrorCode.ofInt? code with
  | none => simp
  | some c => cases c <;> simp [ErrorCode.description]

theorem readHead_verdictLines (f : Failure) : ∀ line ∈ verdictLines f, readHead line = none := by
  intro line hline
  rcases List.mem_cons.mp hline with rfl | hline
  · obtain ⟨c, cs, hname, hc⟩ := exists_codeName f.code
    apply readHead_eq_none
    refine .inl ?_
    show (codeName f.code ++ " (" ++ codeHex f.code ++ "): " ++ f.message).toList.head? ≠ some ' '
    simp only [String.toList_append, hname, List.cons_append, List.head?_cons]
    exact fun h => hc (Option.some.inj h)
  · by_cases hsame : f.message = codeDescription f.code
    · rw [if_pos hsame] at hline
      exact absurd hline List.not_mem_nil
    · rw [if_neg hsame, List.mem_singleton] at hline
      rw [hline]
      exact readHead_indented (head?_codeDescription f.code)

/-- What stands four columns to the right is no head of a step. -/
theorem readHead_indented_twice (s : String) : readHead ("    " ++ s) = none := by
  have hindent : "    " ++ s = "  " ++ ("  " ++ s) := by
    rw [← String.append_assoc]
    rfl
  rw [hindent]
  exact readHead_indented (by simp)

theorem readHead_closingLines (f : Failure) : ∀ line ∈ closingLines f, readHead line = none := by
  intro line hline
  unfold closingLines at hline
  rcases List.mem_append.mp hline with hline | hline
  · split at hline
    · rcases List.mem_cons.mp hline with rfl | hline
      · exact readHead_indented_twice _
      · rw [List.mem_singleton.mp hline, String.append_assoc]
        exact readHead_indented_twice _
    · exact absurd hline List.not_mem_nil
  · exact readHead_verdictLines f line hline

/-! ### The head of a step -/

/-- How the place of a step is written. -/
def placeText (line : Option Int) : List Char :=
  match line with
  | some i => canonical (i + 1)
  | none => ['?']

/-- The head of a step. -/
def headLine (entry : TraceEntry) : String :=
  .ofList ("  Line ".toList ++ (placeText entry.line ++ (", step ".toList ++ (canonical entry.step ++
    (": ".toList ++ (strip entry.text).toList)))))

/-- The line below the head of a step. -/
def detailLines (verbose : Bool) (snapshot : Option (List (String × String))) : List String :=
  match verbose, snapshot with
  | true, some items => ["    Env snapshot: " ++ snapshotText items]
  | _, _ => []

theorem toList_headLine (entry : TraceEntry) :
    (headLine entry).toList = "  Line ".toList ++ (placeText entry.line ++ (", step ".toList ++
      (canonical entry.step ++ (": ".toList ++ (strip entry.text).toList)))) := String.toList_ofList

theorem headLine_eq {entry : TraceEntry} (place : String) (h : place.toList = placeText entry.line) :
    "  Line " ++ place ++ ", step " ++ wholeText entry.step ++ ": " ++ strip entry.text = headLine entry := by
  apply String.toList_inj.mp
  rw [toList_headLine, String.toList_append, String.toList_append, String.toList_append, String.toList_append,
    String.toList_append, h, toList_wholeText, List.append_assoc, List.append_assoc, List.append_assoc,
    List.append_assoc]

theorem stepLines_eq (verbose : Bool) (entry : TraceEntry) :
    stepLines verbose entry = headLine entry :: detailLines verbose entry.snapshot := by
  obtain ⟨step, line, text, command, code, snapshot⟩ := entry
  cases line with
  | none =>
    rw [← headLine_eq "?" rfl]
    cases verbose <;> cases snapshot <;> rfl
  | some i =>
    rw [← headLine_eq _ (toList_wholeText (i + 1))]
    cases verbose <;> cases snapshot <;> rfl

theorem readHead_detailLines (verbose : Bool) (snapshot : Option (List (String × String))) :
    ∀ line ∈ detailLines verbose snapshot, readHead line = none := by
  intro line hline
  unfold detailLines at hline
  split at hline
  · rw [List.mem_singleton.mp hline]
    apply readHead_eq_none
    refine .inr ?_
    simp
  · exact absurd hline List.not_mem_nil

theorem isPrefixOf?_append (cs rest : List Char) : cs.isPrefixOf? (cs ++ rest) = some rest :=
  List.isPrefixOf?_eq_some_iff_append_eq.mpr rfl

theorem readPlace_placeText (line : Option Int) {rest : List Char} (h : Stops rest) :
    readPlace (placeText line ++ rest) = some (line, rest) := by
  cases line with
  | none => rfl
  | some i =>
    have hwhole := readWhole_canonical (i + 1) h
    obtain ⟨c, cs, hcons, hc⟩ := head_canonical (i + 1)
    have hne : c ≠ '?' := by
      rintro rfl
      simp at hc
    show readPlace (canonical (i + 1) ++ rest) = _
    rw [hcons, List.cons_append] at hwhole ⊢
    rw [readPlace, hwhole]
    · simp
    · intro tail htail
      exact hne (List.cons.inj htail).1

/-- The head of a step says what it should. -/
theorem readHead_headLine (entry : TraceEntry) : readHead (headLine entry) = some (headOf entry) := by
  have hcomma (rest : List Char) : Stops (", step ".toList ++ rest) := by
    simp only [String.reduceToList, List.cons_append]
    exact stops_cons rfl _
  have hcolon (rest : List Char) : Stops (": ".toList ++ rest) := by
    simp only [String.reduceToList, List.cons_append]
    exact stops_cons rfl _
  rw [readHead, toList_headLine, isPrefixOf?_append, Option.bind_eq_bind, Option.bind_some,
    readPlace_placeText _ (hcomma _), Option.bind_eq_bind, Option.bind_some, isPrefixOf?_append,
    Option.bind_eq_bind, Option.bind_some, readWhole_canonical _ (hcolon _), Option.bind_some,
    isPrefixOf?_append, Option.bind_some, String.ofList_toList]
  rfl

theorem filterMap_stepLines (verbose : Bool) (entry : TraceEntry) :
    (stepLines verbose entry).filterMap readHead = [headOf entry] := by
  have hdetail : (detailLines verbose entry.snapshot).filterMap readHead = [] :=
    List.filterMap_eq_nil_iff.mpr (readHead_detailLines verbose entry.snapshot)
  rw [stepLines_eq, List.filterMap_cons, readHead_headLine, hdetail]

/-- **The lines that say where a step was** are those of the steps, one for each in their order. -/
theorem filterMap_reportLines (steps : List TraceEntry) (f : Failure) (verbose : Bool) :
    (reportLines steps f verbose).filterMap readHead = steps.map headOf := by
  have htitle : readHead "Traceback (most recent line last):" = none := readHead_eq_none (.inl (by simp))
  have hclosing : (closingLines f).filterMap readHead = [] :=
    List.filterMap_eq_nil_iff.mpr (readHead_closingLines f)
  rw [reportLines, List.filterMap_append, hclosing, List.append_nil, List.filterMap_cons, htitle]
  dsimp only
  rw [List.filterMap_flatMap]
  simp only [filterMap_stepLines]
  exact List.map_eq_flatMap.symm

/-! ## Structured reports -/

namespace Json

/-- The field of this name. -/
def field? (name : String) : Json → Option Json
  | fields items => (items.find? (·.1 = name)).map (·.2)
  | _ => none

def whole? : Json → Option Int
  | whole i => some i
  | _ => none

def text? : Json → Option String
  | text s => some s
  | _ => none

def list? : Json → Option (List Json)
  | list items => some items
  | _ => none

/-- A number, or the word for a missing one. -/
def wholeOrNull? : Json → Option (Option Int)
  | whole i => some (some i)
  | null => some none
  | _ => none

/-- Texts with their names. -/
def texts? : Json → Option (List (String × String))
  | fields items => items.mapM fun item => item.2.text?.map (item.1, ·)
  | _ => none

end Json

/-- The step that structured data describe. -/
def readStep (j : Json) : Option TraceEntry := do
  let step ← (j.field? "step_index").bind Json.whole?
  let line ← (j.field? "line_index").bind Json.wholeOrNull?
  let text ← (j.field? "text").bind Json.text?
  let command ← (j.field? "command").bind Json.text?
  let code ← (j.field? "code").bind Json.whole?
  let snapshot ←
    match j.field? "env_snapshot" with
    | some items => items.texts?.map some
    | none => some none
  return ⟨step.toNat, line, text, command, code, snapshot⟩

/-- The steps in the trace of a report. -/
def readSteps (j : Json) : Option (List TraceEntry) := do
  let trace ← (j.field? "trace").bind Json.list?
  trace.mapM readStep

theorem wholeOrNull?_wholeOrNull (i : Option Int) : (wholeOrNull i).wholeOrNull? = some i := by
  cases i <;> rfl

theorem texts?_fields (items : List (String × String)) :
    (Json.fields (items.map fun (k, v) => (k, .text v))).texts? = some items := by
  show (items.map fun (k, v) => (k, Json.text v)).mapM (fun item => item.2.text?.map (item.1, ·)) = some items
  induction items with
  | nil => rfl
  | cons item items ih =>
    rw [List.map_cons, List.mapM_cons, ih]
    rfl

/-- A step is read back with all its data. -/
theorem readStep_stepJson (entry : TraceEntry) : readStep (stepJson entry) = some entry := by
  obtain ⟨step, line, text, command, code, snapshot⟩ := entry
  have hline := wholeOrNull?_wholeOrNull line
  cases snapshot with
  | none => simp [readStep, stepJson, Json.field?, Json.whole?, Json.text?, hline]
  | some items =>
    have hitems := texts?_fields items
    simp [readStep, stepJson, Json.field?, Json.whole?, Json.text?, hline, hitems]

theorem readSteps_json (steps : List TraceEntry) (f : Failure) : readSteps (json steps f) = some steps := by
  show (steps.map stepJson).mapM readStep = some steps
  induction steps with
  | nil => rfl
  | cons step steps ih =>
    rw [List.map_cons, List.mapM_cons, readStep_stepJson, ih]
    rfl

end Report

/-! ## Both reports -/

/-- **Reports show exactly the recent steps.**  For every limit, all operations and every context, the recent
steps are the last of those that are kept, and so of all steps since the trace was cleared: as many as the
context says, all of them for zero, and no more than are kept.  The report of any failure in text form consists
of lines of which these, one for each of the steps in their order, say where a step was, with the index of its
line, its number and its text; where no line is broken by a text in it, these are the lines that one sees.  The
text of the structured report can be read, and the steps in its trace are these steps in their order, with all
their data. -/
theorem recent_steps_reported (limit : Option Nat) (ops : List Trace.Operation) (context : Nat) (f : Failure)
    (verbose : Bool) :
    let t := Trace.after limit ops
    let all := (Trace.sinceClear ops).mapIdx StepData.entry
    let kept := Trace.capacity limit all.length
    let count := if context = 0 then kept else min context kept
    let steps := t.recent context
    let lines := Report.reportLines steps f verbose
    t.entries.length = kept ∧ steps = t.entries.drop (kept - count) ∧ steps = all.drop (all.length - count) ∧
      steps.length = count ∧
      Report.text steps f verbose = "\n".intercalate lines ∧
      (lines.filterMap Report.readHead =
        steps.map fun entry => (entry.line, (entry.step : Int), strip entry.text)) ∧
      ((∀ line ∈ lines, '\n' ∉ line.toList) →
        (Report.text steps f verbose).toList.splitOn '\n' = lines.map String.toList) ∧
      (Report.Json.read? (Report.json steps f).pretty).bind Report.readSteps = some steps := by
  intro t all kept count steps lines
  have hall : all.length = (Trace.sinceClear ops).length := List.length_mapIdx
  obtain ⟨-, -, hentries, hlength, -⟩ := Trace.entries_after limit ops
  rw [← hall] at hentries hlength
  have hcount : count ≤ kept := Trace.shown_le context kept
  have hle : kept ≤ all.length := Trace.capacity_le limit all.length
  have hsteps : steps = t.entries.drop (kept - count) := by
    have hrecent := Trace.recent_eq_drop t context
    rw [hlength] at hrecent
    exact hrecent
  refine ⟨hlength, hsteps, ?_, ?_, Report.text_eq_reportLines steps f verbose,
    Report.filterMap_reportLines steps f verbose, Report.splitOn_text, ?_⟩
  · have hdropped : all.length - kept + (kept - count) = all.length - count := by omega
    rw [hsteps, hentries, List.drop_drop, hdropped]
  · rw [hsteps, List.length_drop, hlength]
    omega
  · rw [Report.read?_pretty, Option.bind_some, Report.readSteps_json]

/-- A report with a context of zero shows every step, where the last none of them would be no step. -/
theorem no_context_shows_all :
    let t := Trace.after (some 1000) [.record ⟨some 0, "THROW", "THROW", 1, none⟩]
    let f : Failure := { reason := .thrown "" 1 none, line := some 0, text := some "THROW" }
    t.recent 0 ≠ t.entries.drop (t.entries.length - min 0 t.entries.length) ∧
      Report.text (t.recent 0) f false =
        "Traceback (most recent line last):\n  Line 1, step 0: THROW\nThrownError (0x1): Thrown error." := by
  decide +kernel

end CommandBatch
