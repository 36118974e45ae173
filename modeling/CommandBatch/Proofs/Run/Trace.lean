import CommandBatch.Proofs.Run.Unhooked
import CommandBatch.Proofs.Trace.Kept

/-!
# What the trace tells

A trace counts the lines that a run has executed and keeps an entry for each of the last, as many as
it may.  `Tells` says which lines these are; it is kept whenever an entry is pushed (`Tells.push`), so
it follows a batch from line to line (`tells_of_runs`).  What the entries show of the lines is then an
end of the list of all of them (`Tells.entries`).
-/

namespace CommandBatch

/-- A line that was run, with the code that it ended with. -/
structure Visit where
  index : Nat
  text : String
  code : Int
  deriving DecidableEq, Repr

/-- What a trace shows of a line that was run, and of its step. -/
def Visit.shown (step : Nat) (v : Visit) : Nat × Option Int × String × Int :=
  (step, some v.index, v.text, v.code)

/-- What an entry shows of its line and its step. -/
def TraceEntry.shown (entry : TraceEntry) : Nat × Option Int × String × Int :=
  (entry.step, entry.line, entry.text, entry.code)

namespace Trace

/-- The trace tells these lines: it has counted them, and keeps an entry for each of the last. -/
def Tells (t : Trace) (visits : List Visit) : Prop :=
  t.next = visits.length ∧ ∃ all : List TraceEntry,
    t.entries = keepLast t.limit all ∧ all.map TraceEntry.shown = visits.mapIdx Visit.shown

theorem tells_clear (t : Trace) : t.clear.Tells [] := by
  refine ⟨rfl, [], ?_, rfl⟩
  exact (keepLast_nil t.limit).symm

theorem Tells.push {t : Trace} {visits : List Visit} (h : t.Tells visits) (v : Visit)
    (command : String) (snapshot : Option (List (String × String))) :
    (t.push (t.nextEntry (some v.index) v.text command v.code snapshot)).Tells (visits ++ [v]) := by
  obtain ⟨hnext, all, hentries, hall⟩ := h
  refine ⟨by simp [Trace.push, hnext],
    all ++ [t.nextEntry (some v.index) v.text command v.code snapshot], ?_, ?_⟩
  · simp only [Trace.push, hentries, keepLast_concat]
  · rw [List.map_append, hall, List.mapIdx_concat, List.map_singleton]
    simp [nextEntry, TraceEntry.shown, Visit.shown, hnext]

/-- **A trace that may keep `n` entries** shows the last `n` lines that it tells, numbered from the
first line on. -/
theorem Tells.entries {t : Trace} {visits : List Visit} {n : Nat} (h : t.Tells visits)
    (hlimit : t.limit = some n) :
    t.entries.map TraceEntry.shown = (visits.mapIdx Visit.shown).drop (visits.length - n) := by
  obtain ⟨-, all, hentries, hall⟩ := h
  have hlength : all.length = visits.length := by
    simpa using congrArg List.length hall
  rw [hentries, hlimit, keepLast, List.map_drop, hall, hlength]

end Trace

namespace Engine

variable {σ : Type}

theorem tells_of_line {index : Nat} {text : String} {code : Int} {e e₁ : Engine σ}
    {visits : List Visit} (hhooks : e.services.hooks = {}) (hbusy : e.busy = true)
    (htells : e.progress.trace.Tells visits) (h : LineEnds index text e (.ok code e₁)) :
    e₁.progress.trace.Tells (visits ++ [⟨index, text, code⟩]) ∧
      e₁.progress.trace.limit = e.progress.trace.limit := by
  rw [trace_of_line hhooks hbusy h]
  exact ⟨htells.push ⟨index, text, code⟩ _ _, rfl⟩

/-- **The trace follows the batch.** -/
theorem tells_of_runs {e e₁ : Engine σ} {lines : List (Nat × String)} {visits : List Visit}
    (hhooks : e.services.hooks = {}) (hbusy : e.busy = true)
    (htells : e.progress.trace.Tells visits) (h : Runs e lines e₁) :
    e₁.progress.trace.Tells (visits ++ lines.map fun l => ⟨l.1, l.2, 0⟩) ∧
      e₁.progress.trace.limit = e.progress.trace.limit := by
  induction h generalizing visits with
  | refl e => exact ⟨by rwa [List.map_nil, List.append_nil], rfl⟩
  | @line e e₁ e₂ index text lines hnext hline _ ih =>
    have hheld : e₁.held = e.held := held_of_line (e := passing index e) hhooks hbusy hline
    obtain ⟨htells₁, hlimit₁⟩ := tells_of_line (e := passing index e) hhooks hbusy htells hline
    obtain ⟨htells₂, hlimit₂⟩ := ih ((hooks_of_held hheld).trans hhooks)
      ((busy_of_held hheld).trans hbusy) htells₁
    rw [List.append_assoc] at htells₂
    exact ⟨htells₂, hlimit₂.trans hlimit₁⟩

theorem tells_of_stops {e e₁ : Engine σ} {last : Option (Nat × String)} {code : Int}
    {visits : List Visit} (hhooks : e.services.hooks = {}) (hbusy : e.busy = true)
    (htells : e.progress.trace.Tells visits) (h : Stops e last (.ok code e₁)) :
    e₁.progress.trace.Tells (visits ++ last.toList.map fun l => ⟨l.1, l.2, code⟩) ∧
      e₁.progress.trace.limit = e.progress.trace.limit := by
  cases h with
  | behind => exact ⟨by rwa [Option.toList_none, List.map_nil, List.append_nil], rfl⟩
  | @failed index _ _ _ _ hline => exact tells_of_line (e := passing index e) hhooks hbusy htells hline

end Engine

end CommandBatch
