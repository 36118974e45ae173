import CommandBatch.Trace.Basic
import Mathlib.Data.List.DropRight

/-!
# What a trace keeps

A trace is told of steps and is cleared, in any order.  Its count is the number of steps since it was cleared
last, and its entries are those of the last of these steps, as many as the limit allows: entries that were
dropped are counted all the same.  `Keeps` says so of a trace; it holds of one that has been cleared
(`keeps_clear`) and goes on holding when a step is recorded (`Keeps.record`), so it holds after any operations
(`keeps_after`).
-/

namespace CommandBatch

/-- What is recorded of a step, apart from its number. -/
structure StepData where
  line : Option Int
  text : String
  command : String
  code : Int
  snapshot : Option (List (String × String))

/-- The entry of the step of this number. -/
def StepData.entry (step : Nat) (d : StepData) : TraceEntry :=
  ⟨step, d.line, d.text, d.command, d.code, d.snapshot⟩

namespace Trace

/-- What can be done with a trace. -/
inductive Operation where
  | record (d : StepData)
  | clear

/-- The step that an operation records. -/
def Operation.step? : Operation → Option StepData
  | .record d => some d
  | .clear => none

/-- The trace after an operation. -/
def apply (t : Trace) : Operation → Trace
  | .record d => t.push (t.nextEntry d.line d.text d.command d.code d.snapshot)
  | .clear => t.clear

/-- The trace of this limit after operations one after the other. -/
def after (limit : Option Nat) (ops : List Operation) : Trace := ops.foldl apply { limit }

/-- The steps that are recorded behind the last operation that clears. -/
def sinceClear (ops : List Operation) : List StepData :=
  (ops.rtakeWhile (·.step?.isSome)).filterMap Operation.step?

/-- How many of some entries are kept. -/
def capacity (limit : Option Nat) (count : Nat) : Nat :=
  match limit with
  | none => count
  | some n => min n count

/-! ### The last entries -/

theorem keepLast_nil (limit : Option Nat) : keepLast limit [] = [] := by
  cases limit <;> simp [keepLast]

theorem keepLast_concat (limit : Option Nat) (all : List TraceEntry) (entry : TraceEntry) :
    keepLast limit (keepLast limit all ++ [entry]) = keepLast limit (all ++ [entry]) := by
  cases limit with
  | none => rfl
  | some n =>
    have hle : all.length - n ≤ all.length := Nat.sub_le ..
    simp only [keepLast]
    rw [← List.drop_append_of_le_length hle, List.drop_drop]
    congr 1
    simp only [List.length_drop, List.length_append, List.length_singleton]
    omega

theorem capacity_le (limit : Option Nat) (count : Nat) : capacity limit count ≤ count := by
  cases limit with
  | none => exact Nat.le_refl count
  | some n => exact Nat.min_le_right n count

theorem keepLast_eq_drop (limit : Option Nat) (all : List TraceEntry) :
    keepLast limit all = all.drop (all.length - capacity limit all.length) := by
  cases limit with
  | none => simp [keepLast, capacity]
  | some n =>
    have hdropped : all.length - n = all.length - min n all.length := by omega
    rw [keepLast, capacity, hdropped]

/-! ### Steps since the trace was cleared -/

theorem sinceClear_record (ops : List Operation) (d : StepData) :
    sinceClear (ops ++ [.record d]) = sinceClear ops ++ [d] := by
  rw [sinceClear, List.rtakeWhile_concat_pos _ _ _ rfl, List.filterMap_append]
  rfl

theorem sinceClear_clear (ops : List Operation) : sinceClear (ops ++ [.clear]) = [] := by
  rw [sinceClear, List.rtakeWhile_concat_neg _ _ _ Bool.false_ne_true, List.filterMap_nil]

/-- The trace has counted these steps and keeps the entries of the last of them. -/
structure Keeps (t : Trace) (steps : List StepData) : Prop where
  next : t.next = steps.length
  entries : t.entries = keepLast t.limit (steps.mapIdx StepData.entry)

theorem keeps_clear (t : Trace) : t.clear.Keeps [] :=
  ⟨rfl, (keepLast_nil t.limit).symm⟩

theorem Keeps.record {t : Trace} {steps : List StepData} (h : t.Keeps steps) (d : StepData) :
    (t.apply (.record d)).Keeps (steps ++ [d]) := by
  have hentry : t.nextEntry d.line d.text d.command d.code d.snapshot = d.entry steps.length := by
    rw [nextEntry, h.next]
    rfl
  constructor
  · show t.next + 1 = (steps ++ [d]).length
    rw [h.next, List.length_append, List.length_singleton]
  · show keepLast t.limit (t.entries ++ [t.nextEntry d.line d.text d.command d.code d.snapshot]) = _
    rw [h.entries, hentry, keepLast_concat, List.mapIdx_concat]
    rfl

theorem limit_apply (t : Trace) (op : Operation) : (t.apply op).limit = t.limit := by
  cases op <;> rfl

/-- **After any operations** the trace keeps the end of the steps since it was cleared. -/
theorem keeps_after (limit : Option Nat) (ops : List Operation) :
    (after limit ops).limit = limit ∧ (after limit ops).Keeps (sinceClear ops) := by
  induction ops using List.reverseRecOn with
  | nil => exact ⟨rfl, keeps_clear { limit }⟩
  | append_singleton ops op ih =>
    obtain ⟨hlimit, hkeeps⟩ := ih
    have hlast : after limit (ops ++ [op]) = (after limit ops).apply op := List.foldl_concat ..
    rw [hlast]
    refine ⟨(limit_apply _ op).trans hlimit, ?_⟩
    cases op with
    | record d =>
      rw [sinceClear_record]
      exact hkeeps.record d
    | clear =>
      rw [sinceClear_clear]
      exact keeps_clear _

/-! ### The entries and their numbers -/

theorem steps_mapIdx_entry (steps : List StepData) :
    (steps.mapIdx StepData.entry).map TraceEntry.step = List.range steps.length := by
  apply List.ext_getElem
  · simp
  · intro i _ _
    simp [StepData.entry]

theorem getLast?_mapIdx_entry (steps : List StepData) :
    (steps.mapIdx StepData.entry).getLast? = steps.getLast?.map (StepData.entry (steps.length - 1)) := by
  induction steps using List.reverseRecOn with
  | nil => rfl
  | append_singleton steps d ih => simp [List.mapIdx_concat]

/-- **A trace keeps exactly the end of what it was told.**  For every limit and all operations, with `k` steps
since the trace was cleared last: `k` is the number of the next step and of the entry that it gets; the entries
are those of the last steps, as many as the limit allows, in order, each with the data of its step, and numbered
up to `k - 1` without a gap; and the last entry is that of the latest step, unless none is kept. -/
theorem entries_after (limit : Option Nat) (ops : List Operation) :
    let steps := sinceClear ops
    let k := steps.length
    let kept := capacity limit k
    let t := after limit ops
    t.next = k ∧
      (∀ d : StepData, t.nextEntry d.line d.text d.command d.code d.snapshot = d.entry k) ∧
      t.entries = (steps.mapIdx StepData.entry).drop (k - kept) ∧
      t.entries.length = kept ∧
      t.entries.map TraceEntry.step = List.range' (k - kept) kept ∧
      t.last? = if kept = 0 then none else steps.getLast?.map (StepData.entry (k - 1)) := by
  intro steps k kept t
  obtain ⟨hlimit, hkeeps⟩ := keeps_after limit ops
  have hkept : kept ≤ k := capacity_le limit k
  have hall : (steps.mapIdx StepData.entry).length = k := List.length_mapIdx
  have hentries : t.entries = (steps.mapIdx StepData.entry).drop (k - kept) := by
    rw [hkeeps.entries, hlimit, keepLast_eq_drop, hall]
  refine ⟨hkeeps.next, fun d => ?_, hentries, ?_, ?_, ?_⟩
  · rw [nextEntry, hkeeps.next]
    rfl
  · rw [hentries, List.length_drop, hall]
    omega
  · rw [hentries, List.map_drop, steps_mapIdx_entry, List.range_eq_range', List.drop_range']
    congr 1 <;> omega
  · rw [last?, hentries, List.getLast?_drop, hall, getLast?_mapIdx_entry]
    by_cases hzero : kept = 0
    · rw [if_pos hzero, if_pos (by omega)]
    · rw [if_neg hzero, if_neg (by omega)]

end Trace

end CommandBatch
