import CommandBatch.Proofs.Run.Requests
import CommandBatch.Standard.Tensors

/-!
# What the commands of the language ask for

All commands but `SET`, `DEL` and those that store what they compute about arrays ask only for output and for
jumps, whatever their arguments are (`plain_or_writes`).  So whatever such requests keep is kept by all of
these commands.
-/

namespace CommandBatch

variable {σ : Type}

/-- The request is for output or for a jump. -/
def Request.Plain : Request σ → Prop
  | .edit (.output _) => True
  | .edit (.jump _) => True
  | _ => False

namespace Standard

open Script

theorem asks_print (args : List Value) : (print args : Script σ).Asks Request.Plain :=
  asks_converted fun _ _ => asks_andThen trivial asks_silent

theorem asks_goto (args : List Value) : (goto args : Script σ).Asks Request.Plain := by
  unfold goto
  split
  · exact asks_orRaise fun _ _ => asks_andThen trivial asks_silent
  · trivial

theorem asks_wait (args : List Value) : (wait args : Script σ).Asks Request.Plain := by
  unfold wait
  split
  · refine asks_converted fun x _ => ?_
    split
    · exact asks_converted fun _ _ => asks_failWith _
    · trivial
  · trivial

theorem asks_help (args : List Value) : (help args : Script σ).Asks Request.Plain := by
  unfold help
  split
  · refine fun v => asks_edits (fun ed hed => ?_) trivial
    obtain ⟨s, -, hs⟩ := List.mem_filterMap.mp hed
    split at hs
    · cases hs
      trivial
    · cases hs
  · refine fun v => asks_converted fun shown _ => ?_
    split
    · trivial
    · refine asks_andThen trivial ?_
      split
      · trivial
      · exact asks_andThen trivial asks_silent

theorem asks_exit (args : List Value) : (exit args : Script σ).Asks Request.Plain := by
  refine fun v => asks_andThen trivial ?_
  cases args with
  | nil => trivial
  | cons code args => exact asks_orRaise fun _ _ => asks_done _

theorem asks_assert (args : List Value) : (assert args : Script σ).Asks Request.Plain := by
  unfold assert
  split
  · refine asks_converted fun holds _ => ?_
    split
    · exact asks_silent
    · exact asks_converted fun _ _ => asks_failWith _
  · trivial

theorem asks_throw (args : List Value) : (throw args : Script σ).Asks Request.Plain := by
  cases args with
  | nil => trivial
  | cons message rest => exact asks_converted fun _ _ => asks_failWith _

theorem Tensors.asks_print (args : List Value) : (print args : Script σ).Asks Request.Plain := by
  unfold print
  split
  · unfold withTensor
    split
    · exact asks_andThen trivial asks_silent
    · trivial
  · trivial

/-- The commands that set or remove a variable, by their names, parameters and handlers.  Each of them gets
the name of the variable first. -/
inductive Writes : String → List Parameter → Handler σ → Prop
  | set : Writes "SET" [required [TypeName.reference], required [TypeName.any]] set
  | delete : Writes "DEL" [required [TypeName.reference]] delete
  | sum : Writes "TSUM" [required [TypeName.reference], required [TypeName.tensor]] Tensors.sum
  | shape : Writes "TSHAPE" [required [TypeName.reference], required [TypeName.tensor]] Tensors.shape
  | dot : Writes "TDOT" [required [TypeName.reference], required [TypeName.tensor],
      required [TypeName.tensor]] Tensors.dot

/-- The names of the commands that set variables. -/
def setters : List String := ["SET", "TSUM", "TSHAPE", "TDOT"]

/-- **A command of the language asks only for output and for jumps**, or it is one of those that set or
remove a variable. -/
theorem plain_or_writes {c : Command (Handler σ)} (hc : c ∈ commands ++ Tensors.commands) :
    (c.signature.name ∉ "DEL" :: setters ∧ ∀ args, (c.handler args).Asks Request.Plain) ∨
      Writes c.signature.name c.signature.params c.handler := by
  simp only [commands, Tensors.commands, List.mem_append, List.mem_cons, List.not_mem_nil, or_false] at hc
  rcases hc with (rfl | rfl | rfl | rfl | rfl | rfl | rfl | rfl | rfl) | rfl | rfl | rfl | rfl
  · exact .inl ⟨by simp [setters], asks_print⟩
  · exact .inr .set
  · exact .inr .delete
  · exact .inl ⟨by simp [setters], asks_goto⟩
  · exact .inl ⟨by simp [setters], asks_wait⟩
  · exact .inl ⟨by simp [setters], asks_help⟩
  · exact .inl ⟨by simp [setters], asks_exit⟩
  · exact .inl ⟨by simp [setters], asks_assert⟩
  · exact .inl ⟨by simp [setters], asks_throw⟩
  · exact .inr .sum
  · exact .inr .shape
  · exact .inr .dot
  · exact .inl ⟨by simp [setters], Tensors.asks_print⟩

end Standard

end CommandBatch
