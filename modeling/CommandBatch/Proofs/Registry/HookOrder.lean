import CommandBatch.Proofs.Registry.StableOrder
import CommandBatch.Registry.Hooks

/-!
# The order of hooks

Hooks of all events stand in one list, and each new hook is put behind all that have at least its priority.  So
the list is the stable sort, by descending priority, of the hooks that were granted (`hooks_registered`), and the
hooks of one event are the stable sort of those that were asked for with its name: registrations for other
events have no part in their order (`hooksNamed_registered`).
-/

namespace CommandBatch

open StableOrder

variable {H R : Type}

namespace Event

theorem ofName?_eq_some_iff {name : String} {event : Event} : ofName? name = some event ↔ name = event.name := by
  constructor
  · intro h
    have hname := List.find?_some h
    exact (of_decide_eq_true hname).symm
  · rintro rfl
    cases event <;> decide

theorem name_inj {event event' : Event} : event.name = event'.name ↔ event = event' := by
  constructor
  · intro h
    have hname : ofName? event.name = some event := ofName?_eq_some_iff.mpr rfl
    rw [h, ofName?_eq_some_iff.mpr rfl] at hname
    exact (Option.some.inj hname).symm
  · exact congrArg name

/-- The names of all events. -/
def names : List String := all.map name

theorem mem_names_iff {name : String} : name ∈ names ↔ ∃ event : Event, name = event.name := by
  constructor
  · intro h
    obtain ⟨event, -, hname⟩ := List.mem_map.mp h
    exact ⟨event, hname.symm⟩
  · rintro ⟨event, rfl⟩
    cases event <;> decide

theorem ofName?_eq_none_iff {name : String} : ofName? name = none ↔ name ∉ names := by
  rw [mem_names_iff, Option.eq_none_iff_forall_ne_some, not_exists]
  exact forall_congr' fun event => ofName?_eq_some_iff.not

end Event

/-- What a hook is asked for with. -/
structure HookRequest (H : Type) where
  event : String
  handler : H
  priority : Int
  owner : String

/-- What the hook was asked for with. -/
def Hook.request (hook : Hook H) : HookRequest H :=
  ⟨hook.event.name, hook.handler, hook.priority, hook.owner⟩

/-- What hooks are ordered by: a hook of a greater priority comes first. -/
def Hook.rank (hook : Hook H) : Intᵒᵈ := OrderDual.toDual hook.priority

namespace HookRequest

/-- The hook that is granted behind a number of others, if there is an event of the name. -/
def hook? (number : Nat) (q : HookRequest H) : Option (Hook H) :=
  (Event.ofName? q.event).map fun event => ⟨number, event, q.priority, q.handler, q.owner⟩

/-- The hooks that are granted, in the order of their registration. -/
def granted (qs : List (HookRequest H)) : List (Hook H) :=
  qs.foldl (fun hooks q => hooks ++ (q.hook? hooks.length).toList) []

theorem granted_concat (qs : List (HookRequest H)) (q : HookRequest H) :
    granted (qs ++ [q]) = granted qs ++ (q.hook? (granted qs).length).toList := by
  rw [granted, List.foldl_concat, ← granted]

theorem request_of_hook? {number : Nat} {q : HookRequest H} {hook : Hook H} (h : q.hook? number = some hook) :
    hook.request = q := by
  obtain ⟨event, hevent, rfl⟩ := Option.map_eq_some_iff.mp h
  rw [Hook.request, ← Event.ofName?_eq_some_iff.mp hevent]

/-- Hooks are numbered as they are granted. -/
theorem number_granted (qs : List (HookRequest H)) :
    (granted qs).map Hook.number = List.range (granted qs).length := by
  induction qs using List.reverseRecOn with
  | nil => rfl
  | append_singleton qs q ih =>
    rw [granted_concat]
    cases h : q.hook? (granted qs).length with
    | none => simpa using ih
    | some hook =>
      obtain ⟨event, -, rfl⟩ := Option.map_eq_some_iff.mp h
      simp [ih, List.range_succ]

/-- The hooks of an event are granted to those requests that give its name. -/
theorem request_granted (qs : List (HookRequest H)) (event : Event) :
    ((granted qs).filter (·.event = event)).map Hook.request = qs.filter (·.event = event.name) := by
  induction qs using List.reverseRecOn with
  | nil => rfl
  | append_singleton qs q ih =>
    rw [granted_concat, List.filter_append, List.filter_append, List.map_append, ih]
    congr 1
    cases h : q.hook? (granted qs).length with
    | none =>
      have hname : q.event ≠ event.name := by
        intro hname
        rw [hook?, Event.ofName?_eq_some_iff.mpr hname] at h
        cases h
      simp [hname]
    | some hook =>
      have hrequest := request_of_hook? h
      have hname : q.event = hook.event.name := by rw [← hrequest]; rfl
      by_cases hevent : hook.event = event
      · simp [hname, hevent, hrequest]
      · simp [hname, Event.name_inj, hevent]

end HookRequest

namespace HookRegistry

open HookRequest

/-- The registry in which a hook was asked for. -/
def askHook (r : HookRegistry H R) (q : HookRequest H) : HookRegistry H R :=
  (r.onEvent q.event q.handler q.priority q.owner).toOption.getD r

/-- The registry after registrations one after the other. -/
def registered (qs : List (HookRequest H)) : HookRegistry H R := qs.foldl askHook {}

theorem insertHook_eq_place (hook : Hook H) (hooks : List (Hook H)) :
    insertHook hook hooks = place Hook.rank hook hooks := by
  induction hooks with
  | nil => rfl
  | cons existing hooks ih =>
    have hle : existing.rank ≤ hook.rank ↔ ¬existing.priority < hook.priority := Int.not_lt.symm
    unfold insertHook place
    by_cases h : existing.priority < hook.priority
    · have hbefore : ¬existing.rank ≤ hook.rank := fun hrank => hle.mp hrank h
      rw [if_pos h, List.takeWhile_cons_of_neg (by simpa using hbefore),
        List.dropWhile_cons_of_neg (by simpa using hbefore), List.nil_append]
    · have hbefore : existing.rank ≤ hook.rank := hle.mpr h
      rw [if_neg h, List.takeWhile_cons_of_pos (by simpa using hbefore),
        List.dropWhile_cons_of_pos (by simpa using hbefore), ih]
      rfl

/-- A registration is refused exactly if there is no event of the name, and changes nothing then. -/
theorem askHook_of_not_mem {q : HookRequest H} (h : q.event ∉ Event.names) (r : HookRegistry H R) :
    r.onEvent q.event q.handler q.priority q.owner = .error (.unknownEvent q.event) ∧ r.askHook q = r := by
  have hrefused : r.onEvent q.event q.handler q.priority q.owner = .error (.unknownEvent q.event) := by
    rw [onEvent, Event.ofName?_eq_none_iff.mpr h]
  refine ⟨hrefused, ?_⟩
  rw [askHook, hrefused]
  rfl

theorem hooks_askHook (r : HookRegistry H R) (q : HookRequest H) :
    (r.askHook q).hooks = match q.hook? r.hooks.length with
      | some hook => place Hook.rank hook r.hooks
      | none => r.hooks := by
  unfold askHook onEvent hook?
  cases Event.ofName? q.event with
  | none => rfl
  | some event => exact insertHook_eq_place ..

/-- **The hooks of a registry** stand in the order of the stable sort by descending priority. -/
theorem hooks_registered (qs : List (HookRequest H)) :
    (registered qs : HookRegistry H R).hooks = sorted Hook.rank (granted qs) := by
  induction qs using List.reverseRecOn with
  | nil => exact List.mergeSort_nil.symm
  | append_singleton qs q ih =>
    have hlast : (registered (qs ++ [q]) : HookRegistry H R) = (registered qs).askHook q := List.foldl_concat ..
    have hlength : (sorted Hook.rank (granted qs)).length = (granted qs).length := List.length_mergeSort _
    rw [hlast, hooks_askHook, ih, hlength, granted_concat]
    cases q.hook? (granted qs).length with
    | none => simp
    | some hook => exact place_sorted hook (granted qs)

theorem hooksFor_registered (qs : List (HookRequest H)) (event : Event) :
    (registered qs : HookRegistry H R).hooksFor event =
      sorted Hook.rank ((granted qs).filter (·.event = event)) := by
  rw [hooksFor, hooks_registered, filter_sorted]

theorem request_hooksFor (qs : List (HookRequest H)) (event : Event) :
    ((registered qs : HookRegistry H R).hooksFor event).map Hook.request =
      (qs.filter (·.event = event.name)).mergeSort fun a b => b.priority ≤ a.priority := by
  rw [hooksFor_registered, sorted, List.map_mergeSort, request_granted]
  intro hook _ hook' _
  rfl

/-- **The hooks of an event** are those that were asked for with its name, by descending priority, and of equals
the one that came first. -/
theorem hooksNamed_registered (qs : List (HookRequest H)) (name : String) :
    ((registered qs : HookRegistry H R).hooksNamed name).map Hook.request =
      if name ∈ Event.names then (qs.filter (·.event = name)).mergeSort fun a b => b.priority ≤ a.priority
      else [] := by
  unfold hooksNamed
  by_cases h : name ∈ Event.names
  · obtain ⟨event, rfl⟩ := Event.mem_names_iff.mp h
    rw [if_pos h, Event.ofName?_eq_some_iff.mpr rfl]
    exact request_hooksFor qs event
  · rw [if_neg h, Event.ofName?_eq_none_iff.mpr h]
    rfl

example :
    let qs : List (HookRequest Unit) := [⟨"batch_end", (), 0, "first"⟩, ⟨"on_error", (), 7, "other"⟩,
      ⟨"batch_end", (), 5, "second"⟩, ⟨"never", (), 9, "refused"⟩, ⟨"batch_end", (), 0, "third"⟩]
    ((registered qs : HookRegistry Unit Unit).hooksNamed "batch_end").map Hook.owner =
      ["second", "first", "third"] := by decide

end HookRegistry

end CommandBatch
