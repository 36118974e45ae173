import CommandBatch.Proofs.Registry.HookOrder
import CommandBatch.Proofs.Run.Frame
import CommandBatch.Proofs.Run.Hooks

/-!
# Which hooks are called

Hooks are called one after the other, up to the first that raises (`InTurn`).  The transcript has the number of
each hook that is called, and no hook can add to these numbers itself (`keeps_hooksCalled`), so they tell exactly
which hooks were called and in which order.  Together with the order in which a registry holds its hooks this says
what becomes of an announcement, whatever was registered before it (`called_in_order`).
-/

namespace CommandBatch

open HookRequest

variable {σ : Type}

/-- The hook whose call an entry of the transcript is. -/
def Record.hookNumber? : Record → Option Nat
  | .hookCalled number _ => some number
  | _ => none

namespace Engine

open Act

/-- The hooks that were called, by their numbers and in order. -/
def hooksCalled (e : Engine σ) : List Nat := e.transcript.toList.filterMap Record.hookNumber?

/-! ### The calls in the transcript -/

variable {n : Notice} {hooks : List (Hook (Notice → Script σ))} {e e₁ : Engine σ}

/-- No script calls a hook. -/
theorem keeps_hooksCalled (script : Script σ) : Keeps hooksCalled (play script) := by
  intro e
  have hwithstands : Withstands (fun _ => True) fun e₁ : Engine σ =>
      (e₁.frame, e₁.hooksCalled) = (e.frame, e.hooksCalled) :=
    sifted_withstands (fun _ => rfl) (fun _ => rfl) (fun _ => True) (e.frame, e.hooksCalled)
  have h := hwithstands.play script (Script.asks_of_all (fun _ => trivial) script) e rfl
  exact congrArg Prod.snd (ensures_iff.mp h)

theorem hooksCalled_callOf (n : Notice) (hook : Hook (Notice → Script σ)) (e : Engine σ) :
    (engineOf (callOf n hook e)).hooksCalled = e.hooksCalled ++ [hook.number] := by
  rw [callOf, keeps_hooksCalled, hooksCalled, telling, Array.toList_push, List.filterMap_append]
  rfl

theorem InTurn.hooksCalled (h : InTurn n e hooks e₁) :
    e₁.hooksCalled = e.hooksCalled ++ hooks.map Hook.number := by
  induction h with
  | nil e => rw [List.map_nil, List.append_nil]
  | @cons hook hooks answer e e₁ e₂ hcall hrest ih =>
    have hfirst : e₁.hooksCalled = e.hooksCalled ++ [hook.number] := by
      rw [← hooksCalled_callOf n hook e, hcall, engineOf_ok]
    rw [ih, hfirst, List.append_assoc, List.map_cons, List.singleton_append]

/-! ### What is announced -/

theorem nodup_number_hooksFor {H R : Type} (qs : List (HookRequest H)) (event : Event) :
    (((HookRegistry.registered qs : HookRegistry H R).hooksFor event).map Hook.number).Nodup := by
  have hall : ((granted qs).map Hook.number).Nodup := by
    rw [number_granted]
    exact List.nodup_range
  have hperm : ((HookRegistry.registered qs : HookRegistry H R).hooksFor event).Perm
      ((granted qs).filter (·.event = event)) := by
    rw [HookRegistry.hooksFor_registered]
    exact List.mergeSort_perm ..
  rw [(hperm.map Hook.number).nodup_iff]
  exact hall.sublist (List.filter_sublist.map Hook.number)

/-- **Hooks are called in the order of their priorities.**  After any registrations, with any priorities and for
names of events or other names: the hooks of a name are those that were asked for with it, by descending priority
and of equals in the order of their registration, each once for every time that it was registered; a name that no
event has is refused, which changes nothing, and has no hooks.  If the event of a notice is announced to them on
any engine, they are called in this order, each once: either all of them come back, or they are called up to the
first that raises, whose fault comes through, and the ones behind it are not called. -/
theorem called_in_order (qs : List (HookRequest (Notice → Script σ))) :
    let r : HookRegistry (Notice → Script σ) (StepContext → Script σ) := HookRegistry.registered qs
    (∀ name, (r.hooksNamed name).map Hook.request =
        if name ∈ Event.names then (qs.filter (·.event = name)).mergeSort fun a b => b.priority ≤ a.priority
        else []) ∧
      (∀ q, q.event ∉ Event.names →
        r.onEvent q.event q.handler q.priority q.owner = .error (.unknownEvent q.event) ∧ r.askHook q = r) ∧
      ∀ (n : Notice) (e : Engine σ),
        let due := r.hooksNamed n.event.name
        (due.map Hook.number).Nodup ∧
          (callHooks n due).Ensures
            (fun _ e₁ => InTurn n e due e₁ ∧ e₁.hooksCalled = e.hooksCalled ++ due.map Hook.number)
            (fun fault e₁ => ∃ before hook after e₂, due = before ++ hook :: after ∧
              InTurn n e before e₂ ∧ callOf n hook e₂ = .error fault e₁ ∧
              e₁.hooksCalled = e.hooksCalled ++ (before ++ [hook]).map Hook.number) e := by
  intro r
  refine ⟨HookRegistry.hooksNamed_registered qs, fun q hq => HookRegistry.askHook_of_not_mem hq r, ?_⟩
  intro n e due
  have hdue : due = r.hooksFor n.event := by
    show r.hooksNamed n.event.name = _
    rw [HookRegistry.hooksNamed, Event.ofName?_eq_some_iff.mpr rfl]
  refine ⟨hdue ▸ nodup_number_hooksFor qs n.event, (ensures_eq (callHooks n due) e).mono ?_ ?_⟩
  · intro _ e₁ h
    have hturn := callHooks_eq_ok_iff.mp h
    exact ⟨hturn, hturn.hooksCalled⟩
  · intro fault e₁ h
    obtain ⟨before, hook, after, e₂, hsplit, hbefore, hraises⟩ := callHooks_eq_error_iff.mp h
    have hlast : e₁.hooksCalled = e₂.hooksCalled ++ [hook.number] := by
      rw [← hooksCalled_callOf n hook e₂, hraises, engineOf_error]
    refine ⟨before, hook, after, e₂, hsplit, hbefore, hraises, ?_⟩
    rw [hlast, hbefore.hooksCalled, List.append_assoc, List.map_append]
    rfl

end Engine

end CommandBatch
