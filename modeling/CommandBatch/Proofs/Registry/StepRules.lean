import CommandBatch.Registry.Hooks
import Mathlib.Data.List.Induction
import Mathlib.Data.Nat.ModEq

/-!
# Step rules and their steps

A step rule is asked for with the number of steps from one call to the next, and is granted if that
number is positive; otherwise the registry stays as it is.  So the rules of a registry are those that
were asked for with a positive number, in that order, each numbered by how many there were before it
(`rules_foldl_ask`).

A rule for every `n` steps fires at the multiples of `n`.  Those among the first `k` steps are written
down by `multiples`; one more step adds itself if it is one of them, and nothing otherwise
(`multiples_succ`).
-/

namespace CommandBatch

variable {H R α : Type}

/-- What a step rule is asked for with. -/
structure RuleRequest (R : Type) where
  every : Int
  handler : R
  owner : String
  name : String

namespace RuleRequest

/-- The rule that is granted behind a number of others. -/
def rule (number : Nat) (q : RuleRequest R) : StepRule R := ⟨number, q.every, q.handler, q.owner, q.name⟩

@[simp] theorem number_rule (number : Nat) (q : RuleRequest R) : (q.rule number).number = number := rfl

/-- The requests that are granted. -/
def granted (requests : List (RuleRequest R)) : List (RuleRequest R) := requests.filter (0 < ·.every)

/-- The rules that they lead to. -/
def grantedRules (requests : List (RuleRequest R)) : List (StepRule R) := (granted requests).mapIdx rule

theorem grantedRules_concat_of_pos {q : RuleRequest R} (h : 0 < q.every) (requests : List (RuleRequest R)) :
    grantedRules (requests ++ [q]) = grantedRules requests ++ [q.rule (grantedRules requests).length] := by
  simp [grantedRules, granted, h, List.mapIdx_append]

theorem grantedRules_concat_of_nonpos {q : RuleRequest R} (h : q.every ≤ 0) (requests : List (RuleRequest R)) :
    grantedRules (requests ++ [q]) = grantedRules requests := by
  simp [grantedRules, granted, Int.not_lt.mpr h]

theorem mem_grantedRules {requests : List (RuleRequest R)} {rule : StepRule R} (h : rule ∈ grantedRules requests) :
    ∃ q ∈ requests, 0 < q.every ∧ rule.handler = q.handler := by
  obtain ⟨number, hnumber, rfl⟩ := List.mem_mapIdx.mp h
  have hmem := List.mem_filter.mp (List.getElem_mem hnumber)
  exact ⟨_, hmem.1, of_decide_eq_true hmem.2, rfl⟩

end RuleRequest

namespace HookRegistry

open RuleRequest

/-- The registry in which a step rule was asked for. -/
def ask (r : HookRegistry H R) (q : RuleRequest R) : HookRegistry H R :=
  (r.everySteps q.every q.handler q.owner q.name).toOption.getD r

theorem everySteps_of_nonpos {every : Int} (h : every ≤ 0) (r : HookRegistry H R) (handler : R)
    (owner name : String) : r.everySteps every handler owner name = .error .stepInterval := if_pos h

theorem rules_ask {r : HookRegistry H R} {requests : List (RuleRequest R)} (h : r.rules = grantedRules requests)
    (q : RuleRequest R) : (r.ask q).rules = grantedRules (requests ++ [q]) := by
  by_cases hq : q.every ≤ 0
  · rw [ask, everySteps_of_nonpos hq, grantedRules_concat_of_nonpos hq]
    exact h
  · rw [ask, everySteps, if_neg hq, grantedRules_concat_of_pos (Int.not_le.mp hq), ← h]
    rfl

/-- **The rules of a registry** are those that were asked for with a positive number of steps. -/
theorem rules_foldl_ask {r : HookRegistry H R} (h : r.rules = []) (requests : List (RuleRequest R)) :
    (requests.foldl ask r).rules = grantedRules requests := by
  induction requests using List.reverseRecOn with
  | nil => exact h
  | append_singleton requests q ih =>
    rw [List.foldl_append]
    exact rules_ask ih q

/-- Rules are told apart by their numbers. -/
theorem filterMap_grantedRules {requests : List (RuleRequest R)} (p : StepRule R → Bool) (j : Nat) (a : α) :
    (((grantedRules requests).filter p).filterMap fun rule => if rule.number = j then some a else none) =
      if ∃ q, (granted requests)[j]? = some q ∧ p (q.rule j) = true then [a] else [] := by
  unfold grantedRules
  induction granted requests using List.reverseRecOn with
  | nil => simp
  | append_singleton granted q ih =>
    rw [List.mapIdx_concat, List.filter_append, List.filterMap_append, ih]
    rcases Nat.lt_trichotomy j granted.length with hj | rfl | hj
    · -- The last rule has a greater number.
      have hne : granted.length ≠ j := Nat.ne_of_gt hj
      rw [List.getElem?_append_left hj]
      cases hp : p (q.rule granted.length) <;> simp [hp, hne]
    · cases hp : p (q.rule granted.length) <;> simp [hp]
    · -- No rule has the number.
      have hne : granted.length ≠ j := Nat.ne_of_lt hj
      have hnone : (granted ++ [q])[j]? = none := List.getElem?_eq_none (by simpa using Nat.succ_le_of_lt hj)
      rw [hnone, List.getElem?_eq_none (Nat.le_of_lt hj)]
      cases hp : p (q.rule granted.length) <;> simp [hp, hne]

/-- **A rule fires at the multiples of its number of steps**, once. -/
theorem filterMap_rulesAt {r : HookRegistry H R} {requests : List (RuleRequest R)} {j : Nat}
    {q : RuleRequest R} (h : r.rules = grantedRules requests) (hq : (granted requests)[j]? = some q) (i : Nat)
    (a : α) :
    ((r.rulesAt i).filterMap fun rule => if rule.number = j then some a else none) =
      if q.every.toNat ∣ i then [a] else [] := by
  have hpos : 0 < q.every := of_decide_eq_true (List.mem_filter.mp (List.mem_of_getElem? hq)).2
  have hevery : (q.every.toNat : Int) = q.every := Int.toNat_of_nonneg (Int.le_of_lt hpos)
  have hfires : ((i : Int) % (q.rule j).every == 0) = true ↔ q.every.toNat ∣ i := by
    rw [beq_iff_eq, ← Int.dvd_iff_emod_eq_zero, ← Int.natCast_dvd_natCast, hevery]
    rfl
  rw [rulesAt, h, filterMap_grantedRules]
  simp only [hq, Option.some.injEq, exists_eq_left', hfires]

end HookRegistry

/-! ## Multiples -/

/-- The multiples of a number among the first `k` steps: every `n`-th of them, from the first on. -/
def multiples (n k : Nat) : List Nat := (List.range ((k + n - 1) / n)).map (n * ·)

theorem multiples_zero {n : Nat} (hn : 0 < n) : multiples n 0 = [] := by
  have hzero : (0 + n - 1) / n = 0 := Nat.div_eq_of_lt (by omega)
  rw [multiples, hzero]
  rfl

theorem multiples_succ {n : Nat} (hn : 0 < n) (k : Nat) :
    multiples n (k + 1) = multiples n k ++ if n ∣ k then [k] else [] := by
  have hlength : (k + 1 + n - 1) / n = (k + n - 1) / n + if n ∣ k then 1 else 0 := by
    have hsucc : k + 1 + n - 1 = k + n - 1 + 1 := by omega
    have hsum : k + n - 1 + 1 = k + n := by omega
    rw [hsucc, Nat.succ_div, hsum]
    simp
  rw [multiples, hlength]
  by_cases hdvd : n ∣ k
  · obtain ⟨m, rfl⟩ := hdvd
    have hlast : (n * m + n - 1) / n = m := by
      rw [Nat.add_sub_assoc hn, Nat.mul_add_div hn, Nat.div_eq_of_lt (Nat.sub_one_lt_of_lt hn), Nat.add_zero]
    simp [multiples, hlast, List.range_succ]
  · simp [multiples, hdvd]

theorem mem_multiples_iff {n : Nat} (hn : 0 < n) {k i : Nat} : i ∈ multiples n k ↔ i < k ∧ n ∣ i := by
  induction k with
  | zero => simp [multiples_zero hn]
  | succ k ih =>
    rw [multiples_succ hn, List.mem_append, ih, Nat.lt_succ_iff_lt_or_eq]
    by_cases hdvd : n ∣ k
    · rw [if_pos hdvd, List.mem_singleton]
      constructor
      · rintro (⟨hi, hmul⟩ | rfl)
        · exact ⟨.inl hi, hmul⟩
        · exact ⟨.inr rfl, hdvd⟩
      · rintro ⟨hi | rfl, hmul⟩
        · exact .inl ⟨hi, hmul⟩
        · exact .inr rfl
    · rw [if_neg hdvd]
      constructor
      · rintro (⟨hi, hmul⟩ | hnone)
        · exact ⟨.inl hi, hmul⟩
        · cases hnone
      · rintro ⟨hi | rfl, hmul⟩
        · exact .inl ⟨hi, hmul⟩
        · exact absurd hmul hdvd

end CommandBatch
