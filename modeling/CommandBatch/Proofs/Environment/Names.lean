import CommandBatch.Environment
import CommandBatch.Failure
import CommandBatch.Proofs.Environment.InsertionOrder
import CommandBatch.Proofs.Text.UpperCase
import Mathlib.Data.List.Induction

/-!
# Variables and their names

Two names are those of one variable if they have the same key, and a key is its own key
(`normalizeName_normalizeName`), so that a variable has one place whatever names it is given.  The environment
answers all requests as a finite map in the order of insertion does that is asked by keys (`answer_eq`,
`represents_ask`), and the value under a key is the one of its latest set, unless the key was deleted since
(`value_mapped`).  Together they say what the environment is after any requests (`keyed_by_names`).
-/

namespace CommandBatch

open Text

/-! ## Keys -/

theorem upper_normalizeName (name : String) : upper (normalizeName name) = normalizeName name := by
  unfold normalizeName
  dsimp only
  by_cases h : (upper name).toList.head? = some Token.sigil
  · rw [if_pos h, upper_upper]
  · rw [if_neg h, upper, String.toList_ofList, upperList_cons, toList_upper, upperList_upperList]
    rfl

theorem head?_normalizeName (name : String) : (normalizeName name).toList.head? = some Token.sigil := by
  unfold normalizeName
  dsimp only
  by_cases h : (upper name).toList.head? = some Token.sigil
  · rw [if_pos h, h]
  · rw [if_neg h, String.toList_ofList]
    rfl

/-- A name in upper case with the sigil in front is its own key. -/
theorem normalizeName_of_upper {key : String} (hupper : upper key = key)
    (hhead : key.toList.head? = some Token.sigil) : normalizeName key = key := by
  unfold normalizeName
  dsimp only
  rw [hupper, if_pos hhead]

/-- **A key is its own key.** -/
theorem normalizeName_normalizeName (name : String) : normalizeName (normalizeName name) = normalizeName name :=
  normalizeName_of_upper (upper_normalizeName name) (head?_normalizeName name)

example : normalizeName "straße" = normalizeName "$Strasse" := by decide +kernel

namespace Environment

/-! ## Requests -/

/-- What can be asked of variables. -/
inductive Request where
  | set (name : String) (value : Value)
  | get (name : String)
  | getOptional (name : String)
  | has (name : String)
  | delete (name : String)
  | resolve (reference : Value)

/-- What a request comes back with. -/
inductive Answer where
  | done
  | value (v : Value)
  | optional (v : Option Value)
  | truth (b : Bool)
  | refused (r : Reason)

namespace Request

/-- The name that a request gives. -/
def name : Request → String
  | .set name _ | .get name | .getOptional name | .has name | .delete name => name
  | .resolve reference => reference.datum.plain

/-- The key of the variable that a request is about. -/
def key (q : Request) : String := normalizeName q.name

/-- What a request makes of the value under a key: a set puts another there, and a removal takes it away. -/
def leaves? (key : String) : Request → Option (Option Value)
  | .set name value => if normalizeName name = key then some (some value) else none
  | .delete name => if normalizeName name = key then some none else none
  | .get _ | .getOptional _ | .has _ | .resolve _ => none

end Request

/-- The value, or the reason why there is none. -/
def Answer.ofExcept : Except Reason Value → Answer
  | .ok v => .value v
  | .error r => .refused r

/-- The answer to a request, and the environment behind it. -/
def ask (env : Environment) : Request → Answer × Environment
  | .set name value => (.done, env.set name value)
  | .get name => (.ofExcept (env.get name), env)
  | .getOptional name => (.optional (env.get? name), env)
  | .has name => (.truth (env.has name), env)
  | .delete name =>
    match env.delete name with
    | .ok env₁ => (.done, env₁)
    | .error r => (.refused r, env)
  | .resolve reference => (.ofExcept (env.resolve reference), env)

/-- The environment after requests one after the other. -/
def after (qs : List Request) : Environment := qs.foldl (fun env q => (env.ask q).2) {}

/-- The value of the latest set of a key, unless it was deleted since. -/
def latest? (qs : List Request) (key : String) : Option Value := (qs.reverse.findSome? (·.leaves? key)).join

/-! ## A finite map that is asked by keys -/

/-- What a map says to a request, given the value under its key. -/
def answer (found : Option Value) : Request → Answer
  | .set _ _ => .done
  | .get name => .ofExcept (found.elim (.error (.undefined name)) .ok)
  | .getOptional _ => .optional found
  | .has _ => .truth found.isSome
  | .delete name => if found.isSome then .done else .refused (.cannotDelete name)
  | .resolve reference =>
    .ofExcept <| match reference.datum.toText with
      | .error _ => .error .nameless
      | .ok _ => found.elim (.error (.unresolved reference.shown)) .ok

/-- What a request makes of a map: it may insert the key or remove it. -/
def change (m : FiniteMap Value) (q : Request) : FiniteMap Value :=
  match q with
  | .set _ value => m.insert q.key value
  | .delete _ => if q.key ∈ m.order then m.remove q.key else m
  | .get _ | .getOptional _ | .has _ | .resolve _ => m

/-- The map after requests one after the other. -/
def mapped (qs : List Request) : FiniteMap Value := qs.foldl change .empty

variable {env env₁ : Environment} {m : FiniteMap Value} {name : String}

/-! ### The six operations -/

theorem get_eq (env : Environment) (name : String) :
    env.get name = (env.get? name).elim (.error (.undefined name)) .ok := by
  unfold get
  cases env.get? name <;> rfl

theorem resolve_eq (env : Environment) (reference : Value) :
    env.resolve reference =
      match reference.datum.toText with
      | .error _ => .error .nameless
      | .ok _ => (env.get? reference.datum.plain).elim (.error (.unresolved reference.shown)) .ok := by
  unfold resolve
  cases hname : reference.datum.toText with
  | error e => rfl
  | ok name =>
    obtain ⟨-, rfl⟩ := Datum.toText_eq_ok_iff.mp hname
    cases hget : env.get? reference.datum.plain <;> simp [hget]

theorem ask_delete_of_has (h : env.has name = true) :
    env.ask (.delete name) = (.done, ⟨env.values.erase (normalizeName name)⟩) := by
  simp only [ask, delete, if_pos h]

theorem ask_delete_of_not_has (h : ¬env.has name = true) :
    env.ask (.delete name) = (.refused (.cannotDelete name), env) := by
  simp only [ask, delete, if_neg h]

/-! ### Every request -/

/-- **Each request is answered from the value under its key.** -/
theorem answer_eq (env : Environment) (q : Request) : (env.ask q).1 = answer (env.values.get? q.key) q := by
  cases q with
  | set name value => rfl
  | get name => exact congrArg Answer.ofExcept (get_eq env name)
  | getOptional name => rfl
  | has name => rfl
  | delete name =>
    -- The key has a value just if the environment has the name.
    show _ = if env.has name = true then Answer.done else .refused (.cannotDelete name)
    by_cases h : env.has name = true
    · rw [ask_delete_of_has h, if_pos h]
    · rw [ask_delete_of_not_has h, if_neg h]
  | resolve reference => exact congrArg Answer.ofExcept (resolve_eq env reference)

/-- **Each request makes of the environment what it makes of the map.** -/
theorem represents_ask (h : env.values.Represents m) (q : Request) : (env.ask q).2.values.Represents (change m q) := by
  cases q with
  | set name value => exact h.set (normalizeName name) value
  | get name => exact h
  | getOptional name => exact h
  | has name => exact h
  | delete name =>
    have hhas : env.has name = true ↔ normalizeName name ∈ m.order := by
      rw [m.mem_order, ← h.get?]
      rfl
    show (env.ask (.delete name)).2.values.Represents
      (if normalizeName name ∈ m.order then m.remove (normalizeName name) else m)
    by_cases hin : env.has name = true
    · rw [ask_delete_of_has hin, if_pos (hhas.mp hin)]
      exact h.erase (normalizeName name)
    · rw [ask_delete_of_not_has hin, if_neg fun hmem => hin (hhas.mpr hmem)]
      exact h
  | resolve reference => exact h

theorem represents_after (qs : List Request) : (after qs).values.Represents (mapped qs) := by
  induction qs using List.reverseRecOn with
  | nil => exact OrderedMap.represents_empty
  | append_singleton qs q ih =>
    have hafter : after (qs ++ [q]) = ((after qs).ask q).2 := List.foldl_concat ..
    have hmapped : mapped (qs ++ [q]) = change (mapped qs) q := List.foldl_concat ..
    rw [hafter, hmapped]
    exact represents_ask ih q

/-! ## The latest set -/

theorem latest?_concat (qs : List Request) (q : Request) (key : String) :
    latest? (qs ++ [q]) key = (q.leaves? key).getD (latest? qs key) := by
  unfold latest?
  rw [List.reverse_concat, List.findSome?_cons]
  cases q.leaves? key <;> rfl

theorem value_change (m : FiniteMap Value) (q : Request) (key : String) :
    (change m q).value key = (q.leaves? key).getD (m.value key) := by
  cases q with
  | set name value =>
    have hchange : change m (.set name value) = m.insert (normalizeName name) value := rfl
    rw [hchange, FiniteMap.value_insert]
    by_cases h : normalizeName name = key
    · simp [Request.leaves?, h]
    · have hkey : ¬key = normalizeName name := fun heq => h heq.symm
      simp [Request.leaves?, h, hkey]
  | delete name =>
    have hchange : change m (.delete name) =
      if normalizeName name ∈ m.order then m.remove (normalizeName name) else m := rfl
    rw [hchange]
    by_cases h : normalizeName name = key
    · by_cases hmem : key ∈ m.order
      · simp [Request.leaves?, h, hmem]
      · have hnone : m.value key = none := by
          rw [m.mem_order] at hmem
          simpa using hmem
        simp [Request.leaves?, h, hmem, hnone]
    · have hkey : ¬key = normalizeName name := fun heq => h heq.symm
      by_cases hmem : normalizeName name ∈ m.order <;> simp [Request.leaves?, h, hmem, hkey]
  | get | getOptional | has | resolve => rfl

/-- **Under each key is the value of its latest set.** -/
theorem value_mapped (qs : List Request) (key : String) : (mapped qs).value key = latest? qs key := by
  induction qs using List.reverseRecOn with
  | nil => rfl
  | append_singleton qs q ih =>
    have hmapped : mapped (qs ++ [q]) = change (mapped qs) q := List.foldl_concat ..
    rw [hmapped, value_change, latest?_concat, ih]

theorem normalizeName_of_mem_change {q : Request} {key : String} (h : key ∈ (change m q).order)
    (hm : ∀ key ∈ m.order, normalizeName key = key) : normalizeName key = key := by
  cases q with
  | set name value =>
    by_cases hmem : normalizeName name ∈ m.order
    · exact hm key (FiniteMap.order_insert_of_mem hmem ▸ h)
    · have h : key ∈ m.order ++ [normalizeName name] := FiniteMap.order_insert_of_not_mem hmem ▸ h
      rcases List.mem_append.mp h with h | h
      · exact hm key h
      · rw [List.mem_singleton.mp h]
        exact normalizeName_normalizeName name
  | delete name =>
    change key ∈ (if normalizeName name ∈ m.order then m.remove (normalizeName name) else m).order at h
    by_cases hmem : normalizeName name ∈ m.order
    · rw [if_pos hmem] at h
      exact hm key (List.mem_of_mem_erase h)
    · rw [if_neg hmem] at h
      exact hm key h
  | get | getOptional | has | resolve => exact hm key h

theorem normalizeName_of_mem_mapped (qs : List Request) : ∀ key ∈ (mapped qs).order, normalizeName key = key := by
  induction qs using List.reverseRecOn with
  | nil => exact fun key h => absurd h List.not_mem_nil
  | append_singleton qs q ih =>
    have hmapped : mapped (qs ++ [q]) = change (mapped qs) q := List.foldl_concat ..
    intro key h
    rw [hmapped] at h
    exact normalizeName_of_mem_change h ih

/-! ## One request -/

/-- Without this variable the environments are the same. -/
def SameBut (name : String) (env env₁ : Environment) : Prop :=
  env₁.values.erase (normalizeName name) = env.values.erase (normalizeName name)

theorem sameBut_set (env : Environment) (name : String) (value : Value) : SameBut name env (env.set name value) :=
  OrderedMap.erase_set env.values _ value

theorem has_set (env : Environment) (name : String) (value : Value) : (env.set name value).has name = true := by
  simp [has, get?, set, OrderedMap.get?_set]

theorem delete_eq_ok (h : env.delete name = .ok env₁) :
    env.has name = true ∧ env₁ = ⟨env.values.erase (normalizeName name)⟩ := by
  unfold delete at h
  by_cases hhas : env.has name = true
  · rw [if_pos hhas] at h
    exact ⟨hhas, (Except.ok.inj h).symm⟩
  · rw [if_neg hhas] at h
    cases h

/-- What is removed was there before and is not there afterwards. -/
theorem of_delete (h : env.delete name = .ok env₁) :
    SameBut name env env₁ ∧ env.has name = true ∧ env₁.has name = false := by
  obtain ⟨hhas, rfl⟩ := delete_eq_ok h
  refine ⟨OrderedMap.erase_erase env.values _, hhas, ?_⟩
  simp [has, get?, OrderedMap.get?_erase]

/-- A request leaves all other variables as they are. -/
theorem sameBut_ask (env : Environment) (q : Request) : SameBut q.name env (env.ask q).2 := by
  cases q with
  | set name value => exact sameBut_set env name value
  | delete name =>
    show SameBut name env (env.ask (.delete name)).2
    by_cases hhas : env.has name = true
    · rw [ask_delete_of_has hhas]
      exact OrderedMap.erase_erase env.values _
    · rw [ask_delete_of_not_has hhas]
      rfl
  | get | getOptional | has | resolve => rfl

/-- A request that is refused changes nothing, and is refused because the variable is not there. -/
theorem ask_refused {q : Request} {r : Reason} (h : (env.ask q).1 = .refused r) :
    r.code = ErrorCode.unknownVariable.toInt ∧ (env.ask q).2 = env := by
  cases q with
  | set => cases h
  | getOptional => cases h
  | has => cases h
  | get name =>
    rw [answer_eq] at h
    cases hget : env.values.get? (Request.get name).key <;> rw [hget] at h <;> cases h
    exact ⟨rfl, rfl⟩
  | resolve reference =>
    have herror : env.resolve reference = .error r := by
      cases hresolve : env.resolve reference with
      | error e =>
        simp only [ask, hresolve, Answer.ofExcept, Answer.refused.injEq] at h
        exact h ▸ rfl
      | ok v => simp [ask, hresolve, Answer.ofExcept] at h
    rcases resolve_eq_error_iff.mp herror with ⟨-, rfl⟩ | ⟨-, -, rfl⟩
    · exact ⟨rfl, rfl⟩
    · exact ⟨rfl, rfl⟩
  | delete name =>
    by_cases hhas : env.has name = true
    · rw [ask_delete_of_has hhas] at h
      cases h
    · rw [ask_delete_of_not_has hhas] at h ⊢
      cases h
      exact ⟨rfl, rfl⟩

/-! ## The order of variables -/

theorem has_iff_mem_keys (h : env.values.Represents m) :
    env.has name = true ↔ normalizeName name ∈ env.values.keys := by
  rw [h.keys, m.mem_order, ← h.get?]
  rfl

/-- A variable that is set again keeps its place. -/
theorem keys_set_of_has (h : env.values.Represents m) (hhas : env.has name = true) (value : Value) :
    (env.set name value).values.keys = env.values.keys := by
  have hmem : normalizeName name ∈ env.values.keys := (has_iff_mem_keys h).mp hhas
  show (env.values.set (normalizeName name) value).keys = env.values.keys
  rw [OrderedMap.keys_set, if_pos hmem]

/-- A variable that is removed and set again comes last. -/
theorem keys_delete_set (h : env.values.Represents m) (hdelete : env.delete name = .ok env₁) (value : Value) :
    (env₁.set name value).values.keys = env.values.keys.erase (normalizeName name) ++ [normalizeName name] := by
  obtain ⟨-, rfl⟩ := delete_eq_ok hdelete
  rw [h.keys, ← FiniteMap.order_remove_insert]
  exact ((h.erase (normalizeName name)).set (normalizeName name) value).keys

/-- The summaries of the values stand under the keys in their order. -/
theorem snapshot_eq (h : env.values.Represents m) :
    env.snapshot = m.order.filterMap fun key => (m.value key).map fun v => (key, v.summary) := by
  show env.values.items.map (fun item => (item.1, item.2.summary)) = _
  rw [h.items, List.map_filterMap]
  simp only [Option.map_map]
  rfl

theorem map_fst_snapshot (env : Environment) : env.snapshot.map Prod.fst = env.values.keys := by
  show (env.values.items.map fun item => (item.1, item.2.summary)).map Prod.fst = env.values.items.map Prod.fst
  rw [List.map_map]
  rfl

/-- **The environment is a map over keys in the order of insertion.**  After any requests, each further one is
answered from the value of the latest set under its key, by whatever name, unless the key was deleted since.  It
leaves the other variables as they are, and if it is refused, everything.  A variable that is set again keeps its
place, and one that was deleted before goes to the end.  The snapshot has the keys in that order, each once, and
each is its own key. -/
theorem keyed_by_names (qs : List Request) :
    let env := after qs
    let order := (mapped qs).order
    (∀ q, (env.ask q).1 = answer (latest? qs q.key) q ∧ SameBut q.name env (env.ask q).2 ∧
      ∀ r, (env.ask q).1 = .refused r → r.code = ErrorCode.unknownVariable.toInt ∧ (env.ask q).2 = env) ∧
    (∀ name value, env.has name = true → (env.set name value).values.keys = env.values.keys) ∧
    (∀ name value env₁, env.delete name = .ok env₁ →
      (env₁.set name value).values.keys = env.values.keys.erase (normalizeName name) ++ [normalizeName name]) ∧
    (env.snapshot = order.filterMap fun key => (latest? qs key).map fun v => (key, v.summary)) ∧
    env.snapshot.map Prod.fst = order ∧ order.Nodup ∧ ∀ key ∈ order, normalizeName key = key := by
  intro env order
  have h : env.values.Represents (mapped qs) := represents_after qs
  refine ⟨?_, ?_, ?_, ?_, ?_, (mapped qs).nodup, normalizeName_of_mem_mapped qs⟩
  · intro q
    refine ⟨?_, sameBut_ask env q, fun r => ask_refused⟩
    rw [answer_eq, h.get?, value_mapped]
  · intro name value hhas
    exact keys_set_of_has h hhas value
  · intro name value env₁ hdelete
    exact keys_delete_set h hdelete value
  · rw [snapshot_eq h]
    simp only [value_mapped]
    rfl
  · rw [map_fst_snapshot]
    exact h.keys

end Environment

end CommandBatch
