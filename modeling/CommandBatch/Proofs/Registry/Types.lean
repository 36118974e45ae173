import CommandBatch.Proofs.Line.Reading
import CommandBatch.Proofs.Registry.StableOrder
import CommandBatch.Registry.Types
import CommandBatch.Token.Symbol
import Mathlib.Data.List.Induction
import Mathlib.Order.WithBot

/-!
# The types of a registry

Whatever registrations are asked for, the registry holds the types of those that are granted, in the
order of the stable sort by priority (`types_filled`): a registration that is refused leaves it as it is.
So for each character it is the type of the least priority that decides, and of equals the one that was
registered first (`choice_of_registrations`).
-/

namespace CommandBatch

open StableOrder

/-- What the types are ordered by: the priorities, with none behind all others. -/
def Rank : Type := WithTop Int

instance : LinearOrder Rank := inferInstanceAs (LinearOrder (WithTop Int))

namespace TokenType

/-- The rank of a type, by its priority. -/
def rank (type : TokenType) : Rank :=
  match type.priority with
  | some priority => WithTop.some priority
  | none => (⊤ : WithTop Int)

/-- Asked with fresh notes, the type says that a token of its begins with the character. -/
def Takes (type : TokenType) (c : Char) : Prop :=
  ∃ scratch, type.lexis.begins c {} = .ok (true, scratch)

/-- Asked with fresh notes, the type says that no token of its begins with the character. -/
def Refuses (type : TokenType) (c : Char) : Prop :=
  ∃ scratch, type.lexis.begins c {} = .ok (false, scratch)

theorem takes_iff_not_refuses {type : TokenType} {c : Char}
    (h : ∃ r, type.lexis.begins c {} = .ok r) : type.Takes c ↔ ¬type.Refuses c := by
  obtain ⟨⟨begins, scratch⟩, h⟩ := h
  cases begins <;> simp [Takes, Refuses, h]

end TokenType

/-- What a registration of a type asks for. -/
structure TypeRequest where
  name : Datum
  lexis : Lexis
  priority : Option Int

/-- The type that is asked for, if it has a name that is a text and not empty, and no negative
priority. -/
def TypeRequest.granted? (q : TypeRequest) : Option TokenType :=
  match q.name with
  | .text name =>
    if name ≠ "" ∧ ∀ p ∈ q.priority, 0 ≤ p then some ⟨name, q.lexis, q.priority⟩ else none
  | _ => none

theorem TypeRequest.granted?_eq_some_iff {q : TypeRequest} {type : TokenType} :
    q.granted? = some type ↔ q = ⟨.text type.name, type.lexis, type.priority⟩ ∧ type.name ≠ "" ∧
      ∀ p ∈ type.priority, 0 ≤ p := by
  obtain ⟨name, lexis, priority⟩ := q
  obtain ⟨name', lexis', priority'⟩ := type
  cases name with
  | text name =>
    simp only [granted?, Option.ite_none_right_eq_some, Option.some.injEq, TokenType.mk.injEq,
      TypeRequest.mk.injEq, Datum.text.injEq]
    constructor
    · rintro ⟨hgranted, rfl, rfl, rfl⟩
      exact ⟨⟨rfl, rfl, rfl⟩, hgranted⟩
    · rintro ⟨⟨rfl, rfl, rfl⟩, hgranted⟩
      exact ⟨hgranted, rfl, rfl, rfl⟩
  | _ => simp [granted?]

namespace TypeRegistry

/-! ### One registration -/

theorem behind_iff {existing type : TokenType} {p : Int} (hp : type.priority = some p) :
    behind existing.priority p = true ↔ type.rank < existing.rank := by
  unfold TokenType.rank
  rw [hp]
  cases existing.priority with
  | none => exact iff_of_true rfl (WithTop.coe_lt_top p)
  | some q => exact decide_eq_true_iff.trans WithTop.coe_lt_coe.symm

theorem rank_le_of_none {type : TokenType} (h : type.priority = none) (other : TokenType) :
    other.rank ≤ type.rank := by
  have htop : ∀ r : WithTop Int, r ≤ ⊤ := fun _ => le_top
  have hrank : type.rank = (⊤ : WithTop Int) := by rw [TokenType.rank, h]
  rw [hrank]
  exact htop other.rank

/-- A type is put in front of the first that has a greater rank. -/
theorem insert_eq_place (type : TokenType) (types : List TokenType) :
    insert type types = place TokenType.rank type types := by
  unfold insert place
  cases hp : type.priority with
  | none =>
    have hall : ∀ other ∈ types, decide (other.rank ≤ type.rank) = true := fun other _ =>
      decide_eq_true (rank_le_of_none hp other)
    rw [List.takeWhile_eq_self_iff.mpr hall, List.dropWhile_eq_nil_iff.mpr hall]
  | some p =>
    induction types with
    | nil => rfl
    | cons existing types ih =>
      by_cases h : type.rank < existing.rank
      · have hbehind := (behind_iff hp).mpr h
        simp [insertBy, hbehind, h.not_ge]
      · have hbehind : behind existing.priority p = false := by simpa using (behind_iff hp).not.mpr h
        have hle : existing.rank ≤ type.rank := not_lt.mp h
        simp only [insertBy, hbehind, Bool.false_eq_true, ↓reduceIte, ih, List.takeWhile_cons,
          List.dropWhile_cons, hle, decide_true, List.cons_append]

theorem register_eq_ok {q : TypeRequest} {type : TokenType} (h : q.granted? = some type)
    (r : TypeRegistry) :
    r.register q.name q.lexis q.priority = .ok ⟨place TokenType.rank type r.types⟩ := by
  obtain ⟨rfl, hname, hpriority⟩ := TypeRequest.granted?_eq_some_iff.mp h
  rw [← insert_eq_place]
  obtain ⟨name, lexis, priority⟩ := type
  cases priority with
  | none => simp [register, accept, hname, Except.map]
  | some p =>
    have hp : ¬p < 0 := not_lt.mpr (hpriority p rfl)
    simp [register, accept, hname, hp, Except.map]

/-- A registration is refused exactly if it is not granted. -/
theorem register_eq_error_iff {q : TypeRequest} (r : TypeRegistry) :
    (∃ e, r.register q.name q.lexis q.priority = .error e) ↔ q.granted? = none := by
  constructor
  · rintro ⟨e, he⟩
    cases h : q.granted? with
    | none => rfl
    | some type =>
      rw [register_eq_ok h] at he
      cases he
  · intro h
    obtain ⟨name, lexis, priority⟩ := q
    cases name with
    | text name =>
      by_cases hname : name = ""
      · exact ⟨.typeUnnamed, by simp [register, accept, hname, Except.map]⟩
      · obtain ⟨p, rfl, hp⟩ : ∃ p, priority = some p ∧ p < 0 := by
          simpa [TypeRequest.granted?, hname] using h
        exact ⟨.negativePriority name p, by simp [register, accept, hname, hp, Except.map]⟩
    | _ => exact ⟨.typeUnnamed, rfl⟩

/-! ### Registrations one after the other -/

/-- The registry after a registration, granted or refused. -/
def afterRequest (r : TypeRegistry) (q : TypeRequest) : TypeRegistry :=
  match r.register q.name q.lexis q.priority with
  | .ok r' => r'
  | .error _ => r

/-- The registry after registrations one after the other. -/
def filled (qs : List TypeRequest) : TypeRegistry :=
  qs.foldl afterRequest {}

theorem filled_concat (qs : List TypeRequest) (q : TypeRequest) :
    filled (qs ++ [q]) = (filled qs).afterRequest q := by
  rw [filled, List.foldl_concat, ← filled]

theorem afterRequest_of_not_granted {q : TypeRequest} (h : q.granted? = none) (r : TypeRegistry) :
    r.afterRequest q = r := by
  obtain ⟨e, he⟩ := (register_eq_error_iff r).mpr h
  rw [afterRequest, he]

/-- **The order of the types** is that of the stable sort, by priority, of the registrations that are
granted. -/
theorem types_filled (qs : List TypeRequest) :
    (filled qs).types = sorted TokenType.rank (qs.filterMap TypeRequest.granted?) := by
  induction qs using List.reverseRecOn with
  | nil => exact List.mergeSort_nil.symm
  | append_singleton qs q ih =>
    rw [filled_concat, List.filterMap_append]
    cases h : q.granted? with
    | none => simpa [afterRequest_of_not_granted h, h] using ih
    | some type =>
      rw [afterRequest, register_eq_ok h, ih, place_sorted]
      simp [h]

end TypeRegistry

namespace Line

/-! ### Who decides about a character -/

variable {types before after : List TokenType} {type : TokenType} {c : Char} {column : Nat}

theorem claim_cons_of_refuses (h : type.Refuses c) :
    claim (type :: types) c column = claim types c column := by
  obtain ⟨scratch, hbegins⟩ := h
  rw [claim, hbegins]
  rfl

/-- Types that refuse a character leave it to the others. -/
theorem claim_append_of_refuses (h : ∀ type ∈ before, type.Refuses c) :
    claim (before ++ types) c column = claim types c column := by
  induction before with
  | nil => rfl
  | cons type before ih =>
    obtain ⟨hrefuses, hothers⟩ := List.forall_mem_cons.mp h
    rw [List.cons_append, claim_cons_of_refuses hrefuses, ih hothers]

/-- The first type that does not refuse a character takes it, or breaks off. -/
theorem claim_of_not_refuses (hbefore : ∀ type ∈ before, type.Refuses c) (h : ¬type.Refuses c) :
    claim (before ++ type :: after) c column =
      (type.lexis.begins c {}).map fun r => (type, r.2) := by
  rw [claim_append_of_refuses hbefore, claim]
  cases hbegins : type.lexis.begins c {} with
  | error f => rfl
  | ok r =>
    obtain ⟨begins, scratch⟩ := r
    cases begins with
    | true => rfl
    | false => exact absurd ⟨scratch, hbegins⟩ h

theorem claim_of_all_refuse (h : ∀ type ∈ types, type.Refuses c) :
    claim types c column = .error (.ofReason (.unclaimed c column)) := by
  rw [← List.append_nil types, claim_append_of_refuses h]
  rfl

/-- In sorted types, the first that does not refuse is the least in rank and time that does not. -/
theorem claim_sorted {granted : List TokenType} {time : Nat}
    (h : IsFirst TokenType.rank granted (¬·.Refuses c) time type) :
    claim (sorted TokenType.rank granted) c column =
      (type.lexis.begins c {}).map fun r => (type, r.2) := by
  obtain ⟨hrefuses, before, after, he, hbefore⟩ := isFirst_iff.mp h
  rw [← map_timed, he, List.map_append, List.map_cons]
  refine claim_of_not_refuses ?_ hrefuses
  intro other hother
  obtain ⟨e, hmem, rfl⟩ := List.mem_map.mp hother
  exact not_not.mp (hbefore e hmem)

section Answers
variable {granted : List TokenType} (hanswer : ∀ type ∈ granted, ∃ r, type.lexis.begins c {} = .ok r)

include hanswer

/-- If no type breaks off, the least of those that take a character is chosen. -/
theorem claim_sorted_of_takes {time : Nat} {scratch : Scratch}
    (h : IsFirst TokenType.rank granted (·.Takes c) time type)
    (hbegins : type.lexis.begins c {} = .ok (true, scratch)) :
    claim (sorted TokenType.rank granted) c column = .ok (type, scratch) := by
  have hfirst : IsFirst TokenType.rank granted (¬·.Refuses c) time type :=
    h.congr fun other ho => TokenType.takes_iff_not_refuses (hanswer other ho)
  rw [claim_sorted hfirst, hbegins]
  rfl

/-- If no type breaks off and none takes a character, it is one of no known type. -/
theorem claim_sorted_of_none (h : ∀ type ∈ granted, ¬type.Takes c) :
    claim (sorted TokenType.rank granted) c column = .error (.ofReason (.unclaimed c column)) := by
  refine claim_of_all_refuse fun type htype => ?_
  have hmem : type ∈ granted := mem_sorted.mp htype
  exact not_not.mp fun hrefuses =>
    h type hmem ((TokenType.takes_iff_not_refuses (hanswer type hmem)).mpr hrefuses)

theorem claim_sorted_eq_ok_iff {scratch : Scratch} :
    claim (sorted TokenType.rank granted) c column = .ok (type, scratch) ↔
      type.lexis.begins c {} = .ok (true, scratch) ∧
        ∃ time, IsFirst TokenType.rank granted (·.Takes c) time type := by
  constructor
  · intro hclaim
    by_cases hsome : ∃ type ∈ granted, type.Takes c
    · obtain ⟨time, type', hfirst⟩ : ∃ time type,
          IsFirst TokenType.rank granted (·.Takes c) time type := exists_isFirst hsome
      obtain ⟨scratch', hbegins⟩ := hfirst.holds
      rw [claim_sorted_of_takes hanswer hfirst hbegins] at hclaim
      cases hclaim
      exact ⟨hbegins, time, hfirst⟩
    · rw [claim_sorted_of_none hanswer (by simpa using hsome)] at hclaim
      cases hclaim
  · rintro ⟨hbegins, time, hfirst⟩
    exact claim_sorted_of_takes hanswer hfirst hbegins

theorem claim_sorted_unknown_iff :
    (∃ f, claim (sorted TokenType.rank granted) c column = .error (.failure f) ∧
        f.code = ErrorCode.unknownType.toInt) ↔ ∀ type ∈ granted, ¬type.Takes c := by
  constructor
  · rintro ⟨f, hclaim, -⟩ type hmem htakes
    obtain ⟨time, type', hfirst⟩ : ∃ time type,
        IsFirst TokenType.rank granted (·.Takes c) time type := exists_isFirst ⟨type, hmem, htakes⟩
    obtain ⟨scratch, hbegins⟩ := hfirst.holds
    rw [claim_sorted_of_takes hanswer hfirst hbegins] at hclaim
    cases hclaim
  · exact fun h => ⟨_, claim_sorted_of_none hanswer h, rfl⟩

end Answers

/-- **Which type is chosen.**  After any registrations, the types stand in the order of the stable sort by
priority of those that were granted.  A registration is refused exactly if it names no type or gives a
negative priority, and it changes nothing then.  About each character, of the types that do not refuse it
the one decides that is least in priority and time: it takes the character or breaks off.  So if no type
breaks off, the character falls to the least of the types that take it, and it fails as one of no known
type exactly if there is none. -/
theorem choice_of_registrations (qs : List TypeRequest) (c : Char) (column : Nat) :
    (TypeRegistry.filled qs).types =
        (qs.filterMap TypeRequest.granted?).mergeSort (fun a b => a.rank ≤ b.rank) ∧
      (∀ q : TypeRequest, (q.granted? = none ↔
          ∃ e, (TypeRegistry.filled qs).register q.name q.lexis q.priority = .error e) ∧
        (q.granted? = none → TypeRegistry.filled (qs ++ [q]) = TypeRegistry.filled qs)) ∧
      (∀ time type,
        IsFirst TokenType.rank (qs.filterMap TypeRequest.granted?) (¬·.Refuses c) time type →
          claim (TypeRegistry.filled qs).types c column =
            (type.lexis.begins c {}).map fun r => (type, r.2)) ∧
      ((∀ type ∈ qs.filterMap TypeRequest.granted?, ∃ r, type.lexis.begins c {} = .ok r) →
        (∀ type scratch, claim (TypeRegistry.filled qs).types c column = .ok (type, scratch) ↔
          type.lexis.begins c {} = .ok (true, scratch) ∧
            ∃ time, IsFirst TokenType.rank (qs.filterMap TypeRequest.granted?) (·.Takes c) time type) ∧
        ((∃ f, claim (TypeRegistry.filled qs).types c column = .error (.failure f) ∧
            f.code = ErrorCode.unknownType.toInt) ↔
          ∀ type ∈ qs.filterMap TypeRequest.granted?, ¬type.Takes c)) := by
  rw [TypeRegistry.types_filled]
  refine ⟨rfl, fun q => ⟨(TypeRegistry.register_eq_error_iff _).symm, fun h => ?_⟩,
    fun time type h => claim_sorted h, fun hanswer => ⟨fun type scratch => ?_, ?_⟩⟩
  · rw [TypeRegistry.filled_concat, TypeRegistry.afterRequest_of_not_granted h]
  · exact claim_sorted_eq_ok_iff hanswer
  · exact claim_sorted_unknown_iff hanswer

/-- Of three types that take the letter, the one that came first is tried last, and of the other two, which
tie, the one that came first decides; the type without a name is not there. -/
theorem choice_of_registrations_tied :
    claim (TypeRegistry.filled [⟨.text "late", Token.bool.lexis, some 5⟩, ⟨.text "", Token.bool.lexis, some 0⟩,
        ⟨.text "early", Token.bool.lexis, some 1⟩, ⟨.text "tied", Token.bool.lexis, some 1⟩]).types 't' 4 =
      .ok (⟨"early", Token.bool.lexis, some 1⟩, {}) := by
  obtain ⟨-, -, -, hchoice⟩ := choice_of_registrations [⟨.text "late", Token.bool.lexis, some 5⟩,
    ⟨.text "", Token.bool.lexis, some 0⟩, ⟨.text "early", Token.bool.lexis, some 1⟩,
    ⟨.text "tied", Token.bool.lexis, some 1⟩] 't' 4
  refine ((hchoice fun type htype => ?_).1 _ _).mpr ⟨rfl, 1, rfl, ⟨{}, rfl⟩, ?_⟩
  · obtain rfl | rfl | rfl : type = ⟨"late", Token.bool.lexis, some 5⟩ ∨
        type = ⟨"early", Token.bool.lexis, some 1⟩ ∨ type = ⟨"tied", Token.bool.lexis, some 1⟩ := by
      simpa [TypeRequest.granted?] using htype
    all_goals exact ⟨_, rfl⟩
  · intro time type hcame _
    rw [key, key, Prod.Lex.toLex_le_toLex]
    rcases time with _ | _ | _ | time
    · cases hcame
      exact .inl (by decide)
    · cases hcame
      exact .inr ⟨rfl, by decide⟩
    · cases hcame
      exact .inr ⟨rfl, by decide⟩
    · cases hcame

end Line

end CommandBatch
