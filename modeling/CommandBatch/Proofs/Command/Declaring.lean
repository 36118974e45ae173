import CommandBatch.Command.Parameter
import CommandBatch.Proofs.Text.LowerCase
import CommandBatch.Proofs.Text.Margins
import CommandBatch.Proofs.Text.Words
import CommandBatch.Registry.Types
import CommandBatch.Token.Array

/-!
# Declarations of parameters

A declaration lists names of types between bars, with a question mark in front of them where the argument may be
left out.  It is read in lower case, while a type keeps the name under which it is registered, and so do the
values of the type.  So what a parameter accepts are the types whose names are lower-case forms of listed ones
(`accepts_declared`): the listed types where their names have no capital letters, but no type whose name has one
(`listed_capital_refused`).
-/

namespace CommandBatch.Parameter

open Text

/-! ### What a declaration says -/

/-- The name of a type in a declaration, with the blanks around it. -/
structure Mention where
  left : List Char := []
  name : String
  right : List Char := []

namespace Mention

/-- The name between its blanks. -/
def text (m : Mention) : List Char := m.left ++ m.name.toList ++ m.right

/-- Some registration of a type of this name is granted, and nothing in the name is a mark of declarations. -/
structure Proper (m : Mention) : Prop where
  left : ∀ c ∈ m.left, isBlank c = true
  right : ∀ c ∈ m.right, isBlank c = true
  registered : ∃ (r r' : TypeRegistry) (lexis : Lexis) (priority : Option Int),
    r.register (.text m.name) lexis priority = .ok r'
  unmarked : ∀ c ∈ m.name.toList, parts c = false

end Mention

/-- The declaration that lists these mentions. -/
def declaring (optional : Bool) (ms : List Mention) : List Char :=
  (if optional then ['?'] else []) ++ ['|'].intercalate (ms.map Mention.text)

/-! ### Names in lower case -/

/-- No type without a name is registered. -/
theorem name_ne_nil_of_register {r r' : TypeRegistry} {name : String} {lexis : Lexis} {priority : Option Int}
    (h : r.register (.text name) lexis priority = .ok r') : name.toList ≠ [] := by
  intro hnil
  obtain rfl : name = "" := String.toList_injective hnil
  simp [TypeRegistry.register, TypeRegistry.accept, Except.map] at h

theorem parts_of_isBlank {c : Char} (h : isBlank c = true) : parts c = true := by simp [parts, h]

theorem not_isBlank_of_parts {c : Char} (h : parts c = false) : isBlank c = false := by
  simp only [parts, Bool.or_eq_false_iff] at h
  exact h.1.1

namespace Mention

variable {m : Mention}

theorem Proper.lowered (h : m.Proper) :
    lowerList m.text = m.left ++ lowerList m.name.toList ++ m.right :=
  lowerList_between (fun c hc => parts_of_isBlank (h.left c hc)) (fun c hc => parts_of_isBlank (h.right c hc)) _

theorem Proper.unmarked_lowered (h : m.Proper) : ∀ c ∈ lowerList m.name.toList, parts c = false :=
  parts_of_mem_lowerFrom h.unmarked []

theorem Proper.lowered_ne_nil (h : m.Proper) : lowerList m.name.toList ≠ [] := by
  obtain ⟨r, r', lexis, priority, hregister⟩ := h.registered
  exact lowerFrom_ne_nil (name_ne_nil_of_register hregister) []

theorem Proper.trim_lowered (h : m.Proper) : trim (lowerList m.text) = lowerList m.name.toList := by
  rw [h.lowered]
  rw [trim_between h.left h.right]
  exact trim_eq_self_of_forall fun c hc => not_isBlank_of_parts (h.unmarked_lowered c hc)

/-- A mark that parts words but is no blank does not occur in a mention, and not in its lower-case form. -/
theorem Proper.not_mem {mark : Char} (h : m.Proper) (hparts : parts mark = true) (hblank : isBlank mark = false) :
    mark ∉ lowerList m.text := by
  rw [h.lowered, List.mem_append, List.mem_append]
  rintro ((hmem | hmem) | hmem)
  · simp [h.left mark hmem] at hblank
  · simp [h.unmarked_lowered mark hmem] at hparts
  · simp [h.right mark hmem] at hblank

end Mention

/-! ### Reading a declaration -/

theorem splitOptional_of_head {cs : List Char} (h : cs.head? ≠ some '?') : splitOptional cs = (false, cs) := by
  unfold splitOptional
  split
  · exact absurd rfl h
  · rfl

theorem splitOptional_fst {cs : List Char} : (splitOptional cs).1 = true ↔ cs.head? = some '?' := by
  by_cases h : cs.head? = some '?'
  · obtain ⟨ds, rfl⟩ := List.head?_eq_some_iff.mp h
    simp [splitOptional]
  · simp [splitOptional_of_head h, h]

/-- A question mark in front of a declaration, and nothing else, makes the argument one that may be left out. -/
theorem optional_iff {text : String} {p : Parameter} (h : parse text = .ok p) :
    p.optional = true ↔ (trim text.toList).head? = some '?' := by
  rw [← head?_lowerList_eq_some_iff (by decide), ← splitOptional_fst]
  simp only [parse] at h
  split at h
  · cases h
  · cases h
    exact Iff.rfl

theorem mem_ascending {name : String} {names : List String} : name ∈ ascending names ↔ name ∈ names := by
  rw [ascending, List.mem_mergeSort, List.mem_eraseDups]

theorem accepts_ascending {names : List String} {optional : Bool} {source type : String} :
    accepts ⟨ascending names, optional, source⟩ type = true ↔ type ∈ names ∨ TypeName.any ∈ names := by
  rw [accepts, acceptsAny, Bool.or_eq_true, List.contains_iff_mem, List.contains_iff_mem, mem_ascending,
    mem_ascending, or_comm]

section

variable {ms : List Mention}

theorem lowerList_declaring (optional : Bool) :
    lowerList (declaring optional ms) =
      (if optional then ['?'] else []) ++ ['|'].intercalate (ms.map fun m => lowerList m.text) := by
  have hbars : lowerList (['|'].intercalate (ms.map Mention.text)) =
      ['|'].intercalate (ms.map fun m => lowerList m.text) := by
    rw [lowerList_intercalate (by decide), List.map_map]
    rfl
  cases optional with
  | false => exact hbars
  | true => exact (lowerList_cons (by decide) _).trans (congrArg ('?' :: ·) hbars)

theorem head?_intercalate_ne (hne : ms ≠ []) (hms : ∀ m ∈ ms, m.Proper) :
    (['|'].intercalate (ms.map fun m => lowerList m.text)).head? ≠ some '?' := by
  obtain ⟨m, ms, rfl⟩ := List.exists_cons_of_ne_nil hne
  have hm := hms m (List.mem_cons_self ..)
  have htext : lowerList m.text ≠ [] := by
    rw [hm.lowered]
    exact List.append_ne_nil_of_left_ne_nil (List.append_ne_nil_of_right_ne_nil _ hm.lowered_ne_nil) _
  have hhead : (lowerList m.text).head? ≠ some '?' := fun h =>
    hm.not_mem (by decide) (by decide) (List.mem_of_mem_head? h)
  cases ms with
  | nil => simpa using hhead
  | cons next ms =>
    rw [List.map_cons, List.map_cons, List.intercalate_cons_cons, List.append_assoc,
      List.head?_append_of_ne_nil _ htext]
    exact hhead

/-- The question mark of a declaration is told from the names. -/
theorem splitOptional_declaring (optional : Bool) (hne : ms ≠ []) (hms : ∀ m ∈ ms, m.Proper) :
    splitOptional (lowerList (declaring optional ms)) =
      (optional, ['|'].intercalate (ms.map fun m => lowerList m.text)) := by
  rw [lowerList_declaring]
  cases optional with
  | false => exact splitOptional_of_head (head?_intercalate_ne hne hms)
  | true => rfl

/-- **The parameter that a declaration declares** has the lower-case forms of the listed names. -/
theorem parse_declaring {text : String} {optional : Bool} (htext : trim text.toList = declaring optional ms)
    (hne : ms ≠ []) (hms : ∀ m ∈ ms, m.Proper) :
    parse text =
      .ok ⟨ascending (ms.map fun m => lower m.name), optional, .ofList (lowerList (trim text.toList))⟩ := by
  have hpieces : (piecesAt '|' (['|'].intercalate (ms.map fun m => lowerList m.text))).map trim =
      ms.map fun m => lowerList m.name.toList := by
    rw [piecesAt_intercalate (by simpa using hne), List.map_map]
    · exact List.map_congr_left fun m hm => (hms m hm).trim_lowered
    · intro piece hpiece
      obtain ⟨m, hm, rfl⟩ := List.mem_map.mp hpiece
      exact (hms m hm).not_mem (by decide) (by decide)
  have hnames : (ms.map fun m => lowerList m.name.toList).any List.isEmpty = false := by
    rw [List.any_map, List.any_eq_false]
    exact fun m hm => by simpa using (hms m hm).lowered_ne_nil
  simp only [parse]
  rw [htext, splitOptional_declaring optional hne hms]
  simp only [hpieces, hnames, List.map_map]
  rfl

end

/-! ### What is accepted -/

/-- **A declared parameter accepts the types whose names are lower-case forms of the listed ones**, or all types if
any is listed; the argument may be left out exactly if the declaration begins with a question mark.  So it accepts
the listed types and no others if their names are in lower case. -/
theorem accepts_declared {text : String} {optional : Bool} {ms : List Mention}
    (htext : trim text.toList = declaring optional ms) (hne : ms ≠ []) (hms : ∀ m ∈ ms, m.Proper) :
    ∃ p, parse text = .ok p ∧ (p.optional = true ↔ (trim text.toList).head? = some '?') ∧
      (∀ v : Value, p.accepts v.type = true ↔
        (∃ m ∈ ms, v.type = lower m.name) ∨ ∃ m ∈ ms, lower m.name = TypeName.any) ∧
      ((∀ m ∈ ms, lower m.name = m.name) → ∀ v : Value, p.accepts v.type = true ↔
        (∃ m ∈ ms, v.type = m.name) ∨ ∃ m ∈ ms, m.name = TypeName.any) := by
  have hparse := parse_declaring htext hne hms
  refine ⟨_, hparse, optional_iff hparse, fun v => ?_, fun hlower v => ?_⟩
  · rw [accepts_ascending, List.mem_map, List.mem_map]
    simp only [eq_comm]
  · have hnames : (ms.map fun m => lower m.name) = ms.map (·.name) := List.map_congr_left hlower
    rw [hnames, accepts_ascending, List.mem_map, List.mem_map]
    simp only [eq_comm]

/-- A type of a host and a standard one, with blanks around their names. -/
def vectorOrNumber : List Mention := [⟨[], "vec", [' ']⟩, ⟨[' '], "number", []⟩]

theorem accepts_declared_union :
    ∃ p, parse " ?vec | number" = .ok p ∧ p.optional = true ∧
      ∀ v : Value, p.accepts v.type = true ↔ v.type = "vec" ∨ v.type = "number" := by
  have htext : trim " ?vec | number".toList = declaring true vectorOrNumber := by decide +kernel
  have hproper : ∀ m ∈ vectorOrNumber, m.Proper := by
    rw [vectorOrNumber, List.forall_mem_cons, List.forall_mem_singleton]
    exact ⟨⟨by decide, by decide, ⟨{}, _, Token.tensorLexis, none, rfl⟩, by decide +kernel⟩,
      ⟨by decide, by decide, ⟨{}, _, Token.tensorLexis, none, rfl⟩, by decide +kernel⟩⟩
  obtain ⟨p, hparse, hoptional, -, haccepts⟩ := accepts_declared htext (List.cons_ne_nil _ _) hproper
  refine ⟨p, hparse, hoptional.mpr (by decide +kernel), fun v => ?_⟩
  rw [haccepts (by decide +kernel)]
  simp [vectorOrNumber, TypeName.any]

/-- **A type whose name has a capital letter is registered, listed and refused**; what is accepted in its place is
not listed. -/
theorem listed_capital_refused :
    (∃ r, TypeRegistry.register {} (.text "Vec") Token.tensorLexis none = .ok r ∧ r.has "Vec" = true) ∧
      (∀ c ∈ "Vec".toList, parts c = false) ∧
      ∃ p, parse "Vec" = .ok p ∧ p.accepts "Vec" = false ∧ p.accepts "vec" = true := by
  have htext : trim "Vec".toList = declaring false [⟨[], "Vec", []⟩] := by decide +kernel
  have hproper : ∀ m ∈ [⟨[], "Vec", []⟩], Mention.Proper m := by
    rw [List.forall_mem_singleton]
    exact ⟨by decide, by decide, ⟨{}, _, Token.tensorLexis, none, rfl⟩, by decide +kernel⟩
  have hlower : lower "Vec" = "vec" := by decide +kernel
  refine ⟨⟨_, rfl, by decide +kernel⟩, by decide +kernel, _,
    parse_declaring htext (List.cons_ne_nil _ _) hproper, ?_, ?_⟩
  · rw [Bool.eq_false_iff, Ne, accepts_ascending]
    simp [hlower, TypeName.any]
  · rw [accepts_ascending]
    simp [hlower]

end CommandBatch.Parameter
