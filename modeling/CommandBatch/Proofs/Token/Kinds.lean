import CommandBatch.Proofs.Line.Segmentation
import CommandBatch.Proofs.Tensor.Shape
import CommandBatch.Proofs.Token.Meaning
import CommandBatch.Token.Array
import Mathlib.Data.Nat.Digits.Lemmas

/-!
# What arguments are

Which data a value of each type may have (`Datum.OfType`).  A type either refuses a text, or makes a value
of it that is concrete or, if the type is that of references, the name of a variable.  So this holds of
every argument of a line that is read (`concrete_or_name_of_read`), whatever marks the line is read by and
in whatever order the types are tried.
-/

namespace CommandBatch

open Text Decimal Token

/-- The datum is one that a variable of the type may hold. -/
inductive Datum.OfType : String → Datum → Prop
  | whole {i : Int} (hdigits : (Nat.toDigits 10 i.natAbs).length ≤ digitLimit) :
      OfType TypeName.number (.whole i)
  | float (x : Float) : OfType TypeName.number (.float x)
  | bool (b : Bool) : OfType TypeName.bool (.bool b)
  | symbol {op : String} (hop : op ∈ operators) : OfType TypeName.symbol (.text op)
  | string (s : String) : OfType TypeName.string (.text s)
  | tensor {t : Tensor} (ht : t.WellShaped) : OfType TypeName.tensor (.tensor t)

theorem Datum.OfType.type_not_mem {type : String} {d : Datum} (h : d.OfType type) :
    type ∉ [TypeName.reference, TypeName.any, TypeName.error] := by
  cases h <;> decide

namespace Value

/-- The value has one of the types that data have, and a datum of this type. -/
def IsConcrete (v : Value) : Prop := v.datum.OfType v.type

/-- The value is the sigil and the name of a variable. -/
def IsName (v : Value) : Prop :=
  v.type = TypeName.reference ∧ ∃ name, v.datum = .text name ∧ Token.isReference name.toList = true

/-- A concrete value is neither a reference nor refused, and no value has the type of all. -/
theorem IsConcrete.type_not_mem {v : Value} (h : v.IsConcrete) :
    v.type ∉ [TypeName.reference, TypeName.any, TypeName.error] :=
  Datum.OfType.type_not_mem h

end Value

namespace Token

/-! ## Each type -/

/-- A whole number that is read has no more digits than it is written with. -/
theorem length_toDigits_ofDigits {digits : List Char}
    (hlimit : (digits.filterMap digitValue?).length ≤ digitLimit) :
    (Nat.toDigits 10 (ofDigits (digits.filterMap digitValue?))).length ≤ digitLimit := by
  have hlt : ∀ d ∈ (digits.filterMap digitValue?).reverse, d < 10 := by
    intro d hd
    obtain ⟨c, -, hc⟩ := List.mem_filterMap.mp (List.mem_reverse.mp hd)
    exact digitValue?_lt hc
  have hlength : (digits.filterMap digitValue?).reverse.length ≤ digitLimit := by
    rwa [List.length_reverse]
  refine Nat.toDigits_length 10 _ _ (by decide) ?_
  rw [ofDigits_eq]
  exact (Nat.ofDigits_lt_base_pow_length (by decide) hlt).trans_le
    (Nat.pow_le_pow_right (by decide) hlength)

theorem ofType_numeral {cs : List Char} {d : Datum} (h : numeral? cs = .ok (some d)) :
    d.OfType TypeName.number := by
  rcases numeral?_cases.mp h with ⟨negative, digits, -, -, -, hlimit, rfl⟩ | ⟨_, _, _, -, -, -, -, rfl⟩
  · refine .whole ?_
    have hsign (n : Nat) : (signed negative n).natAbs = n := by cases negative <;> simp [signed]
    rw [hsign]
    exact length_toDigits_ofDigits ((List.length_filterMap_le ..).trans hlimit)
  · exact .float _

/-- The operators that begin with a minus sign come out as symbols. -/
theorem concrete_parseNumber {literal : String} {v : Value} (h : parseNumber literal = .ok v)
    (herror : v.isError = false) : v.IsConcrete := by
  rcases parseNumber_eq_ok_iff.mp ⟨h, herror⟩ with ⟨hop, rfl⟩ | ⟨d, hd, rfl⟩
  · exact .symbol hop
  · exact ofType_numeral (numeral?_eq_ok_iff.mpr hd)

theorem concrete_parseBool {literal : String} (herror : (parseBool literal).isError = false) :
    (parseBool literal).IsConcrete := by
  unfold parseBool at herror ⊢
  dsimp only at herror ⊢
  split_ifs at herror ⊢
  · exact .bool true
  · exact .bool false
  · cases herror

theorem concrete_parseSymbol {literal : String} (herror : (parseSymbol literal).isError = false) :
    (parseSymbol literal).IsConcrete := by
  unfold parseSymbol at herror ⊢
  dsimp only at herror ⊢
  split_ifs at herror ⊢ with hop
  · exact .symbol (List.contains_iff_mem.mp hop)
  · cases herror

theorem concrete_parseString {literal : String} (herror : (parseString literal).isError = false) :
    (parseString literal).IsConcrete := by
  unfold parseString at herror ⊢
  dsimp only at herror ⊢
  cases hinside : insideQuotes? (strip literal).toList with
  | some body => exact .string _
  | none =>
    rw [hinside] at herror
    cases herror

theorem isName_parseReference {literal : String} (herror : (parseReference literal).isError = false) :
    (parseReference literal).IsName := by
  unfold parseReference at herror ⊢
  dsimp only at herror ⊢
  split_ifs at herror ⊢ with hname
  · exact ⟨rfl, _, rfl, hname⟩
  · cases herror

theorem concrete_parseTensor {literal : String} (herror : (parseTensor literal).isError = false) :
    (parseTensor literal).IsConcrete := by
  unfold parseTensor at herror ⊢
  dsimp only at herror ⊢
  cases hread : Tensor.read? (strip literal).toList with
  | some t => exact .tensor (Tensor.wellShaped_of_read hread)
  | none =>
    rw [hread] at herror
    cases herror

theorem value_inj {u v : Value}
    (h : (Except.ok (.value u) : Except Fault Reading) = .ok (.value v)) : u = v :=
  Reading.value.inj (Except.ok.inj h)

/-- **A type makes a concrete value of a text, or the name of a variable, or refuses it.** -/
theorem concrete_or_name_of_parse {type : TokenType} (htype : type ∈ tensor :: defaults)
    {literal : String} {v : Value} (h : type.lexis.parse literal = .ok (.value v))
    (herror : v.isError = false) : v.IsConcrete ∨ v.IsName := by
  simp only [defaults, List.mem_cons, List.not_mem_nil, or_false] at htype
  rcases htype with rfl | rfl | rfl | rfl | rfl | rfl
  · obtain rfl : parseTensor literal = v := value_inj h
    exact .inl (concrete_parseTensor herror)
  · exact .inl (concrete_parseNumber (parse_number_eq_ok_iff.mp h) herror)
  · obtain rfl : parseBool literal = v := value_inj h
    exact .inl (concrete_parseBool herror)
  · obtain rfl : parseSymbol literal = v := value_inj h
    exact .inl (concrete_parseSymbol herror)
  · obtain rfl : parseString literal = v := value_inj h
    exact .inl (concrete_parseString herror)
  · obtain rfl : parseReference literal = v := value_inj h
    exact .inr (isName_parseReference herror)

end Token

/-! ## Lines -/

/-- **Every argument of a line is concrete or the name of a variable.** -/
theorem Line.concrete_or_name_of_read {types : List TokenType}
    (htypes : ∀ type ∈ types, type ∈ tensor :: defaults) {marks : Marks} {text : String} {l : Line}
    (h : Line.read types marks text = .ok l) : ∀ v ∈ l.args, v.IsConcrete ∨ v.IsName := by
  intro v hv
  obtain ⟨word, rest, c, cs, type, scratch, u, -, -, hclaims, -, hparse, herror, rfl⟩ :=
    Line.isArgument_of_read h hv
  have hu : u.IsConcrete ∨ u.IsName := concrete_or_name_of_parse (htypes type hclaims.mem) hparse herror
  exact hu

end CommandBatch
