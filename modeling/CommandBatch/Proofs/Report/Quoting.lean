import CommandBatch.Report.Json
import Mathlib.Data.List.Basic

/-!
# Reading quoted texts

A text between the quotes of a structured report is written in ASCII, and can be read back (`readQuoted_escaped`).
It is read by way of its UTF-16 units, since a character beyond the first plane is written by two escapes, each
for half a pair: the units of the escapes are the units of the characters (`readUnits_escapeChar`), and these
determine the characters (`ofUnits_units`).
-/

namespace CommandBatch.Report

open Text

/-! ## UTF-16 units -/

/-- The units of a character: one, or the two halves of a pair. -/
def units (c : Char) : List Nat :=
  let n := c.toNat
  if n < 0x10000 then [n] else [0xD800 + (n - 0x10000) / 0x400, 0xDC00 + (n - 0x10000) % 0x400]

/-- The units are the halves of a pair. -/
def IsPair (high low : Nat) : Prop := 0xD800 ≤ high ∧ high < 0xDC00 ∧ 0xDC00 ≤ low ∧ low < 0xE000

instance (high low : Nat) : Decidable (IsPair high low) := inferInstanceAs (Decidable (_ ∧ _))

/-- The characters that units stand for. -/
def ofUnits : List Nat → List Char
  | [] => []
  | [unit] => [Char.ofNat unit]
  | high :: low :: us =>
    if IsPair high low then Char.ofNat (0x10000 + (high - 0xD800) * 0x400 + (low - 0xDC00)) :: ofUnits us
    else Char.ofNat high :: ofUnits (low :: us)

/-- No character is half a pair. -/
theorem toNat_bounds (c : Char) : c.toNat < 0xD800 ∨ 0xE000 ≤ c.toNat ∧ c.toNat < 0x110000 := by
  rcases c.valid with h | ⟨hlow, hhigh⟩
  · exact .inl h
  · exact .inr ⟨hlow, hhigh⟩

theorem ofUnits_units (c : Char) (us : List Nat) : ofUnits (units c ++ us) = c :: ofUnits us := by
  have hc : Char.ofNat c.toNat = c := Char.ofNat_toNat c
  have hbounds := toNat_bounds c
  unfold units
  dsimp only
  by_cases h : c.toNat < 0x10000
  · rw [if_pos h]
    cases us with
    | nil => exact congrArg (fun d => [d]) hc
    | cons low us =>
      have hpair : ¬IsPair c.toNat low := by
        unfold IsPair
        omega
      rw [List.singleton_append, ofUnits, if_neg hpair, hc]
  · have hpair : IsPair (0xD800 + (c.toNat - 0x10000) / 0x400) (0xDC00 + (c.toNat - 0x10000) % 0x400) := by
      unfold IsPair
      omega
    have hn : 0x10000 + (0xD800 + (c.toNat - 0x10000) / 0x400 - 0xD800) * 0x400 +
        (0xDC00 + (c.toNat - 0x10000) % 0x400 - 0xDC00) = c.toNat := by omega
    rw [if_neg h, List.cons_append, List.singleton_append, ofUnits, if_pos hpair, hn, hc]

theorem ofUnits_flatMap_units (cs : List Char) : ofUnits (cs.flatMap units) = cs := by
  induction cs with
  | nil => rfl
  | cons c cs ih => rw [List.flatMap_cons, ofUnits_units, ih]

/-! ## Hexadecimal numbers -/

/-- The value of a hexadecimal digit. -/
def hexDigit? (c : Char) : Option Nat := (List.range 16).find? fun d => Nat.digitChar d = c.toLower

/-- The number that hexadecimal digits write behind a number. -/
def hexFrom (n : Nat) (cs : List Char) : Option Nat := cs.foldlM (fun n c => (hexDigit? c).map (16 * n + ·)) n

theorem hexDigit?_digitChar : ∀ d < 16, hexDigit? (Nat.digitChar d) = some d := by decide

theorem hexFrom_append (n : Nat) (cs cs' : List Char) :
    hexFrom n (cs ++ cs') = (hexFrom n cs).bind fun m => hexFrom m cs' := List.foldlM_append

theorem hexFrom_digitChar (n : Nat) {d : Nat} (h : d < 16) : hexFrom n [Nat.digitChar d] = some (16 * n + d) := by
  simp [hexFrom, hexDigit?_digitChar d h]

theorem hexFrom_toDigits (n : Nat) : hexFrom 0 (Nat.toDigits 16 n) = some n := by
  induction n using Nat.strongRecOn with
  | ind n ih =>
    by_cases h : n < 16
    · rw [Nat.toDigits_of_lt_base h, hexFrom_digitChar 0 h]
      simp
    · have hrest : hexFrom 0 (Nat.toDigits 16 (n / 16)) = some (n / 16) := ih (n / 16) (by omega)
      have hlast : n % 16 < 16 := Nat.mod_lt n (by decide)
      rw [Nat.toDigits_of_base_le (by decide) (by omega), hexFrom_append, hrest, Option.bind_some,
        hexFrom_digitChar _ hlast]
      congr 1
      omega

theorem hexFrom_zeros (count : Nat) : hexFrom 0 (List.replicate count '0') = some 0 := by
  have hzero : hexFrom 0 ['0'] = some 0 := hexFrom_digitChar 0 (d := 0) (by decide)
  induction count with
  | zero => rfl
  | succ count ih => rw [List.replicate_succ, ← List.singleton_append, hexFrom_append, hzero, Option.bind_some, ih]

theorem hexFrom_hexDigits (width n : Nat) : hexFrom 0 (hexDigits width n) = some n := by
  unfold hexDigits
  dsimp only
  rw [hexFrom_append, hexFrom_zeros, Option.bind_some, hexFrom_toDigits]

theorem length_hexDigits {n : Nat} (h : n < 0x10000) : (hexDigits 4 n).length = 4 := by
  have hle : (Nat.toDigits 16 n).length ≤ 4 := (Nat.length_toDigits_le_iff (by decide) (by decide)).mpr h
  unfold hexDigits
  rw [List.length_append, List.length_replicate]
  omega

/-! ## Quoted texts -/

/-- The unit that a character behind a backslash stands for. -/
def shortEscape? (c : Char) : Option Nat :=
  match c with
  | '"' | '\\' | '/' => some c.toNat
  | 'b' => some 8
  | 't' => some 9
  | 'n' => some 10
  | 'f' => some 12
  | 'r' => some 13
  | _ => none

/-- The units of a text up to its quote, and what follows the quote. -/
def readUnits : List Char → Option (List Nat × List Char)
  | [] => none
  | '"' :: rest => some ([], rest)
  | '\\' :: 'u' :: c₁ :: c₂ :: c₃ :: c₄ :: rest => do
    let unit ← hexFrom 0 [c₁, c₂, c₃, c₄]
    (readUnits rest).map fun p => (unit :: p.1, p.2)
  | '\\' :: c :: rest => do
    let unit ← shortEscape? c
    (readUnits rest).map fun p => (unit :: p.1, p.2)
  | c :: rest => (readUnits rest).map fun p => (units c ++ p.1, p.2)

/-- A text up to its quote, and what follows the quote. -/
def readQuoted (cs : List Char) : Option (String × List Char) :=
  (readUnits cs).map fun p => (.ofList (ofUnits p.1), p.2)

theorem readUnits_unitText {n : Nat} (h : n < 0x10000) (rest : List Char) :
    readUnits (unitText n ++ rest) = (readUnits rest).map fun p => (n :: p.1, p.2) := by
  have hlength : (hexDigits 4 n).length = 4 := length_hexDigits h
  have hvalue : hexFrom 0 (hexDigits 4 n) = some n := hexFrom_hexDigits 4 n
  obtain ⟨c₁, c₂, c₃, c₄, hdigits⟩ : ∃ c₁ c₂ c₃ c₄, hexDigits 4 n = [c₁, c₂, c₃, c₄] :=
    List.length_eq_four.mp hlength
  rw [hdigits] at hvalue
  show readUnits ('\\' :: 'u' :: (hexDigits 4 n ++ rest)) = _
  rw [hdigits]
  show (hexFrom 0 [c₁, c₂, c₃, c₄]).bind (fun unit => (readUnits rest).map fun p => (unit :: p.1, p.2)) = _
  rw [hvalue, Option.bind_some]

theorem readUnits_short {e : Char} {n : Nat} (h : shortEscape? e = some n) (rest : List Char) :
    readUnits ('\\' :: e :: rest) = (readUnits rest).map fun p => (n :: p.1, p.2) := by
  have hu : e ≠ 'u' := by
    rintro rfl
    cases h
  rw [readUnits.eq_def]
  split
  · next heq => cases heq
  · next heq => cases heq
  · next heq =>
    cases heq
    exact absurd rfl hu
  · next heq =>
    cases heq
    rw [h]
    rfl
  · next hshort heq =>
    cases heq
    exact (hshort e rest rfl rfl).elim

theorem readUnits_plain {c : Char} (hquote : c ≠ '"') (hslash : c ≠ '\\') (rest : List Char) :
    readUnits (c :: rest) = (readUnits rest).map fun p => (units c ++ p.1, p.2) := by
  rw [readUnits.eq_def]
  split
  · next heq => cases heq
  · next heq =>
    cases heq
    exact absurd rfl hquote
  · next heq =>
    cases heq
    exact absurd rfl hslash
  · next heq =>
    cases heq
    exact absurd rfl hslash
  · next heq =>
    cases heq
    rfl

/-- A character is written by a short escape, by itself, or by its units. -/
theorem escapeChar_cases (c : Char) :
    (∃ e, escapeChar c = ['\\', e] ∧ shortEscape? e = some c.toNat ∧ units c = [c.toNat]) ∨
      (escapeChar c = [c] ∧ c ≠ '"' ∧ c ≠ '\\') ∨ escapeChar c = (units c).flatMap unitText := by
  unfold escapeChar
  dsimp only
  by_cases hmark : (c = '"' || c = '\\') = true
  · rw [if_pos hmark]
    rcases Bool.or_eq_true_iff.mp hmark with h | h
    · obtain rfl : c = '"' := of_decide_eq_true h
      exact .inl ⟨'"', rfl, rfl, rfl⟩
    · obtain rfl : c = '\\' := of_decide_eq_true h
      exact .inl ⟨'\\', rfl, rfl, rfl⟩
  rw [if_neg hmark]
  by_cases hline : c = '\n'
  · subst hline
    exact .inl ⟨'n', rfl, rfl, rfl⟩
  rw [if_neg hline]
  by_cases hreturn : c = '\r'
  · subst hreturn
    exact .inl ⟨'r', rfl, rfl, rfl⟩
  rw [if_neg hreturn]
  by_cases htab : c = '\t'
  · subst htab
    exact .inl ⟨'t', rfl, rfl, rfl⟩
  rw [if_neg htab]
  by_cases hback : c.toNat = 8
  · rw [if_pos hback]
    exact .inl ⟨'b', rfl, by rw [hback]; rfl, if_pos (by omega)⟩
  rw [if_neg hback]
  by_cases hfeed : c.toNat = 12
  · rw [if_pos hfeed]
    exact .inl ⟨'f', rfl, by rw [hfeed]; rfl, if_pos (by omega)⟩
  rw [if_neg hfeed]
  by_cases hplain : (0x20 ≤ c.toNat && c.toNat < 0x7F) = true
  · rw [if_pos hplain]
    simp only [Bool.or_eq_true, decide_eq_true_eq, not_or] at hmark
    exact .inr (.inl ⟨rfl, hmark⟩)
  rw [if_neg hplain]
  refine .inr (.inr ?_)
  unfold units
  by_cases hfirst : c.toNat < 0x10000
  · rw [if_pos hfirst, if_pos hfirst, List.flatMap_singleton]
  · rw [if_neg hfirst, if_neg hfirst, List.flatMap_cons, List.flatMap_singleton]

theorem units_lt {c : Char} {unit : Nat} (h : unit ∈ units c) : unit < 0x10000 := by
  have hbounds := toNat_bounds c
  unfold units at h
  dsimp only at h
  by_cases hfirst : c.toNat < 0x10000
  · rw [if_pos hfirst, List.mem_singleton] at h
    omega
  · rw [if_neg hfirst] at h
    rcases List.mem_cons.mp h with h | h
    · omega
    · rw [List.mem_singleton] at h
      omega

theorem readUnits_flatMap_unitText {us : List Nat} (h : ∀ unit ∈ us, unit < 0x10000) (rest : List Char) :
    readUnits (us.flatMap unitText ++ rest) = (readUnits rest).map fun p => (us ++ p.1, p.2) := by
  induction us with
  | nil => exact Option.map_id'.symm
  | cons unit us ih =>
    have hrest := ih fun other hother => h other (List.mem_cons_of_mem _ hother)
    rw [List.flatMap_cons, List.append_assoc, readUnits_unitText (h unit (List.mem_cons_self ..)), hrest,
      Option.map_map]
    rfl

theorem readUnits_escapeChar (c : Char) (rest : List Char) :
    readUnits (escapeChar c ++ rest) = (readUnits rest).map fun p => (units c ++ p.1, p.2) := by
  rcases escapeChar_cases c with ⟨e, htext, he, hunits⟩ | ⟨htext, hquote, hslash⟩ | htext
  · rw [htext, hunits]
    exact readUnits_short he rest
  · rw [htext]
    exact readUnits_plain hquote hslash rest
  · rw [htext]
    exact readUnits_flatMap_unitText (fun _ => units_lt) rest

/-- What is written between quotes is read up to the quote. -/
theorem readQuoted_escaped (s : String) (rest : List Char) :
    readQuoted (s.toList.flatMap escapeChar ++ '"' :: rest) = some (s, rest) := by
  have hunits (cs : List Char) :
      readUnits (cs.flatMap escapeChar ++ '"' :: rest) = some (cs.flatMap units, rest) := by
    induction cs with
    | nil => rfl
    | cons c cs ih =>
      rw [List.flatMap_cons, List.append_assoc, readUnits_escapeChar, ih]
      rfl
  rw [readQuoted, hunits, Option.map_some, ofUnits_flatMap_units, String.ofList_toList]

end CommandBatch.Report
