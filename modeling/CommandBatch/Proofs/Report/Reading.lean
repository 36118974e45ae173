import CommandBatch.Proofs.Report.Quoting
import CommandBatch.Proofs.Token.Integers

/-!
# Reading structured reports

The text of a structured report can be read: a reader finds the report in it again (`read?_pretty`), so no two
reports have the same text.  The reader passes over blanks between the parts and follows the brackets; its only
bound is on how deep they stand in each other, and no text holds more brackets than characters.
What a list and a record have in common is the series of items between brackets, which is read if each item is
(`readBracketed_bracketed`).
-/

namespace CommandBatch.Report

open Text Decimal Token

/-- A reader of something in front of a text: it also says what follows. -/
abbrev Reader (α : Type) := List Char → Option (α × List Char)

/-! ## Whole numbers -/

/-- The whole number in front of a text. -/
def readWhole : Reader Int := fun cs =>
  let (negative, body) := splitMinus cs
  let digits := body.takeWhile Char.isDigit
  if digits = [] then none else some (signed negative (wholeOf digits), body.dropWhile Char.isDigit)

/-- What follows does not go on with a number. -/
def Stops (rest : List Char) : Prop := ∀ c ∈ rest.head?, c.isDigit = false

theorem stops_nil : Stops [] := fun _ h => nomatch h

theorem stops_cons {c : Char} (h : c.isDigit = false) (rest : List Char) : Stops (c :: rest) := by
  intro d hd
  rw [← Option.some.inj hd]
  exact h

theorem Stops.takeWhile {rest : List Char} (h : Stops rest) :
    rest.takeWhile Char.isDigit = [] ∧ rest.dropWhile Char.isDigit = rest := by
  cases rest with
  | nil => exact ⟨rfl, rfl⟩
  | cons c rest =>
    have hc : c.isDigit = false := h c rfl
    simp [hc]

/-- A number is read back. -/
theorem readWhole_canonical (n : Int) {rest : List Char} (h : Stops rest) :
    readWhole (canonical n ++ rest) = some (n, rest) := by
  have hdigits : ∀ c ∈ Nat.toDigits 10 n.natAbs, c.isDigit = true := isDigit_of_mem_toDigits
  have hne : Nat.toDigits 10 n.natAbs ≠ [] := Nat.toDigits_ne_nil
  have hhead : (Nat.toDigits 10 n.natAbs ++ rest).head? ≠ some '-' := by
    rw [List.head?_append_of_ne_nil _ hne]
    exact head?_ne_of_isDecimalDigit isDecimalDigit_of_mem_toDigits (by decide)
  have htaken : (Nat.toDigits 10 n.natAbs ++ rest).takeWhile Char.isDigit = Nat.toDigits 10 n.natAbs := by
    rw [List.takeWhile_append_of_pos hdigits, h.takeWhile.1, List.append_nil]
  have hleft : (Nat.toDigits 10 n.natAbs ++ rest).dropWhile Char.isDigit = rest := by
    rw [List.dropWhile_append_of_pos hdigits, h.takeWhile.2]
  unfold readWhole canonical
  rw [List.append_assoc, splitMinus_minus _ hhead]
  dsimp only
  rw [htaken, hleft, if_neg hne, wholeOf_toDigits, signed_natAbs]

/-! ## Brackets -/

/-- A blank between the parts of a report. -/
def isGap (c : Char) : Bool := c = ' ' || c = '\n' || c = '\r' || c = '\t'

/-- A text without the blanks in front. -/
def skip (cs : List Char) : List Char := cs.dropWhile isGap

/-- What follows a character, which has to come next. -/
def expect (c : Char) (cs : List Char) : Option (List Char) :=
  match skip cs with
  | [] => none
  | d :: rest => if d = c then some rest else none

variable {α : Type}

/-- At most so many items with commas between them, up to a closing bracket. -/
def readSeries (read : Reader α) (closing : Char) : Nat → Reader (List α)
  | 0, _ => none
  | bound + 1, cs => (read cs).bind fun p =>
    match expect ',' p.2 with
    | some rest => (readSeries read closing bound rest).map fun q => (p.1 :: q.1, q.2)
    | none => (expect closing p.2).map fun rest => ([p.1], rest)

/-- Items behind an opening bracket, up to the closing one. -/
def readBracketed (read : Reader α) (closing : Char) : Reader (List α) := fun cs =>
  match expect closing cs with
  | some rest => some ([], rest)
  | none => readSeries read closing cs.length cs

theorem skip_cons {c : Char} (h : isGap c = false) (cs : List Char) : skip (c :: cs) = c :: cs :=
  List.dropWhile_cons_of_neg (by simp [h])

theorem skip_newLine (depth : Nat) (cs : List Char) : skip (newLine depth ++ cs) = skip cs := by
  have hgap : ∀ c ∈ newLine depth, isGap c = true := by
    intro c hc
    rcases List.mem_cons.mp hc with rfl | hc
    · rfl
    · rw [List.eq_of_mem_replicate hc]
      rfl
  exact List.dropWhile_append_of_pos hgap

theorem expect_self {c : Char} (h : isGap c = false) (rest : List Char) : expect c (c :: rest) = some rest := by
  rw [expect, skip_cons h]
  exact if_pos rfl

theorem expect_other {c d : Char} (h : isGap d = false) (hne : d ≠ c) (rest : List Char) :
    expect c (d :: rest) = none := by
  rw [expect, skip_cons h]
  exact if_neg hne

theorem expect_newLine (c : Char) (depth : Nat) (cs : List Char) : expect c (newLine depth ++ cs) = expect c cs := by
  rw [expect, expect, skip_newLine]

/-- Blanks in front make no difference to the reader. -/
def SkipsGaps (read : Reader α) : Prop := ∀ cs, read (skip cs) = read cs

theorem SkipsGaps.congr {read : Reader α} (h : SkipsGaps read) {cs cs' : List Char} (hskip : skip cs = skip cs') :
    read cs = read cs' := by
  rw [← h cs, hskip, h cs']

theorem skip_skip (cs : List Char) : skip (skip cs) = skip cs :=
  List.dropWhile_idempotent _ cs

theorem stops_newLine (depth : Nat) (cs : List Char) : Stops (newLine depth ++ cs) := stops_cons rfl _

/-- The reader finds an item in its text, whatever follows, and does not take it for a closing bracket. -/
structure Reads (read : Reader α) (closing : Char) (item : α) (text : List Char) : Prop where
  begins : ∃ c cs, text = c :: cs ∧ isGap c = false ∧ c ≠ closing
  read : ∀ rest, Stops rest → read (text ++ rest) = some (item, rest)

variable {read : Reader α} {closing : Char} {items : List α} {texts : List (List Char)}

theorem readSeries_newLine (hread : SkipsGaps read) (bound depth : Nat)
    (cs : List Char) : readSeries read closing bound (newLine depth ++ cs) = readSeries read closing bound cs := by
  cases bound with
  | zero => rfl
  | succ bound => rw [readSeries, readSeries, hread.congr (skip_newLine depth cs)]

theorem readSeries_next {item : α} {cs rest rest' : List Char} (h : read cs = some (item, rest))
    (hcomma : expect ',' rest = some rest') (bound : Nat) :
    readSeries read closing (bound + 1) cs =
      (readSeries read closing bound rest').map fun q => (item :: q.1, q.2) := by
  rw [readSeries, h, Option.bind_some]
  dsimp only
  rw [hcomma]

theorem readSeries_last {item : α} {cs rest rest' : List Char} (h : read cs = some (item, rest))
    (hcomma : expect ',' rest = none) (hclosing : expect closing rest = some rest') (bound : Nat) :
    readSeries read closing (bound + 1) cs = some ([item], rest') := by
  rw [readSeries, h, Option.bind_some]
  dsimp only
  rw [hcomma, hclosing]
  rfl

/-- Items on lines of their own are read one after the other. -/
theorem readSeries_intercalate (hread : SkipsGaps read)
    (hgap : isGap closing = false) (hcomma : closing ≠ ',') (inner outer : Nat) (rest : List Char)
    (h : List.Forall₂ (Reads read closing) items texts) (hne : items ≠ []) {bound : Nat}
    (hbound : items.length ≤ bound) :
    readSeries read closing bound
      ((',' :: newLine inner).intercalate texts ++ (newLine outer ++ closing :: rest)) = some (items, rest) := by
  induction h generalizing bound with
  | nil => exact absurd rfl hne
  | @cons item text items texts hitem hitems ih =>
    obtain ⟨bound, rfl⟩ : ∃ b, bound = b + 1 := Nat.exists_eq_add_one_of_ne_zero (by simp at hbound; omega)
    cases hitems with
    | nil =>
      have hfirst := hitem.read (newLine outer ++ closing :: rest) (stops_newLine outer _)
      have hno : expect ',' (newLine outer ++ closing :: rest) = none := by
        rw [expect_newLine, expect_other hgap hcomma]
      have hclosing : expect closing (newLine outer ++ closing :: rest) = some rest := by
        rw [expect_newLine, expect_self hgap]
      rw [List.intercalate_singleton]
      exact readSeries_last hfirst hno hclosing bound
    | @cons next text' items texts hnext hitems =>
      have hlater := ih (List.cons_ne_nil _ _) (Nat.le_of_succ_le_succ hbound)
      have hfirst := hitem.read (',' :: (newLine inner ++ ((',' :: newLine inner).intercalate (text' :: texts) ++
        (newLine outer ++ closing :: rest)))) (stops_cons rfl _)
      rw [List.intercalate_cons_cons]
      simp only [List.append_assoc, List.cons_append] at hfirst ⊢
      rw [readSeries_next hfirst (expect_self rfl _), readSeries_newLine hread, hlater]
      rfl

theorem Reads.expect_intercalate {item : α} {text : List Char} (h : Reads read closing item text)
    (sep : List Char) (texts : List (List Char)) (rest : List Char) :
    expect closing (sep.intercalate (text :: texts) ++ rest) = none := by
  obtain ⟨c, cs, htext, hc, hne⟩ := h.begins
  cases texts with
  | nil =>
    rw [List.intercalate_singleton, htext]
    exact expect_other hc hne _
  | cons text' texts =>
    rw [List.intercalate_cons_cons, htext]
    exact expect_other hc hne _

/-- Each item takes at least a character. -/
theorem length_le_length_intercalate (sep : List Char) (h : List.Forall₂ (Reads read closing) items texts) :
    items.length ≤ (sep.intercalate texts).length := by
  induction h with
  | nil => exact Nat.zero_le _
  | @cons item text items texts hitem hitems ih =>
    obtain ⟨c, cs, htext, -⟩ := hitem.begins
    cases hitems with
    | nil =>
      rw [List.intercalate_singleton, htext]
      simp
    | cons hnext hitems =>
      rw [List.intercalate_cons_cons]
      simp only [List.length_cons, List.length_append, htext] at ih ⊢
      omega

/-- **What stands between brackets is read,** if each item is. -/
theorem readBracketed_bracketed (hread : SkipsGaps read)
    (hgap : isGap closing = false) (hcomma : closing ≠ ',') (opening : Char) (depth : Nat) (rest : List Char)
    (h : List.Forall₂ (Reads read closing) items texts) :
    ∃ cs, bracketed opening closing depth texts = opening :: cs ∧
      readBracketed read closing (cs ++ rest) = some (items, rest) := by
  unfold bracketed
  cases h with
  | nil =>
    refine ⟨[closing], rfl, ?_⟩
    rw [readBracketed, List.singleton_append, expect_self hgap]
  | @cons item text items texts hitem hitems =>
    have hall : List.Forall₂ (Reads read closing) (item :: items) (text :: texts) := .cons hitem hitems
    have hlength := length_le_length_intercalate (',' :: newLine (depth + 1)) hall
    refine ⟨newLine (depth + 1) ++ (',' :: newLine (depth + 1)).intercalate (text :: texts) ++ newLine depth ++
      [closing], rfl, ?_⟩
    rw [readBracketed]
    simp only [List.append_assoc, List.singleton_append]
    rw [expect_newLine, hitem.expect_intercalate]
    dsimp only
    rw [readSeries_newLine hread]
    apply readSeries_intercalate hread hgap hcomma _ _ _ hall (List.cons_ne_nil _ _)
    simp only [List.length_append]
    omega

/-! ## Reports -/

/-- A name, a colon and a value. -/
def readField (read : Reader Json) : Reader (String × Json) := fun cs => do
  let cs ← expect '"' cs
  let name ← readQuoted cs
  let cs ← expect ':' name.2
  let value ← read cs
  return ((name.1, value.1), value.2)

/-- A report in which brackets stand in each other less often than `depth`. -/
def readValue : Nat → Reader Json
  | 0, _ => none
  | depth + 1, cs =>
    match skip cs with
    | [] => none
    | c :: rest =>
      if c = '[' then (readBracketed (readValue depth) ']' rest).map fun p => (.list p.1, p.2)
      else if c = '\x7b' then
        (readBracketed (readField (readValue depth)) '\x7d' rest).map fun p => (.fields p.1, p.2)
      else if c = '"' then (readQuoted rest).map fun p => (.text p.1, p.2)
      else if c = 'n' then (['u', 'l', 'l'].isPrefixOf? rest).map fun rest => (.null, rest)
      else (readWhole (c :: rest)).map fun p => (.whole p.1, p.2)

/-- The report that a text writes. -/
def Json.read? (text : String) : Option Json :=
  match readValue (text.toList.length + 1) text.toList with
  | some (j, rest) => if skip rest = [] then some j else none
  | none => none

theorem skipsGaps_readValue (bound : Nat) : SkipsGaps (readValue bound) := by
  intro cs
  cases bound with
  | zero => rfl
  | succ bound => rw [readValue, readValue, skip_skip]

theorem skipsGaps_readField (read : Reader Json) : SkipsGaps (readField read) := by
  intro cs
  rw [readField, readField, expect, expect, skip_skip]

theorem head_canonical (n : Int) : ∃ c cs, canonical n = c :: cs ∧ (c = '-' ∨ c.isDigit = true) := by
  obtain ⟨c, cs, hdigits⟩ := List.exists_cons_of_ne_nil (Nat.toDigits_ne_nil (n := n.natAbs) (b := 10))
  have hc : c.isDigit = true := by
    apply isDigit_of_mem_toDigits (n := n.natAbs) c
    rw [hdigits]
    exact List.mem_cons_self ..
  unfold canonical minus
  rw [hdigits]
  by_cases h : n < 0
  · simp [h]
  · simp [h, hc]

theorem reads_whole (i : Int) (bound : Nat) : Reads (readValue (bound + 1)) ']' (.whole i) (canonical i) := by
  obtain ⟨c, cs, hcons, hc⟩ := head_canonical i
  have hother : ∀ d, d.isDigit = false → d ≠ '-' → c ≠ d := by
    rintro d hdigit hminus rfl
    rcases hc with hc | hc
    · exact hminus hc
    · rw [hc] at hdigit
      cases hdigit
  have hgap : isGap c = false := by
    simp [isGap, hother ' ' rfl (by decide), hother '\n' rfl (by decide), hother '\r' rfl (by decide),
      hother '\t' rfl (by decide)]
  refine ⟨⟨c, cs, hcons, hgap, hother ']' rfl (by decide)⟩, ?_⟩
  intro rest hrest
  have hread : readWhole (c :: (cs ++ rest)) = some (i, rest) := by
    rw [← List.cons_append, ← hcons]
    exact readWhole_canonical i hrest
  rw [hcons, List.cons_append, readValue, skip_cons hgap]
  dsimp only
  rw [if_neg (hother '[' rfl (by decide)), if_neg (hother '\x7b' rfl (by decide)),
    if_neg (hother '"' rfl (by decide)), if_neg (hother 'n' rfl (by decide)), hread]
  rfl

theorem reads_text (s : String) (bound : Nat) : Reads (readValue (bound + 1)) ']' (.text s) (textJson s) := by
  refine ⟨⟨'"', _, rfl, rfl, by decide⟩, ?_⟩
  intro rest _
  show (readQuoted ((s.toList.flatMap escapeChar ++ ['"']) ++ rest)).map (fun p => (Json.text p.1, p.2)) = _
  rw [List.append_assoc, List.singleton_append, readQuoted_escaped]
  rfl

theorem reads_null (bound : Nat) : Reads (readValue (bound + 1)) ']' .null ['n', 'u', 'l', 'l'] :=
  ⟨⟨'n', _, rfl, rfl, by decide⟩, fun _ _ => rfl⟩

/-- Brackets are read as what stands between them. -/
theorem reads_bracketed {opening : Char} {bound : Nat} {of : List α → Json} (hread : SkipsGaps read)
    (hgap : isGap closing = false) (hcomma : closing ≠ ',') (hopening : isGap opening = false ∧ opening ≠ ']')
    (hvalue : ∀ cs, readValue (bound + 1) (opening :: cs) =
      (readBracketed read closing cs).map fun p => (of p.1, p.2))
    (h : List.Forall₂ (Reads read closing) items texts) (depth : Nat) :
    Reads (readValue (bound + 1)) ']' (of items) (bracketed opening closing depth texts) := by
  constructor
  · obtain ⟨cs, hcs, -⟩ := readBracketed_bracketed hread hgap hcomma opening depth [] h
    exact ⟨opening, cs, hcs, hopening⟩
  · intro rest _
    obtain ⟨cs, hcs, hitems⟩ := readBracketed_bracketed hread hgap hcomma opening depth rest h
    rw [hcs, List.cons_append, hvalue, hitems]
    rfl

theorem reads_list {items : List Json} {bound : Nat}
    (h : List.Forall₂ (Reads (readValue bound) ']') items texts) (depth : Nat) :
    Reads (readValue (bound + 1)) ']' (.list items) (bracketed '[' ']' depth texts) :=
  reads_bracketed (skipsGaps_readValue bound) rfl (by decide) ⟨rfl, by decide⟩ (fun _ => rfl) h depth

theorem reads_fields {items : List (String × Json)} {bound : Nat}
    (h : List.Forall₂ (Reads (readField (readValue bound)) '\x7d') items texts) (depth : Nat) :
    Reads (readValue (bound + 1)) ']' (.fields items) (bracketed '\x7b' '\x7d' depth texts) :=
  reads_bracketed (skipsGaps_readField _) rfl (by decide) ⟨rfl, by decide⟩ (fun _ => rfl) h depth

theorem reads_field {name : String} {value : Json} {text : List Char} {read : Reader Json}
    (hread : SkipsGaps read) (h : Reads read ']' value text) :
    Reads (readField read) '\x7d' (name, value) (textJson name ++ ':' :: ' ' :: text) := by
  refine ⟨⟨'"', _, rfl, rfl, by decide⟩, ?_⟩
  intro rest hrest
  have hname := readQuoted_escaped name (':' :: ' ' :: (text ++ rest))
  have hvalue : read (' ' :: (text ++ rest)) = some (value, rest) := by
    rw [← h.read rest hrest]
    exact hread.congr rfl
  have htext : textJson name ++ ':' :: ' ' :: text ++ rest =
      '"' :: (name.toList.flatMap escapeChar ++ '"' :: ':' :: ' ' :: (text ++ rest)) := by
    simp [textJson]
  have hquote := expect_self (c := '"') rfl (name.toList.flatMap escapeChar ++ '"' :: ':' :: ' ' :: (text ++ rest))
  have hcolon := expect_self (c := ':') rfl (' ' :: (text ++ rest))
  rw [htext, readField, hquote, Option.bind_eq_bind, Option.bind_some, hname, Option.bind_eq_bind,
    Option.bind_some, hcolon, Option.bind_eq_bind, Option.bind_some, hvalue]
  rfl

/-! ### A report in its text -/

theorem length_le_of_mem_intercalate (sep : List Char) {text : List Char} {texts : List (List Char)}
    (h : text ∈ texts) : text.length ≤ (sep.intercalate texts).length := by
  induction texts with
  | nil => exact absurd h List.not_mem_nil
  | cons first texts ih =>
    cases texts with
    | nil =>
      rw [List.intercalate_singleton, List.mem_singleton.mp h]
    | cons second texts =>
      rw [List.intercalate_cons_cons, List.length_append, List.length_append]
      rcases List.mem_cons.mp h with rfl | h
      · omega
      · have hrest := ih h
        omega

/-- Items are shorter than what they stand in. -/
theorem length_lt_bracketed {text : List Char} {texts : List (List Char)} (h : text ∈ texts)
    (opening closing : Char) (depth : Nat) : text.length < (bracketed opening closing depth texts).length := by
  have hle := length_le_of_mem_intercalate (',' :: newLine (depth + 1)) h
  have hne : texts.isEmpty = false := by
    cases texts with
    | nil => exact absurd h List.not_mem_nil
    | cons => rfl
  unfold bracketed
  rw [hne]
  simp only [Bool.false_eq_true, ↓reduceIte, List.cons_append, List.length_cons, List.length_append]
  omega

mutual

/-- A report is read back wherever it stands. -/
theorem reads_render (depth bound : Nat) : ∀ j : Json, (j.render depth).length ≤ bound →
    Reads (readValue (bound + 1)) ']' j (j.render depth)
  | .null, _ => by
    rw [Json.render]
    exact reads_null bound
  | .whole i, _ => by
    rw [Json.render, toList_wholeText]
    exact reads_whole i bound
  | .text s, _ => by
    rw [Json.render]
    exact reads_text s bound
  | .list items, h => by
    rw [Json.render] at h ⊢
    apply reads_list
    exact reads_renderItems (depth + 1) bound items fun text htext =>
      (length_lt_bracketed htext '[' ']' depth).trans_le h
  | .fields items, h => by
    rw [Json.render] at h ⊢
    apply reads_fields
    exact reads_renderFields (depth + 1) bound items fun text htext =>
      (length_lt_bracketed htext '\x7b' '\x7d' depth).trans_le h

theorem reads_renderItems (depth bound : Nat) : ∀ items : List Json,
    (∀ text ∈ Json.renderItems depth items, text.length < bound) →
      List.Forall₂ (Reads (readValue bound) ']') items (Json.renderItems depth items)
  | [], _ => .nil
  | item :: items, h => by
    rw [Json.renderItems] at h ⊢
    obtain ⟨hitem, hitems⟩ := List.forall_mem_cons.mp h
    obtain ⟨bound, rfl⟩ := Nat.exists_eq_add_one_of_ne_zero (Nat.ne_zero_of_lt hitem)
    exact .cons (reads_render depth bound item (Nat.le_of_lt_succ hitem))
      (reads_renderItems depth (bound + 1) items hitems)

theorem reads_renderFields (depth bound : Nat) : ∀ items : List (String × Json),
    (∀ text ∈ Json.renderFields depth items, text.length < bound) →
      List.Forall₂ (Reads (readField (readValue bound)) '\x7d') items (Json.renderFields depth items)
  | [], _ => .nil
  | (name, value) :: items, h => by
    rw [Json.renderFields] at h ⊢
    obtain ⟨hitem, hitems⟩ := List.forall_mem_cons.mp h
    obtain ⟨bound, rfl⟩ := Nat.exists_eq_add_one_of_ne_zero (Nat.ne_zero_of_lt hitem)
    have hvalue : (value.render depth).length ≤ bound := by
      simp only [List.length_append, List.length_cons] at hitem
      omega
    exact .cons (reads_field (skipsGaps_readValue _) (reads_render depth bound value hvalue))
      (reads_renderFields depth (bound + 1) items hitems)

end

/-- **A report can be read from its text.** -/
theorem read?_pretty (j : Json) : Json.read? j.pretty = some j := by
  have h := (reads_render 0 (j.render 0).length j le_rfl).read [] stops_nil
  rw [List.append_nil] at h
  rw [Json.read?, Json.pretty, String.toList_ofList, h]
  rfl

end CommandBatch.Report
