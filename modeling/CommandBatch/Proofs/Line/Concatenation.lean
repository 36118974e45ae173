import CommandBatch.Proofs.Line.Reading
import CommandBatch.Proofs.Text.Characters
import CommandBatch.Proofs.Text.Margins
import CommandBatch.Token.Defaults

/-!
# Lines that are put together

A line is read from left to right, and behind a complete line and a separator the reader is where it
was in front of its first argument: nothing of the first line is left but the column.  So a reader
over two texts is a reader over the first and then, from its last place on, over the second
(`readArguments_append`); and a reader that starts some columns further to the right does the same
and fails the same, that many columns further to the right (`readArguments_moved`).
-/

namespace CommandBatch

open Text

/-! ### Failures further to the right -/

namespace Reason

/-- The reason with its column moved to the right. -/
def moved (n : Nat) : Reason → Reason
  | unclaimed c column => unclaimed c (column + n)
  | glued c type column => glued c type (column + n)
  | unclosed type column => unclosed type (column + n)
  | parserFailed type literal origin column => parserFailed type literal origin (column + n)
  | parserAnswered type kind column => parserAnswered type kind (column + n)
  | invalidLiteral type literal column => invalidLiteral type literal (column + n)
  | thrown message code column => thrown message code (column.map (· + n))
  | r => r

@[simp] theorem code_moved (n : Nat) (r : Reason) : (r.moved n).code = r.code := by
  cases r <;> rfl

@[simp] theorem column_moved (n : Nat) (r : Reason) :
    (r.moved n).column = r.column.map (· + (n : Int)) := by
  cases r <;> rfl

/-- The reader of a line fails for this reason, and not a type or a command. -/
def OfReading : Reason → Prop
  | unclaimed .. | glued .. | unclosed .. | parserFailed .. | parserAnswered ..
  | invalidLiteral .. => True
  | _ => False

/-- The reader of a line gives a column for each of its failures. -/
theorem OfReading.column {r : Reason} (h : r.OfReading) : ∃ c, r.column = some c := by
  cases r with
  | unclaimed | glued | unclosed | parserFailed | parserAnswered | invalidLiteral =>
    exact ⟨_, rfl⟩
  | _ => cases h

end Reason

/-- The fault with the column of its failure moved to the right. -/
def Fault.moved (n : Nat) : Fault → Fault
  | .failure f => .failure { f with reason := f.reason.moved n }
  | f => f

/-- The place of the reader with the column of its argument moved to the right. -/
def Position.moved (n : Nat) : Position → Position
  | .between => .between
  | .inside type scratch start read => .inside type scratch (start + n) read
  | .closed type start read => .closed type (start + n) read

namespace Line

variable {types : List TokenType} {marks : Marks}

/-! ### One character -/

/-- What one character does to the reader: the values that it completes, and the place after it. -/
def step (types : List TokenType) (marks : Marks) (c : Char) (column : Nat) :
    Position → Except Fault (List Value × Position)
  | .between =>
    if marks.separates c then .ok ([], .between)
    else (claim types c column).map fun r => ([], .inside r.1 r.2 column [c])
  | .inside type scratch start read =>
    (type.lexis.ends c scratch).bind fun r =>
      if r.1 then
        if marks.separates c then
          (finish type read.reverse start).map fun v => ([v], .between)
        else .ok ([], .closed type start (c :: read))
      else .ok ([], .inside type r.2 start (c :: read))
  | .closed type start read =>
    if marks.separates c then (finish type read.reverse start).map fun v => ([v], .between)
    else .error (.ofReason (.glued c type.name column))

theorem readArguments_cons (c : Char) (cs : List Char) (column : Nat) (p : Position) :
    readArguments types marks p column (c :: cs) =
      (step types marks c column p).bind fun r =>
        (readArguments types marks r.2 (column + 1) cs).map (r.1 ++ ·) := by
  have hnone : ∀ r : Except Fault (List Value), r.map ([] ++ ·) = r := by
    intro r
    cases r <;> rfl
  cases p with
  | between =>
    cases hc : marks.separates c with
    | true => simp only [step, hc, ↓reduceIte, readArguments_separator hc, Except.bind, hnone]
    | false =>
      rw [readArguments_begins hc]
      simp only [step, hc, Bool.false_eq_true, ↓reduceIte]
      cases claim types c column with
      | error f => rfl
      | ok r => exact (hnone _).symm
  | inside type scratch start read =>
    cases hends : type.lexis.ends c scratch with
    | error f => simp [step, readArguments, hends, bind, Except.bind]
    | ok r =>
      obtain ⟨ends, scratch'⟩ := r
      cases ends with
      | false =>
        rw [readArguments_goesOn hends]
        simp only [step, hends, Except.bind, Bool.false_eq_true, ↓reduceIte, hnone]
      | true =>
        rw [readArguments_ends hends]
        simp only [step, hends, Except.bind, ↓reduceIte]
        cases hc : marks.separates c with
        | true =>
          simp only [↓reduceIte]
          cases finish type read.reverse start <;> rfl
        | false => simp only [Bool.false_eq_true, ↓reduceIte, hnone]
  | closed type start read =>
    cases hc : marks.separates c with
    | true =>
      rw [readArguments_closed_separator hc]
      simp only [step, hc, ↓reduceIte]
      cases finish type read.reverse start <;> rfl
    | false =>
      rw [readArguments_glued hc]
      simp [step, hc, Except.bind]

/-! ### One text behind another -/

/-- A reader that succeeds on a text has left its last argument behind: over a longer text it goes
on between two arguments. -/
theorem readArguments_append {p : Position} {column : Nat} {xs : List Char} {vs : List Value}
    (h : readArguments types marks p column xs = .ok vs) (ys : List Char) :
    readArguments types marks p column (xs ++ ys) =
      (readArguments types marks .between (column + xs.length) ys).map (vs ++ ·) := by
  induction xs generalizing p column vs with
  | nil =>
    cases p with
    | between =>
      cases h
      simp only [List.nil_append, List.length_nil, Nat.add_zero]
      cases readArguments types marks .between column ys <;> rfl
    | inside => cases h
    | closed => cases h
  | cons c xs ih =>
    rw [readArguments_cons] at h
    obtain ⟨r, hstep, h⟩ := bind_eq_ok_iff.mp h
    obtain ⟨vs', hrest, rfl⟩ := map_eq_ok_iff.mp h
    rw [List.cons_append, readArguments_cons, hstep]
    simp only [Except.bind]
    rw [ih hrest, List.length_cons, Nat.add_right_comm, Nat.add_assoc]
    cases readArguments types marks .between (column + (xs.length + 1)) ys with
    | error f => rfl
    | ok ws => simp [Except.map]

/-- A reader that fails on a text fails on every longer one, unless only the end of an argument is
missing. -/
theorem readArguments_append_of_error {p : Position} {column : Nat} {xs : List Char} {f : Fault}
    (h : readArguments types marks p column xs = .error f)
    (hf : ∀ type start, f ≠ .ofReason (.unclosed type start)) (ys : List Char) :
    readArguments types marks p column (xs ++ ys) = .error f := by
  induction xs generalizing p column with
  | nil =>
    -- at the end of the text, only the end of an argument can be missing
    cases p with
    | between => cases h
    | inside type scratch start read => cases h; exact absurd rfl (hf type.name start)
    | closed type start read => cases h; exact absurd rfl (hf type.name start)
  | cons c xs ih =>
    rw [readArguments_cons] at h
    rw [List.cons_append, readArguments_cons]
    rcases bind_eq_error_iff.mp h with hstep | ⟨r, hstep, hrest⟩
    · rw [hstep]
      rfl
    · rw [hstep]
      simp only [Except.bind]
      rw [ih (map_eq_error_iff.mp hrest)]
      rfl

/-! ### The same text further to the right -/

theorem claim_moved (steady : ∀ type ∈ types, type.lexis.Steady) (c : Char) (column n : Nat) :
    claim types c (column + n) = (claim types c column).mapError (Fault.moved n) := by
  induction types with
  | nil => rfl
  | cons type types ih =>
    obtain ⟨⟨begins, s⟩, hbegins⟩ := (steady type (List.mem_cons_self ..)).1 c {}
    rw [claim, claim, hbegins]
    cases begins with
    | true => rfl
    | false => exact ih fun other ho => steady other (List.mem_cons_of_mem _ ho)

theorem finish_moved (type : TokenType) (literal : List Char) (start n : Nat) :
    finish type literal (start + n) = (finish type literal start).mapError (Fault.moved n) := by
  unfold finish
  cases type.lexis.parse (.ofList literal) with
  | error f => rfl
  | ok r =>
    cases r with
    | data d => rfl
    | value v =>
      simp only
      split <;> rfl

/-- The type of the argument that is being read is one of the types of the reader. -/
def Position.TypeIn (types : List TokenType) : Position → Prop
  | .between => True
  | .inside type _ _ _ => type ∈ types
  | .closed type _ _ => type ∈ types

theorem step_typeIn {c : Char} {column : Nat} {p p' : Position} {vs : List Value}
    (hp : Position.TypeIn types p) (h : step types marks c column p = .ok (vs, p')) :
    Position.TypeIn types p' := by
  cases p with
  | between =>
    simp only [step] at h
    split at h
    · cases h
      trivial
    · obtain ⟨r, hclaim, hr⟩ := map_eq_ok_iff.mp h
      cases hr
      exact (claim_eq_ok_iff.mp hclaim).mem
  | inside type scratch start read =>
    obtain ⟨r, -, h⟩ := bind_eq_ok_iff.mp h
    split at h
    · split at h
      · obtain ⟨v, -, hv⟩ := map_eq_ok_iff.mp h
        cases hv
        trivial
      · cases h
        exact hp
    · cases h
      exact hp
  | closed type start read =>
    simp only [step] at h
    split at h
    · obtain ⟨v, -, hv⟩ := map_eq_ok_iff.mp h
      cases hv
      trivial
    · cases h

theorem step_moved (steady : ∀ type ∈ types, type.lexis.Steady) {p : Position}
    (hp : Position.TypeIn types p) (c : Char) (column n : Nat) :
    step types marks c (column + n) (p.moved n) =
      ((step types marks c column p).map fun r => (r.1, r.2.moved n)).mapError (Fault.moved n) := by
  cases p with
  | between =>
    simp only [step, Position.moved]
    split
    · rfl
    · rw [claim_moved steady]
      cases claim types c column <;> rfl
  | inside type scratch start read =>
    obtain ⟨r, hends⟩ := (steady type hp).2 c scratch
    simp only [step, Position.moved, hends, Except.bind, finish_moved]
    split
    · split
      · cases finish type read.reverse start <;> rfl
      · rfl
    · rfl
  | closed type start read =>
    simp only [step, Position.moved, finish_moved]
    split
    · cases finish type read.reverse start <;> rfl
    · rfl

/-- **A reader that starts further to the right** yields the same values, or the same failure that
many columns further to the right. -/
theorem readArguments_moved (steady : ∀ type ∈ types, type.lexis.Steady) {p : Position}
    (hp : Position.TypeIn types p) (n column : Nat) (cs : List Char) :
    readArguments types marks (p.moved n) (column + n) cs =
      (readArguments types marks p column cs).mapError (Fault.moved n) := by
  induction cs generalizing p column with
  | nil => cases p <;> rfl
  | cons c cs ih =>
    rw [readArguments_cons, readArguments_cons, step_moved steady hp]
    cases hstep : step types marks c column p with
    | error f => rfl
    | ok r =>
      simp only [Except.map, Except.mapError, Except.bind]
      rw [Nat.add_right_comm, ih (step_typeIn hp hstep)]
      cases readArguments types marks r.2 (column + 1) cs <;> rfl

/-! ### Why a reader fails -/

/-- The fault is the reader's own, or one of the types broke off with it inside an argument. -/
def Faults (types : List TokenType) (f : Fault) : Prop :=
  (∃ r : Reason, f = .ofReason r ∧ r.OfReading) ∨ ∃ type ∈ types, type.lexis.Raises f

theorem faults_of_reason {r : Reason} (h : r.OfReading) : Faults types (.ofReason r) :=
  .inl ⟨r, rfl, h⟩

theorem faults_of_claim {c : Char} {column : Nat} {f : Fault} (h : claim types c column = .error f) :
    Faults types f := by
  induction types with
  | nil => cases h; exact faults_of_reason trivial
  | cons type types ih =>
    rcases bind_eq_error_iff.mp h with hbegins | ⟨⟨begins, s⟩, -, hrest⟩
    · exact .inr ⟨type, List.mem_cons_self .., .inl ⟨c, {}, hbegins⟩⟩
    · cases begins with
      | true => cases hrest
      | false =>
        rcases ih hrest with hown | ⟨other, hmem, hraises⟩
        · exact .inl hown
        · exact .inr ⟨other, List.mem_cons_of_mem _ hmem, hraises⟩

theorem faults_of_finish {type : TokenType} {literal : List Char} {start : Nat} {f : Fault}
    (h : finish type literal start = .error f) : Faults types f := by
  unfold finish at h
  cases hparse : type.lexis.parse (.ofList literal) with
  | error g => simp only [hparse] at h; cases h; exact faults_of_reason trivial
  | ok r =>
    cases r with
    | data d => simp only [hparse] at h; cases h; exact faults_of_reason trivial
    | value v =>
      simp only [hparse] at h
      split at h
      · cases h; exact faults_of_reason trivial
      · cases h

theorem faults_of_step {c : Char} {column : Nat} {p : Position} (hp : Position.TypeIn types p)
    {f : Fault} (h : step types marks c column p = .error f) : Faults types f := by
  cases p with
  | between =>
    simp only [step] at h
    split at h
    · cases h
    · exact faults_of_claim (map_eq_error_iff.mp h)
  | inside type scratch start read =>
    rcases bind_eq_error_iff.mp h with hends | ⟨r, -, h⟩
    · exact .inr ⟨type, hp, .inr ⟨c, scratch, hends⟩⟩
    · split at h
      · split at h
        · exact faults_of_finish (map_eq_error_iff.mp h)
        · cases h
      · cases h
  | closed type start read =>
    simp only [step] at h
    split at h
    · exact faults_of_finish (map_eq_error_iff.mp h)
    · cases h
      exact faults_of_reason trivial

theorem faults_of_readArguments {p : Position} (hp : Position.TypeIn types p) {column : Nat}
    {cs : List Char} {f : Fault} (h : readArguments types marks p column cs = .error f) :
    Faults types f := by
  induction cs generalizing p column with
  | nil =>
    cases p with
    | between => cases h
    | inside | closed => cases h; exact faults_of_reason trivial
  | cons c cs ih =>
    rw [readArguments_cons] at h
    rcases bind_eq_error_iff.mp h with hstep | ⟨r, hstep, hrest⟩
    · exact faults_of_step hp hstep
    · exact ih (step_typeIn hp hstep) (map_eq_error_iff.mp hrest)

theorem Faults.of_steady (steady : ∀ type ∈ types, type.lexis.Steady) {f : Fault}
    (h : Faults types f) : ∃ r : Reason, f = .ofReason r ∧ r.OfReading := by
  rcases h with hown | ⟨type, hmem, hraises⟩
  · exact hown
  · exact absurd hraises (steady type hmem).not_raises

/-- Where the types never break off, each failure of the reader is its own. -/
theorem readArguments_error (steady : ∀ type ∈ types, type.lexis.Steady) {p : Position}
    (hp : Position.TypeIn types p) {column : Nat} {cs : List Char} {f : Fault}
    (h : readArguments types marks p column cs = .error f) :
    ∃ r : Reason, f = .ofReason r ∧ r.OfReading :=
  (faults_of_readArguments hp h).of_steady steady

/-- What a line cannot be read for is a failure of the reader, or the fault of a type. -/
theorem faults_of_read {line : String} {f : Fault} (hseparators : marks.separators ≠ [])
    (h : read types marks line = .error f) : Faults types f := by
  obtain ⟨separator, separators, hmarks⟩ := List.exists_cons_of_ne_nil hseparators
  unfold read at h
  dsimp only at h
  split at h
  · cases h
  · unfold readText at h
    rw [hmarks] at h
    simp only at h
    split at h
    · cases h
    · rcases bind_eq_error_iff.mp h with hargs | ⟨args, -, h⟩
      · exact faults_of_readArguments (p := .between) trivial hargs
      · cases h

/-! ### A line behind a line -/

/-- What a reader gets of a text that stands behind a line and a space. -/
def behind (text : List Char) : List Char :=
  if trimRight text = [] then [] else trimRight text ++ [' ']

theorem isComment_append {a : List Char} (hne : a ≠ []) (b : List Char) :
    ({} : Marks).isComment (a ++ b) = ({} : Marks).isComment a := by
  obtain ⟨c, cs, rfl⟩ := List.exists_cons_of_ne_nil hne
  simp [Marks.isComment, List.isPrefixOf]

/-- A line and a text behind it are read as the line, and then the text. -/
theorem read_append_eq {a b : String} {margin word rest : List Char} (ha : strip a = a)
    (hane : a.toList ≠ []) (hcomment : ({} : Marks).isComment a.toList = false)
    (he : a.toList ++ [' '] = margin ++ word ++ rest)
    (hmargin : ∀ c ∈ margin, ({} : Marks).separates c = true)
    (hword : ∀ c ∈ word, ({} : Marks).separates c = false) (hne : word ≠ [])
    (hrest : ({} : Marks).Separated rest) :
    read types {} (a ++ " " ++ b) =
      (readArguments types {} .between (margin.length + word.length)
        (rest ++ behind b.toList)).map fun args => ⟨.ofList (upperList word), args⟩ := by
  have htext : (a ++ " " ++ b).toList = a.toList ++ ' ' :: b.toList := by simp
  have htrim : trim a.toList = a.toList := by rw [← toList_strip, ha]
  have htrimmed := trim_append_cons (b := b.toList) htrim hane (show isBlank ' ' = true from rfl)
  rw [← htext] at htrimmed
  unfold behind
  -- if nothing is left of `b`, the space is trimmed off too, and the reader adds one of its own
  by_cases hb : trimRight b.toList = []
  · rw [if_pos hb] at htrimmed
    rw [read_eq_readText (by rwa [htrimmed]) (by rwa [htrimmed]), htrimmed, if_pos hb,
      List.append_nil]
    exact readText_eq rfl he hmargin hword hne hrest
  · rw [if_neg hb] at htrimmed
    have hjoined : a.toList ++ ' ' :: trimRight b.toList ++ [' '] =
        margin ++ word ++ (rest ++ (trimRight b.toList ++ [' '])) := by
      rw [← List.append_assoc _ rest, ← he]
      simp
    obtain ⟨d, ds, rfl, hd⟩ := hrest
    rw [read_eq_readText (by rw [htrimmed]; simp) (by rwa [htrimmed, isComment_append hane]),
      htrimmed, if_neg hb]
    exact readText_eq rfl hjoined hmargin hword hne ⟨d, _, List.cons_append .., hd⟩

/-- Behind a command of one letter, the reader of arguments starts in column two. -/
theorem read_letter (b : String) :
    read types {} ("C " ++ b) =
      (readArguments types {} .between 2 (behind b.toList)).map fun args => ⟨"C", args⟩ := by
  have hsplit : "C".toList ++ [' '] = [] ++ ['C'] ++ [' '] := rfl
  exact read_append_eq (a := "C") (by decide) (by decide) (by decide) hsplit (by simp) (by decide)
    (by simp) ⟨' ', [], rfl, rfl⟩

/-- A reader that fails between two arguments fails the same further to the right, but for the
column. -/
theorem readArguments_error_moved (steady : ∀ type ∈ types, type.lexis.Steady) {column : Nat}
    {cs : List Char} {e : Fault} (h : readArguments types marks .between column cs = .error e)
    (n : Nat) :
    ∃ f g : Failure, ∃ c : Int, e = .failure f ∧
      readArguments types marks .between (column + n) cs = .error (.failure g) ∧
      g.code = f.code ∧ f.column = some c ∧ g.column = some (c + n) := by
  obtain ⟨r, rfl, hr⟩ := readArguments_error steady (p := .between) trivial h
  obtain ⟨c, hcolumn⟩ := hr.column
  have hmoved : readArguments types marks .between (column + n) cs = _ :=
    readArguments_moved steady (p := .between) trivial n column cs
  rw [h] at hmoved
  refine ⟨{ reason := r }, { reason := r.moved n }, c, rfl, hmoved, Reason.code_moved n r, hcolumn,
    ?_⟩
  change (r.moved n).column = _
  rw [Reason.column_moved, hcolumn, Option.map_some]

/-- **Lines are read from left to right.**  For types that never break off and a line `a` without
margins: if `a` is read with a command, then `a`, a space and `b` are read with this command and
the arguments of `a` followed by those that `b` has behind a command of one letter, or they fail as
`b` fails there, as many columns further to the right as `a` is longer than one letter; and if `a`
fails, but not for want of the end of an argument, then `a`, a space and `b` fail the same. -/
theorem read_append (steady : ∀ type ∈ types, type.lexis.Steady) (a b : String)
    (ha : strip a = a) :
    (∀ l, read types {} a = .ok l → l.command ≠ "" →
      match read types {} ("C " ++ b) with
      | .ok m => read types {} (a ++ " " ++ b) = .ok ⟨l.command, l.args ++ m.args⟩
      | .error e => ∃ f g : Failure, ∃ column : Int, e = .failure f ∧
          read types {} (a ++ " " ++ b) = .error (.failure g) ∧ g.code = f.code ∧
          f.column = some column ∧ g.column = some (column + (a.length - 1))) ∧
    (∀ e, read types {} a = .error e → ∃ f : Failure, e = .failure f ∧
      (f.code ≠ ErrorCode.unclosedArgument.toInt →
        read types {} (a ++ " " ++ b) = .error (.failure f))) := by
  have hcases : read types {} a = .ok {} ∨ _ := read_cases rfl a
  rw [← toList_strip, ha] at hcases
  constructor
  · intro l hl hne
    rcases hcases with hread | ⟨hane, hcomment, margin, word, rest, he, hmargin, hword, hwne, hrest,
      hread⟩
    · rw [hread] at hl
      exact absurd rfl (Except.ok.inj hl ▸ hne)
    rw [hread] at hl
    obtain ⟨args, hargs, rfl⟩ := map_eq_ok_iff.mp hl
    -- behind the arguments of `a` the reader is where it is behind one letter, but for the column
    have hpositive : 0 < a.length := by
      rw [← String.length_toList]
      exact List.length_pos_of_ne_nil hane
    have hlength : margin.length + word.length + rest.length = 2 + (a.length - 1) := by
      have h := congrArg List.length he
      simp only [List.length_append, List.length_singleton, String.length_toList] at h
      omega
    have hjoined : read types {} (a ++ " " ++ b) = _ :=
      read_append_eq ha hane hcomment he hmargin hword hwne hrest
    rw [readArguments_append hargs, hlength] at hjoined
    rw [hjoined, read_letter]
    cases hb : readArguments types {} .between 2 (behind b.toList) with
    | ok bs =>
      have hmoved : readArguments types {} .between (2 + (a.length - 1)) (behind b.toList) = _ :=
        readArguments_moved steady (p := .between) trivial _ _ _
      rw [hmoved, hb]
      rfl
    | error e =>
      obtain ⟨f, g, column, rfl, hg, hcode, hf, hcolumn⟩ :=
        readArguments_error_moved steady hb (a.length - 1)
      rw [hg]
      refine ⟨f, g, column, rfl, rfl, hcode, hf, ?_⟩
      rw [hcolumn]
      congr 2
      omega
  · intro e h
    rcases hcases with hread | ⟨hane, hcomment, margin, word, rest, he, hmargin, hword, hwne, hrest,
      hread⟩
    · rw [hread] at h
      cases h
    rw [hread] at h
    have hargs := map_eq_error_iff.mp h
    obtain ⟨r, rfl, hr⟩ := readArguments_error steady (p := .between) trivial hargs
    refine ⟨{ reason := r }, rfl, ?_⟩
    intro hcode
    have hopen : ∀ type start, Fault.ofReason r ≠ .ofReason (.unclosed type start) := by
      intro type start hr'
      cases hr'
      exact hcode rfl
    rw [read_append_eq ha hane hcomment he hmargin hword hwne hrest,
      readArguments_append_of_error hargs hopen]
    rfl

/-- A reference behind a line is its last argument, and a string that is never closed is found seven
columns further to the right than behind a command of one letter. -/
theorem read_append_operator :
    read Token.defaults {} ("add - $x" ++ " " ++ "$y") = .ok ⟨"ADD",
        [⟨TypeName.symbol, .text "-", some "-"⟩, ⟨TypeName.reference, .text "$x", some "$x"⟩,
          ⟨TypeName.reference, .text "$y", some "$y"⟩]⟩ ∧
      ∃ g : Failure, read Token.defaults {} ("add - $x" ++ " " ++ "'y") = .error (.failure g) ∧
        g.column = some 9 := by
  have hline : read Token.defaults {} "add - $x" = .ok ⟨"ADD",
      [⟨TypeName.symbol, .text "-", some "-"⟩, ⟨TypeName.reference, .text "$x", some "$x"⟩]⟩ :=
    rfl
  have hreference : read Token.defaults {} ("C " ++ "$y") =
      .ok ⟨"C", [⟨TypeName.reference, .text "$y", some "$y"⟩]⟩ := rfl
  have hstring : read Token.defaults {} ("C " ++ "'y") =
      .error (.ofReason (.unclosed TypeName.string 2)) := rfl
  constructor
  · have h := (read_append Token.defaults_steady "add - $x" "$y" (by decide)).1 _ hline (by decide)
    rw [hreference] at h
    exact h
  · have h := (read_append Token.defaults_steady "add - $x" "'y" (by decide)).1 _ hline (by decide)
    rw [hstring] at h
    obtain ⟨f, g, column, hf, hg, -, hcolumn, hmoved⟩ := h
    cases hf
    cases hcolumn
    exact ⟨g, hg, hmoved⟩

end Line

end CommandBatch
