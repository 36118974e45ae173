import CommandBatch.Proofs.Line.Segmentation
import CommandBatch.Proofs.Text.UpperCase

/-!
# The command word of a text

The command of a line does not depend on its arguments, nor on the types that read them: it is the first
word of the text in upper case, whenever the line can be read at all (`command_of_read`).
-/

namespace CommandBatch.Line

open Text

variable {types : List TokenType} {marks : Marks}

/-- The first word of some characters: what stands between separators. -/
def firstWord (marks : Marks) (cs : List Char) : List Char :=
  (cs.dropWhile marks.separates).takeWhile (!marks.separates ·)

/-- The command word of a text: its first word in upper case, unless it is blank or a comment. -/
def commandWord (marks : Marks) (text : String) : String :=
  let cs := trim text.toList
  if cs = [] ∨ marks.isComment cs = true then "" else .ofList (upperList (firstWord marks cs))

theorem takeWhile_concat {separator : Char} (h : marks.separates separator = true) (cs : List Char) :
    (cs ++ [separator]).takeWhile (!marks.separates ·) = cs.takeWhile (!marks.separates ·) := by
  induction cs with
  | nil => simp [h]
  | cons c cs ih => simp only [List.cons_append, List.takeWhile_cons, ih]

/-- The separator that the reader adds at the end is part of no word. -/
theorem firstWord_concat {separator : Char} (h : marks.separates separator = true) (cs : List Char) :
    firstWord marks (cs ++ [separator]) = firstWord marks cs := by
  induction cs with
  | nil => simp [firstWord, h]
  | cons c cs ih =>
    by_cases hc : marks.separates c = true
    · simpa [firstWord, hc] using ih
    · simp [firstWord, hc, takeWhile_concat h cs]

theorem command_of_read {text : String} {line : Line} (h : read types marks text = .ok line) :
    line.command = commandWord marks text := by
  unfold read at h
  unfold commandWord
  by_cases hempty : trim text.toList = [] ∨ marks.isComment (trim text.toList) = true
  · have hguard : ((trim text.toList).isEmpty || marks.isComment (trim text.toList)) = true := by
      simpa [List.isEmpty_iff] using hempty
    rw [if_pos hguard] at h
    cases h
    exact (if_pos hempty).symm
  · have hguard : ¬((trim text.toList).isEmpty || marks.isComment (trim text.toList)) = true := by
      simpa [List.isEmpty_iff] using hempty
    rw [if_neg hguard] at h
    rw [if_neg hempty]
    unfold readText at h
    split at h
    · cases h
    · next separator separators hs =>
      have hseparator : marks.separates separator = true := by simp [Marks.separates, hs]
      dsimp only at h
      rw [← firstWord_concat hseparator, firstWord]
      split at h
      · next hword =>
        rw [List.isEmpty_iff] at hword
        cases h
        rw [hword]
        rfl
      · obtain ⟨args, -, hline⟩ := bind_eq_ok_iff.mp h
        exact (congrArg Line.command (Except.ok.inj hline)).symm

/-- With these types and marks the text names this command: its command word if it can be read, and
nothing otherwise. -/
def Names (types : List TokenType) (marks : Marks) (text command : String) : Prop :=
  ((∃ line, read types marks text = .ok line) ∧ command = commandWord marks text) ∨
    ((∃ fault, read types marks text = .error fault) ∧ command = "")

end CommandBatch.Line
