import CommandBatch.Proofs.Extension.Loading
import CommandBatch.Proofs.Files.Utf8
import CommandBatch.Proofs.Text.Lines
import CommandBatch.Proofs.Text.Margins

/-!
# What pointer files say

A pointer file is written line by line.  A line holds a path or none, with blanks around it and a remark behind it
(`PointerLine`), and any character that ends lines may end it; a carriage return and a line feed are two of them,
with an empty line in between.  Of one line just its path is read (`path_of_chars`), so of a text the paths that it
lists, in their order (`paths_of_text`), and of a file where they lead from its directory (`pointer_reads_back`).
-/

namespace CommandBatch.Extension

open Files Text

variable {σ : Type}

/-- A path that a line of a pointer file can hold. -/
@[mk_iff]
structure Listable (path : String) : Prop where
  nonempty : path ≠ ""
  unmarked : '#' ∉ path.toList
  lineless : ∀ c ∈ path.toList, isLineEnd c = false
  trimmed : strip path = path

instance (path : String) : Decidable (Listable path) :=
  haveI : Decidable (∀ c ∈ path.toList, isLineEnd c = false) := List.decidableBAll _ path.toList
  decidable_of_iff' _ (listable_iff path)

/-- Blanks that end no line. -/
def IsMargin (cs : List Char) : Prop := ∀ c ∈ cs, isBlank c = true ∧ isLineEnd c = false

instance (cs : List Char) : Decidable (IsMargin cs) := List.decidableBAll _ cs

/-- A line of a pointer file, without its end. -/
structure PointerLine where
  left : List Char := []
  path : Option String := none
  right : List Char := []
  /-- What stands behind a number sign. -/
  remark : Option (List Char) := none
  blank_left : IsMargin left := by decide
  listable : ∀ p ∈ path, Listable p := by decide
  blank_right : IsMargin right := by decide
  lineless_remark : ∀ text ∈ remark, ∀ c ∈ text, isLineEnd c = false := by decide

namespace PointerLine

/-- The characters of the path. -/
def pathChars (l : PointerLine) : List Char := (l.path.map String.toList).getD []

/-- The remark with its number sign. -/
def tail (l : PointerLine) : List Char := (l.remark.map ('#' :: ·)).getD []

/-- What stands in the line. -/
def chars (l : PointerLine) : List Char := l.left ++ l.pathChars ++ l.right ++ l.tail

theorem pathChars_mem {l : PointerLine} {c : Char} (h : c ∈ l.pathChars) : ∃ p ∈ l.path, c ∈ p.toList := by
  unfold pathChars at h
  cases hpath : l.path with
  | none =>
    rw [hpath] at h
    cases h
  | some p =>
    rw [hpath] at h
    exact ⟨p, rfl, h⟩

theorem isLineEnd_of_mem_tail {l : PointerLine} {c : Char} (h : c ∈ l.tail) : isLineEnd c = false := by
  unfold tail at h
  cases hremark : l.remark with
  | none =>
    rw [hremark] at h
    cases h
  | some text =>
    rw [hremark] at h
    rcases List.mem_cons.mp h with rfl | hmem
    · rfl
    · exact l.lineless_remark text hremark c hmem

/-- A line stays on its line. -/
theorem isLineEnd_of_mem_chars {l : PointerLine} {c : Char} (h : c ∈ l.chars) : isLineEnd c = false := by
  simp only [chars, List.mem_append] at h
  rcases h with ((hleft | hpath) | hright) | htail
  · exact (l.blank_left c hleft).2
  · obtain ⟨p, hp, hmem⟩ := pathChars_mem hpath
    exact (l.listable p hp).lineless c hmem
  · exact (l.blank_right c hright).2
  · exact isLineEnd_of_mem_tail htail

/-- The number sign of the remark is the first one in the line. -/
theorem takeWhile_chars (l : PointerLine) :
    l.chars.takeWhile (· ≠ '#') = l.left ++ l.pathChars ++ l.right := by
  have hmargin {cs : List Char} (hcs : IsMargin cs) : '#' ∉ cs := fun h => by
    cases (hcs '#' h).1
  have hbody : ∀ c ∈ l.left ++ l.pathChars ++ l.right, decide (c ≠ '#') = true := by
    rintro c hc
    refine decide_eq_true ?_
    rintro rfl
    rcases List.mem_append.mp hc with hc | hright
    · rcases List.mem_append.mp hc with hleft | hpath
      · exact hmargin l.blank_left hleft
      · obtain ⟨p, hp, hmem⟩ := pathChars_mem hpath
        exact (l.listable p hp).unmarked hmem
    · exact hmargin l.blank_right hright
  have htail : l.tail.takeWhile (· ≠ '#') = [] := by
    unfold tail
    cases l.remark with
    | none => rfl
    | some text => exact List.takeWhile_cons_of_neg (by simp)
  rw [chars, List.takeWhile_append_of_pos hbody, htail, List.append_nil]

/-- **Of a line its path is read**, and nothing else. -/
theorem path_of_chars (l : PointerLine) : entry? (.ofList l.chars) = l.path := by
  unfold entry?
  rw [String.toList_ofList, takeWhile_chars,
    trim_between (fun c hc => (l.blank_left c hc).1) (fun c hc => (l.blank_right c hc).1), pathChars]
  cases hpath : l.path with
  | none => rfl
  | some p =>
    obtain ⟨hnonempty, -, -, htrimmed⟩ := l.listable p hpath
    have htrim : trim p.toList = p.toList := by rw [← toList_strip, htrimmed]
    rw [Option.map_some, Option.getD_some, htrim]
    split
    · rename_i hnil
      exact absurd (String.toList_eq_nil_iff.mp hnil) hnonempty
    · rw [String.ofList_toList]

end PointerLine

/-- The text of a pointer file: lines with the characters that end them, and what stands behind the last end. -/
structure PointerText where
  ended : List (PointerLine × {c : Char // isLineEnd c = true})
  last : PointerLine

namespace PointerText

/-- The lines in their order. -/
def lines (t : PointerText) : List PointerLine := t.ended.map Prod.fst ++ [t.last]

/-- The paths that the lines hold, in their order. -/
def paths (t : PointerText) : List String := t.lines.filterMap PointerLine.path

/-- What stands in the file. -/
def text (t : PointerText) : String :=
  .ofList (t.ended.flatMap (fun (line, mark) => line.chars ++ [mark.val]) ++ t.last.chars)

/-- The text falls into what stands in its lines. -/
theorem lineParts_text (t : PointerText) : lineParts t.text = t.lines.map fun line => .ofList line.chars := by
  obtain ⟨ended, last⟩ := t
  have hline (line : PointerLine) : line.chars.splitOnP isLineEnd = [line.chars] :=
    List.splitOnP_eq_singleton fun _ => PointerLine.isLineEnd_of_mem_chars
  have hparts : (ended.flatMap (fun (line, mark) => line.chars ++ [mark.val]) ++ last.chars).splitOnP isLineEnd =
      ended.map (fun e => e.1.chars) ++ [last.chars] := by
    induction ended with
    | nil => exact hline last
    | cons e ended ih =>
      rw [List.flatMap_cons, List.append_assoc, List.append_assoc, List.singleton_append,
        List.splitOnP_append_cons _ _ e.2.property, hline, ih]
      rfl
  rw [lineParts, text, String.toList_ofList, hparts, lines, List.map_append, List.map_append, List.map_map,
    List.map_map]
  rfl

/-- **Of a text the paths that it lists are read.** -/
theorem paths_of_text (t : PointerText) : (Text.lines t.text).filterMap entry? = t.paths := by
  have hnone : entry? "" = none := rfl
  have hpath : entry? ∘ (fun line => .ofList line.chars) = PointerLine.path := by
    funext line
    rw [Function.comp_apply, PointerLine.path_of_chars]
  rw [filterMap_lines hnone, lineParts_text, List.filterMap_map, hpath, paths]

end PointerText

namespace Installation

theorem gather_pointer {w : Installation σ} {pointer : String} {entries : List String}
    (hpointer : Path.endsIn pointerSuffix (lower pointer) = true) (h : w.readPointer pointer = .ok entries) :
    w.gather [pointer] = .ok (entries.map w.absolute) := by
  have hexpand : w.expand pointer = .ok entries := by rw [expand, if_pos hpointer, h]
  simp only [gather, List.mapM_cons, List.mapM_nil, hexpand]
  exact congrArg (fun paths => Except.ok (List.map w.absolute paths)) (List.append_nil entries)

/-- **A pointer file reads back what is written in it**: one entry for each path that is listed, in the same order,
which is the path itself if it is absolute, and else the normal form of what is below the directory of the pointer
file by that path.  Extensions are loaded from the normal forms of all of them. -/
theorem pointer_reads_back (w : Installation σ) (pointer : String) (t : PointerText) (file : SourceFile σ)
    (hread : w.read pointer = .ok file) (hbytes : file.bytes = t.text.toUTF8.data.toList) :
    w.readPointer pointer = .ok (t.paths.map fun path =>
        if Path.isAbsolute path then path
        else Path.normal (Path.below (Path.parent (w.absolute pointer)) path)) ∧
      (Path.endsIn pointerSuffix (lower pointer) = true →
        w.gather [pointer] = .ok (t.paths.map fun path =>
          Path.normal (Path.below (Path.parent (w.absolute pointer)) path))) := by
  have htext : w.readText pointer = .ok t.text := by
    rw [readText, hread]
    simp only [hbytes, decodeUtf8_toUTF8]
    rfl
  have hentries : w.readPointer pointer =
      .ok (t.paths.map (resolveEntry (Path.parent (w.absolute pointer)))) := by
    rw [readPointer, Workspace.has_of_read hread, htext, ← t.paths_of_text]
    rfl
  refine ⟨hentries, fun hpointer => ?_⟩
  rw [gather_pointer hpointer hentries, List.map_map]
  refine congrArg Except.ok (List.map_congr_left fun path _ => ?_)
  rw [Function.comp_apply, resolveEntry]
  split
  · rename_i habsolute
    have hbelow (base : String) : Path.below base path = path := if_pos habsolute
    rw [Workspace.absolute, Path.absolute, hbelow, hbelow]
  · rw [Workspace.absolute, Path.absolute_absolute, Path.absolute]

/-- A remark in a line of its own, a path with a remark behind it, an empty line, and a path that is absolute. -/
def commented : PointerText where
  ended :=
    [({ remark := some [' ', '#'] }, ⟨'\n', rfl⟩),
      ({ left := [' ', ' '], path := some "ext/tensor.py", right := ['\t'], remark := some ['2'] }, ⟨'\r', rfl⟩),
      ({}, ⟨'\n', rfl⟩)]
  last := { path := some "/lib/../shape.py", right := [' '] }

/-- An installation with this pointer file. -/
def pointed : Installation Unit where
  tree := ⟨[(["app", "lists", "all.CMDX"], .file { bytes := commented.text.toUTF8.data.toList })]⟩
  directory := "/app"
  bundled := "/app/ext"

theorem pointer_reads_back_commented :
    commented.text = "# #\n  ext/tensor.py\t#2\r\n/lib/../shape.py " ∧
      pointed.readPointer "lists/all.CMDX" = .ok ["/app/lists/ext/tensor.py", "/lib/../shape.py"] ∧
      pointed.gather ["lists/all.CMDX"] = .ok ["/app/lists/ext/tensor.py", "/shape.py"] := by
  obtain ⟨hentries, hgather⟩ := pointer_reads_back pointed "lists/all.CMDX" commented
    { bytes := commented.text.toUTF8.data.toList } (by rfl) (by rfl)
  refine ⟨by decide +kernel, hentries.trans ?_, (hgather (by decide +kernel)).trans ?_⟩
  · exact congrArg Except.ok (by decide +kernel)
  · exact congrArg Except.ok (by decide +kernel)

end Installation

end CommandBatch.Extension
