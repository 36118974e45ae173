import CommandBatch.Proofs.Extension.Loading

/-!
# Where bundled extensions are found

A bundled extension is asked for by its bare name, and its file is looked for below the directory of the bundled
extensions.  A name without a slash leads to something directly in that directory and nowhere else
(`bundled_stays_inside`), so that nothing else takes the place of a file that is not there.

That a name is bare is not looked at, though.  One with a slash in it can lead anywhere: out of the directory
again, or, where it is absolute, past it from the beginning (`bundled_leads_outside`).
-/

namespace CommandBatch.Extension

open Files Text

variable {σ : Type}

/-- The name of the file of a module. -/
def moduleFile (name : String) : String :=
  if Path.endsIn moduleSuffix name then name else name ++ moduleSuffix

/-- A bare name has a file that a directory can hold. -/
theorem isPlain_moduleFile {name : String} (h : '/' ∉ name.toList) : Path.IsPlain (moduleFile name) := by
  have hends : Path.endsIn moduleSuffix (moduleFile name) = true := by
    unfold moduleFile
    split
    · rename_i hsuffix
      exact hsuffix
    · rw [Path.endsIn, String.toList_append, List.isSuffixOf_iff_suffix]
      exact List.suffix_append _ _
  have hother {other : String} (hnot : Path.endsIn moduleSuffix other = false) : moduleFile name ≠ other := by
    rintro rfl
    cases hnot.symm.trans hends
  refine ⟨?_, hother rfl, hother rfl, hother rfl⟩
  unfold moduleFile
  split
  · exact h
  · rw [String.toList_append, List.mem_append]
    exact not_or.mpr ⟨h, by decide⟩

namespace Installation

variable {w : Installation σ}

theorem bundled?_eq_some_iff {name path : String} :
    w.bundled? name = some path ↔ path = Path.below w.bundled (moduleFile name) ∧ w.has path = true := by
  show (if w.has (Path.below w.bundled (moduleFile name)) then
    some (Path.below w.bundled (moduleFile name)) else none) = some path ↔ _
  split
  · rename_i hhas
    rw [Option.some.injEq]
    exact ⟨fun h => ⟨h.symm, h ▸ hhas⟩, fun h => h.1.symm⟩
  · rename_i hnone
    exact ⟨nofun, fun h => absurd (h.1 ▸ h.2) hnone⟩

/-- What is at the path is, in normal form, directly in the directory of the bundled extensions, under this name.
The path is in normal form if that of the directory is. -/
structure Bundles (w : Installation σ) (file path : String) : Prop where
  found : w.locate path = .ok .directory ∨ ∃ source, w.read path = .ok source
  inside : Path.parent (w.absolute path) = w.absolute w.bundled
  named : Path.baseName (w.absolute path) = file
  normal : Path.normal w.bundled = w.bundled → w.absolute path = path

theorem bundles_of_bare {name path : String} (hbare : '/' ∉ name.toList) (h : w.bundled? name = some path) :
    w.Bundles (moduleFile name) path := by
  obtain ⟨rfl, hhas⟩ := bundled?_eq_some_iff.mp h
  have hplain := isPlain_moduleFile hbare
  have habsolute : w.absolute (Path.below w.bundled (moduleFile name)) =
      Path.normal (Path.below (Path.below w.directory w.bundled) (moduleFile name)) := by
    rw [Workspace.absolute, Path.absolute, Path.below_below (Path.isAbsolute_of_slashless hplain.slashless)]
  obtain ⟨hparent, hname⟩ := Path.parent_normal_below hplain (Path.below w.directory w.bundled)
  refine ⟨(Workspace.read_of_has hhas).imp And.left id, ?_, ?_, fun hnormal => ?_⟩
  · rw [habsolute, hparent]
    rfl
  · rw [habsolute, hname]
  · have hroot : Path.isAbsolute w.bundled = true := by
      rw [← hnormal]
      exact Path.isAbsolute_normal w.bundled
    have hbundled : Path.below w.directory w.bundled = w.bundled := if_pos hroot
    rw [habsolute, Path.normal_below hplain, hbundled, hnormal]

/-- What a name leads to: a path that its pointer file lists, a bundled extension in place of a file that is not
there, or just what it names. -/
inductive Leads (w : Installation σ) (name : String) : String → Prop
  | listed {entries : List String} {entry : String} (hpointer : Path.endsIn pointerSuffix (lower name) = true)
      (hread : w.readPointer name = .ok entries) (hmem : entry ∈ entries) : Leads w name (w.absolute entry)
  | bundled {path : String} (hmissing : w.has name = false) (h : w.Bundles (moduleFile name) path) :
      Leads w name (w.absolute path)
  | itself : Leads w name (w.absolute name)

theorem leads_of_expand {name path : String} {paths : List String}
    (hbare : w.has name = false → '/' ∉ name.toList) (h : w.expand name = .ok paths) (hmem : path ∈ paths) :
    w.Leads name (w.absolute path) := by
  unfold expand at h
  split at h
  · rename_i hpointer
    exact .listed hpointer h hmem
  · split at h
    · cases h
      rw [List.mem_singleton.mp hmem]
      exact .itself
    · rename_i hhas
      have hmissing : w.has name = false := Bool.eq_false_iff.mpr hhas
      cases h
      rw [List.mem_singleton.mp hmem]
      cases hbundled : w.bundled? name with
      | none => exact .itself
      | some found => exact .bundled hmissing (bundles_of_bare (hbare hmissing) hbundled)

/-- **A bundled extension that is asked for by a bare name is directly in the directory of the bundled extensions.**
So if all names of what is not there are bare, extensions are loaded from the paths that are named and the entries of
pointer files, and in place of what is not there from nowhere but that directory. -/
theorem bundled_stays_inside (w : Installation σ) :
    (∀ name path, '/' ∉ name.toList → w.bundled? name = some path → w.Bundles (moduleFile name) path) ∧
      ∀ names paths, (∀ name ∈ names, w.has name = false → '/' ∉ name.toList) → w.gather names = .ok paths →
        ∀ path ∈ paths, ∃ name ∈ names, w.Leads name path := by
  refine ⟨fun name path => bundles_of_bare, fun names paths hbare hgather path hmem => ?_⟩
  obtain ⟨expanded, hexpanded, hpaths⟩ := bind_eq_ok_iff.mp hgather
  cases hpaths
  obtain ⟨path, hpath, rfl⟩ := List.mem_map.mp hmem
  obtain ⟨group, hgroup, hpath⟩ := List.mem_flatten.mp hpath
  obtain ⟨name, hname, hexpand⟩ := exists_of_mem_mapM hexpanded hgroup
  exact ⟨name, hname, leads_of_expand (hbare name hname) hexpand hpath⟩

/-- An installation whose bundled extensions are in a directory beside a module of another kind. -/
def neighboring : Installation Unit where
  tree := ⟨[(["app", "interpreter.py"], .file {}), (["app", "ext", "tensor.py"], .file {})]⟩
  bundled := "/app/ext"

theorem bundled_stays_inside_tensor :
    neighboring.bundled? "tensor" = some "/app/ext/tensor.py" ∧
      Path.parent (neighboring.absolute "/app/ext/tensor.py") = neighboring.absolute neighboring.bundled ∧
      neighboring.gather ["tensor"] = .ok ["/app/ext/tensor.py"] ∧ neighboring.Leads "tensor" "/app/ext/tensor.py" := by
  have hfound : neighboring.bundled? "tensor" = some "/app/ext/tensor.py" := by decide +kernel
  have hgather : neighboring.gather ["tensor"] = .ok ["/app/ext/tensor.py"] := by rfl
  obtain ⟨hinside, hleads⟩ := bundled_stays_inside neighboring
  obtain ⟨name, hname, hlead⟩ := hleads ["tensor"] _ (by simp) hgather _ (List.mem_singleton_self _)
  rw [List.mem_singleton.mp hname] at hlead
  exact ⟨hfound, (hinside _ _ (by decide) hfound).inside, hgather, hlead⟩

/-- **A name with a slash in it can lead out of the directory**, where it takes the place of what is not there. -/
theorem bundled_leads_outside :
    (neighboring.bundled? "../interpreter" = some "/app/ext/../interpreter.py" ∧
      neighboring.absolute "/app/ext/../interpreter.py" = "/app/interpreter.py" ∧
      Path.parent "/app/interpreter.py" = "/app" ∧ neighboring.absolute neighboring.bundled = "/app/ext" ∧
      neighboring.has "../interpreter" = false ∧
      neighboring.gather ["../interpreter"] = .ok ["/app/interpreter.py"]) ∧
    ¬ ∀ (w : Installation Unit) (name path : String), w.bundled? name = some path →
      Path.parent (w.absolute path) = w.absolute w.bundled := by
  have hfound : neighboring.bundled? "../interpreter" = some "/app/ext/../interpreter.py" := by decide +kernel
  have hoffside : Path.parent (neighboring.absolute "/app/ext/../interpreter.py") ≠
      neighboring.absolute neighboring.bundled := by decide +kernel
  refine ⟨⟨hfound, by decide +kernel, by decide +kernel, by decide +kernel, by decide +kernel, by rfl⟩, fun h => ?_⟩
  exact hoffside (h neighboring _ _ hfound)

end Installation

end CommandBatch.Extension
