import CommandBatch.Extension.Load
import CommandBatch.Proofs.Files.Path
import CommandBatch.Proofs.Outcome

/-!
# What gets out of loading

For much that is wrong with an extension, the interpreter has an error of its own: a file that is not there or
that is no module, a version that does not fit, a module without an entry, a registration that is refused.  What
it does not look for comes through as it is (`Slips`): a pointer file that is a directory, one whose bytes are no
text, a module that is a directory, a file that does not come to a module, an entry that breaks off with an error
of another kind, and a name, a version or a refusal that cannot be written (`Module.Slips`).
-/

namespace CommandBatch

open Files Text

/-- What can be found at a path can be read, unless it is a directory. -/
theorem Files.Workspace.read_of_has {α : Type} {w : Workspace α} {path : String} (h : w.has path = true) :
    (w.locate path = .ok .directory ∧ w.read path = .error (.blocked .isADirectory path)) ∨
      ∃ content, w.read path = .ok content := by
  unfold has at h
  unfold read
  cases hlocate : w.locate path with
  | error e =>
    rw [hlocate] at h
    cases h
  | ok node =>
    cases node with
    | directory => exact .inl ⟨rfl, rfl⟩
    | file content => exact .inr ⟨content, rfl⟩

/-- What can be read is there. -/
theorem Files.Workspace.has_of_read {α : Type} {w : Workspace α} {path : String} {content : α}
    (h : w.read path = .ok content) : w.has path = true := by
  unfold read at h
  unfold has
  cases hlocate : w.locate path with
  | error e =>
    rw [hlocate] at h
    cases h
  | ok node => rfl

namespace Extension

variable {σ : Type} {w : Installation σ} {names : List String} {f : Fault}

/-- Entering the module of a path breaks off with a fault that is no error of an extension. -/
inductive Module.Slips (m : Module σ) (path : String) : Fault → Prop
  /-- It is written for another version, which cannot be written. -/
  | version {error : ConversionError} (hcurrent : isCurrent m.writtenFor = false)
      (htext : m.writtenFor.toText = .error error) : Slips m path (.ofConversion error)
  /-- Its name cannot be written. -/
  | name {error : ConversionError} (hname : m.nameAt path = .error error) : Slips m path (.ofConversion error)
  /-- Its entry breaks off with an error of another kind. -/
  | entry {enter : String → σ → Except Fault (List (Registration σ)) × σ} {name : String} {host host₁ : σ}
      {f : Fault} (hentry : m.entry = some enter) (hname : m.nameAt path = .ok name)
      (henter : enter name host = (.error f, host₁)) (hother : ∀ x, f ≠ .extension x) : Slips m path f
  /-- The refusal of something that its entry registers cannot be written. -/
  | refusal {enter : String → σ → Except Fault (List (Registration σ)) × σ} {name : String} {host host₁ : σ}
      {rs : List (Registration σ)} {services : Services σ} {x : ExtensionError} (hentry : m.entry = some enter)
      (hname : m.nameAt path = .ok name) (henter : enter name host = (.ok rs, host₁))
      (hrefused : services.registerAll name rs = .error x) (hunwritable : x.isWritable = false) :
      Slips m path (.ofConversion .unwritable)

/-- Loading extensions breaks off with a fault that is no error of an extension. -/
inductive Slips (w : Installation σ) (names : List String) : Fault → Prop
  /-- A pointer file is a directory. -/
  | pointerDirectory {name : String} (hmem : name ∈ names)
      (hpointer : Path.endsIn pointerSuffix (lower name) = true) (hdirectory : w.locate name = .ok .directory) :
      Slips w names (.outside (.access (.blocked .isADirectory name)))
  /-- The bytes of a pointer file are no text. -/
  | pointerBytes {name : String} {file : SourceFile σ} {e : DecodeError} (hmem : name ∈ names)
      (hpointer : Path.endsIn pointerSuffix (lower name) = true) (hread : w.read name = .ok file)
      (hdecode : decodeUtf8 file.bytes = .error e) : Slips w names (.outside (.undecodable e))
  /-- A module is a directory. -/
  | moduleDirectory {paths : List String} {path : String} (hgather : w.gather names = .ok paths)
      (hmem : path ∈ paths) (hloadable : isLoadable path = true)
      (hdirectory : w.locate path = .ok .directory) :
      Slips w names (.outside (loadError path (.blocked .isADirectory path)))
  /-- A file does not come to a module, but to an error of another kind. -/
  | moduleFile {paths : List String} {path : String} {file : SourceFile σ} {f : Fault}
      (hgather : w.gather names = .ok paths) (hmem : path ∈ paths) (hloadable : isLoadable path = true)
      (hread : w.read path = .ok file) (hloaded : file.loaded = .error f) (hother : ∀ x, f ≠ .extension x) :
      Slips w names f
  /-- A module is loaded, but entering it breaks off. -/
  | module {paths : List String} {path : String} {file : SourceFile σ} {m : Module σ} {f : Fault}
      (hgather : w.gather names = .ok paths) (hmem : path ∈ paths) (hread : w.read path = .ok file)
      (hloaded : file.loaded = .ok m) (hslips : m.Slips path f) : Slips w names f

namespace Installation

/-- A text is not read for what is in the way to its file, or for its bytes. -/
theorem readText_error {path : String} (h : w.readText path = .error f) :
    (∃ e, w.read path = .error e ∧ f = .outside (.access e)) ∨
      ∃ file e, w.read path = .ok file ∧ decodeUtf8 file.bytes = .error e ∧ f = .outside (.undecodable e) := by
  unfold readText at h
  split at h
  · cases h
    exact .inl ⟨_, ‹_›, rfl⟩
  · rename_i file hread
    cases hdecode : decodeUtf8 file.bytes with
    | ok text =>
      rw [hdecode] at h
      cases h
    | error e =>
      rw [hdecode] at h
      cases h
      exact .inr ⟨file, e, hread, hdecode, rfl⟩

theorem readPointer_error {name : String} (h : w.readPointer name = .error f) :
    f = .extension (.missingPointer name) ∨
      (w.locate name = .ok .directory ∧ f = .outside (.access (.blocked .isADirectory name))) ∨
        ∃ file e, w.read name = .ok file ∧ decodeUtf8 file.bytes = .error e ∧ f = .outside (.undecodable e) := by
  unfold readPointer at h
  cases hhas : w.has name with
  | false =>
    rw [hhas] at h
    cases h
    exact .inl rfl
  | true =>
    rw [hhas] at h
    rcases bind_eq_error_iff.mp h with htext | ⟨text, -, hpure⟩
    · rcases readText_error htext with ⟨e, hread, rfl⟩ | hbytes
      · rcases Workspace.read_of_has hhas with ⟨hdirectory, hread'⟩ | ⟨file, hread'⟩
        · cases hread.symm.trans hread'
          exact .inr (.inl ⟨hdirectory, rfl⟩)
        · cases hread.symm.trans hread'
      · exact .inr (.inr hbytes)
    · cases hpure

/-- Only pointer files make a name stand for nothing. -/
theorem expand_error {name : String} (h : w.expand name = .error f) :
    Path.endsIn pointerSuffix (lower name) = true ∧ w.readPointer name = .error f := by
  unfold expand at h
  split at h
  · exact ⟨‹_›, h⟩
  · split at h <;> cases h

theorem gather_error (h : w.gather names = .error f) : (∃ x, f = .extension x) ∨ Slips w names f := by
  rcases bind_eq_error_iff.mp h with hexpand | ⟨paths, -, hpure⟩
  · obtain ⟨name, hmem, hname⟩ := exists_of_mapM_error hexpand
    obtain ⟨hpointer, hentries⟩ := expand_error hname
    rcases readPointer_error hentries with rfl | ⟨hdirectory, rfl⟩ | ⟨file, e, hread, hdecode, rfl⟩
    · exact .inl ⟨_, rfl⟩
    · exact .inr (.pointerDirectory hmem hpointer hdirectory)
    · exact .inr (.pointerBytes hmem hpointer hread hdecode)
  · cases hpure

/-- The paths of extensions do not depend on the working directory any more. -/
theorem below_of_gather {paths : List String} {path : String} (h : w.gather names = .ok paths)
    (hmem : path ∈ paths) : Path.below w.directory path = path := by
  obtain ⟨expanded, -, hpaths⟩ := bind_eq_ok_iff.mp h
  cases hpaths
  obtain ⟨path, -, rfl⟩ := List.mem_map.mp hmem
  exact Path.below_absolute ..

theorem moduleAt_error {path : String} (hbelow : Path.below w.directory path = path)
    (h : w.moduleAt path = .error f) :
    (∃ x, f = .extension x) ∨ isLoadable path = true ∧
      (w.locate path = .ok .directory ∧ f = .outside (loadError path (.blocked .isADirectory path)) ∨
        ∃ file, w.read path = .ok file ∧ file.loaded = .error f) := by
  unfold moduleAt at h
  cases hhas : w.has path with
  | false =>
    rw [hhas] at h
    cases h
    exact .inl ⟨_, rfl⟩
  | true =>
    cases hloadable : isLoadable path with
    | false =>
      rw [hhas, hloadable] at h
      cases h
      exact .inl ⟨_, rfl⟩
    | true =>
      rw [hhas, hloadable, hbelow] at h
      rcases Workspace.read_of_has hhas with ⟨hdirectory, hread⟩ | ⟨file, hread⟩
      · rw [hread] at h
        cases h
        exact .inr ⟨rfl, .inl ⟨hdirectory, rfl⟩⟩
      · rw [hread] at h
        exact .inr ⟨rfl, .inr ⟨file, hread, h⟩⟩

theorem moduleAt_ok {path : String} {m : Module σ} (h : w.moduleAt path = .ok m) :
    ∃ file, w.read (Path.below w.directory path) = .ok file ∧ file.loaded = .ok m := by
  unfold moduleAt at h
  split at h
  · cases h
  · split at h
    · cases h
    · split at h
      · exact ⟨_, ‹_›, h⟩
      · cases h

end Installation

theorem Module.install_error {m : Module σ} {path : String} {services : Services σ} {host : σ}
    (h : m.install path services host = .error f) : (∃ x, f = .extension x) ∨ m.Slips path f := by
  unfold install at h
  cases hcurrent : isCurrent m.writtenFor with
  | false =>
    rw [hcurrent] at h
    cases h
    unfold versionError
    split
    · exact .inl ⟨_, rfl⟩
    · next error htext => exact .inr (.version hcurrent htext)
  | true =>
    rw [hcurrent] at h
    cases hentry : m.entry with
    | none =>
      rw [hentry] at h
      cases h
      exact .inl ⟨_, rfl⟩
    | some enter =>
      rw [hentry] at h
      cases hname : m.nameAt path with
      | error error =>
        rw [hname] at h
        cases h
        exact .inr (.name hname)
      | ok name =>
        simp only [hname] at h
        obtain ⟨entered, host₁, henter⟩ : ∃ entered host₁, enter name host = (entered, host₁) := ⟨_, _, rfl⟩
        rw [henter] at h
        cases entered with
        | error f₁ =>
          cases h
          by_cases hx : ∃ x, f = .extension x
          · exact .inl hx
          · exact .inr (.entry hentry hname henter fun x hf => hx ⟨x, hf⟩)
        | ok rs =>
          cases hrefused : services.registerAll name rs with
          | ok services₁ =>
            simp [hrefused] at h
          | error x =>
            simp only [hrefused] at h
            obtain rfl : Fault.ofRefusal x = f := Except.error.inj h
            unfold Fault.ofRefusal
            split
            · exact .inl ⟨_, rfl⟩
            · next hunwritable =>
              exact .inr (.refusal hentry hname henter hrefused (Bool.eq_false_iff.mpr hunwritable))

namespace Installation

theorem install_error {paths : List String} {path : String} {services : Services σ} {host : σ}
    (hgather : w.gather names = .ok paths) (hmem : path ∈ paths)
    (h : w.install path services host = .error f) : (∃ x, f = .extension x) ∨ Slips w names f := by
  have hbelow := below_of_gather hgather hmem
  rcases bind_eq_error_iff.mp h with hmodule | ⟨m, hmodule, hinstall⟩
  · rcases moduleAt_error hbelow hmodule with hx | ⟨hloadable, ⟨hdirectory, rfl⟩ | ⟨file, hread, hloaded⟩⟩
    · exact .inl hx
    · exact .inr (.moduleDirectory hgather hmem hloadable hdirectory)
    · by_cases hx : ∃ x, f = .extension x
      · exact .inl hx
      · exact .inr (.moduleFile hgather hmem hloadable hread hloaded fun x hf => hx ⟨x, hf⟩)
  · refine (Module.install_error hinstall).imp_right fun hslips => ?_
    obtain ⟨file, hread, hloaded⟩ := moduleAt_ok hmodule
    rw [hbelow] at hread
    exact .module hgather hmem hread hloaded hslips

/-- **What gets out of loading**: an error of an extension, or one of the things that are not looked for. -/
theorem load_error {host : σ} (h : w.load names host = .error f) : (∃ x, f = .extension x) ∨ Slips w names f := by
  rcases bind_eq_error_iff.mp h with hgather | ⟨paths, hgather, hinstall⟩
  · exact gather_error hgather
  · obtain ⟨path, hmem, ⟨services, host₁⟩, hpath⟩ := exists_of_foldlM_error hinstall
    rcases bind_eq_error_iff.mp hpath with hpath | ⟨_, -, hpure⟩
    · exact install_error hgather hmem hpath
    · cases hpure

end Installation

end Extension

end CommandBatch
