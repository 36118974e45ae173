import CommandBatch.Files.Path
import CommandBatch.Proofs.Text.Words
import Mathlib.Data.List.Basic
import Mathlib.Data.List.TakeWhile

/-!
# Normal forms of paths

The normal form of a path is its root and its plain names with slashes between them.  These are what is
left when the names of the path have been followed one after the other (`foldl_enter_of_plain`), so a normal
form is its own normal form (`normal_normal`), and what is below a path by a plain name has just that name more
in its normal form (`normal_below`), whose parent is the normal form of the path (`parent_normal_below`).
-/

namespace CommandBatch.Files.Path

open Text

/-- What something in a directory can be called: the name holds no slash, is not empty, and stands for no
directory by itself. -/
structure IsPlain (name : String) : Prop where
  slashless : '/' ∉ name.toList
  nonempty : name ≠ ""
  notHere : name ≠ "."
  notAbove : name ≠ ".."

theorem IsPlain.toList_ne_nil {name : String} (h : IsPlain name) : name.toList ≠ [] :=
  fun hnil => h.nonempty (String.toList_eq_nil_iff.mp hnil)

/-! ## Following names -/

theorem enter_of_plain {name : String} (h : IsPlain name) (stack : List String) :
    enter stack name = name :: stack := by
  rw [enter, if_neg (not_or.mpr ⟨h.nonempty, h.notHere⟩), if_neg h.notAbove]

theorem foldl_enter_of_plain {names : List String} (h : ∀ name ∈ names, IsPlain name) (stack : List String) :
    names.foldl enter stack = names.reverse ++ stack := by
  induction names generalizing stack with
  | nil => rfl
  | cons name names ih =>
    obtain ⟨hname, hnames⟩ := List.forall_mem_cons.mp h
    rw [List.foldl_cons, enter_of_plain hname, ih hnames, List.reverse_cons, List.append_assoc,
      List.singleton_append]

theorem isPlain_enter {name : String} {stack : List String} (hname : '/' ∉ name.toList)
    (hstack : ∀ other ∈ stack, IsPlain other) : ∀ other ∈ enter stack name, IsPlain other := by
  intro other hother
  unfold enter at hother
  split at hother
  · exact hstack other hother
  · rename_i hplain
    split at hother
    · exact hstack other (List.mem_of_mem_tail hother)
    · rename_i habove
      obtain ⟨hempty, hhere⟩ := not_or.mp hplain
      rcases List.mem_cons.mp hother with rfl | hother
      · exact ⟨hname, hempty, hhere, habove⟩
      · exact hstack other hother

theorem slashless_of_mem_names {path name : String} (h : name ∈ names path) : '/' ∉ name.toList := by
  obtain ⟨piece, hpiece, rfl⟩ := List.mem_map.mp h
  rw [String.toList_ofList]
  exact not_mem_of_mem_piecesAt hpiece

/-- What is left of a path is plain. -/
theorem isPlain_of_mem_plainNames {path name : String} (h : name ∈ plainNames path) : IsPlain name := by
  have hfold (names stack : List String) (hnames : ∀ name ∈ names, '/' ∉ name.toList)
      (hstack : ∀ name ∈ stack, IsPlain name) : ∀ name ∈ names.foldl enter stack, IsPlain name := by
    induction names generalizing stack with
    | nil => exact hstack
    | cons name names ih =>
      obtain ⟨hname, hnames⟩ := List.forall_mem_cons.mp hnames
      exact ih (enter stack name) hnames (isPlain_enter hname hstack)
  exact hfold (names path) [] (fun _ => slashless_of_mem_names) nofun name (List.mem_reverse.mp h)

/-! ## Paths below others -/

theorem names_slash (a b : String) : names (a ++ "/" ++ b) = names a ++ names b := by
  have hchars : (a ++ "/" ++ b).toList = a.toList ++ '/' :: b.toList := by simp
  rw [names, hchars, piecesAt_append_mark, List.map_append]
  rfl

/-- A path that ends with a slash has an empty name at its end. -/
theorem exists_of_getLast?_slash {base : String} (h : base.toList.getLast? = some '/') :
    ∃ a, base = a ++ "/" := by
  obtain ⟨cs, hcs⟩ := List.getLast?_eq_some_iff.mp h
  exact ⟨.ofList cs, String.toList_inj.mp (by simp [hcs])⟩

/-- **A path below another** is followed when the other has been followed. -/
theorem foldl_names_below {path : String} (h : isAbsolute path = false) (base : String) (stack : List String) :
    (names (below base path)).foldl enter stack =
      (names path).foldl enter ((names base).foldl enter stack) := by
  rw [below, if_neg (by rw [h]; exact Bool.false_ne_true)]
  split
  · rename_i hend
    rcases hend with rfl | hlast
    · rw [String.empty_append]
      rfl
    · obtain ⟨a, rfl⟩ := exists_of_getLast?_slash hlast
      have hslash : names (a ++ "/") = names a ++ [""] := by
        have hempty := names_slash a ""
        rwa [String.append_empty] at hempty
      rw [names_slash, hslash, List.foldl_append, List.foldl_append]
      rfl
  · rw [names_slash, List.foldl_append]

theorem names_of_slashless {name : String} (h : '/' ∉ name.toList) : names name = [name] := by
  rw [names, piecesAt_of_not_mem h, List.map_singleton, String.ofList_toList]

theorem isAbsolute_of_slashless {name : String} (h : '/' ∉ name.toList) : isAbsolute name = false := by
  refine beq_eq_false_iff_ne.mpr fun hhead => h ?_
  exact List.mem_of_mem_head? hhead

theorem plainNames_below {name : String} (h : IsPlain name) (base : String) :
    plainNames (below base name) = plainNames base ++ [name] := by
  rw [plainNames, foldl_names_below (isAbsolute_of_slashless h.slashless), names_of_slashless h.slashless,
    List.foldl_cons, List.foldl_nil, enter_of_plain h, List.reverse_cons]
  rfl

/-- What stands between a path and another one below it. -/
def gap (base : String) : String := if base = "" ∨ base.toList.getLast? = some '/' then "" else "/"

theorem below_eq {path : String} (h : isAbsolute path = false) (base : String) :
    below base path = base ++ gap base ++ path := by
  rw [below, if_neg (by rw [h]; exact Bool.false_ne_true), gap]
  split
  · rw [String.append_empty]
  · rfl

theorem gap_append {b : String} (hb : b ≠ "") (a : String) : gap (a ++ b) = gap b := by
  have hchars : b.toList ≠ [] := fun hnil => hb (String.toList_eq_nil_iff.mp hnil)
  have hempty : a ++ b ≠ "" := fun hnil => by
    rw [← String.toList_eq_nil_iff, String.toList_append] at hnil
    exact hchars (List.append_eq_nil_iff.mp hnil).2
  rw [gap, gap, String.toList_append, List.getLast?_append_of_ne_nil _ hchars]
  simp only [hempty, hb, false_or]

theorem gap_append_gap (a : String) : gap (a ++ gap a) = "" := by
  by_cases h : a = "" ∨ a.toList.getLast? = some '/'
  · rw [gap, gap, if_pos h, String.append_empty, if_pos h]
  · have hslash : gap a = "/" := if_neg h
    rw [hslash, gap_append (by decide)]
    rfl

theorem isAbsolute_append {a : String} (ha : a ≠ "") (b : String) : isAbsolute (a ++ b) = isAbsolute a := by
  have hchars : a.toList ≠ [] := fun hnil => ha (String.toList_eq_nil_iff.mp hnil)
  rw [isAbsolute, isAbsolute, String.toList_append, List.head?_append_of_ne_nil _ hchars]

/-- **Paths are joined from the left as from the right.** -/
theorem below_below {path : String} (h : isAbsolute path = false) (directory base : String) :
    below directory (below base path) = below (below directory base) path := by
  by_cases hempty : base = ""
  · subst hempty
    have hhere : below "" path = path := by
      rw [below_eq h]
      simp [gap]
    have hnone : isAbsolute "" = false := rfl
    rw [hhere, below_eq h, below_eq h, below_eq hnone, String.append_empty, gap_append_gap, String.append_empty]
  · have hbelow : isAbsolute (below base path) = isAbsolute base := by
      rw [below_eq h, String.append_assoc, isAbsolute_append hempty]
    cases habsolute : isAbsolute base with
    | true =>
      have hbase : below directory base = base := if_pos habsolute
      rw [hbase]
      exact if_pos (hbelow.trans habsolute)
    | false =>
      rw [below_eq (hbelow.trans habsolute), below_eq h, below_eq h, below_eq habsolute, gap_append hempty]
      simp only [String.append_assoc]

/-! ## Roots -/

/-- Two slashes are a root of their own, and any other number of them is one. -/
theorem root_eq (cs : List Char) :
    root cs = if (cs.takeWhile (· = '/')).length = 2 then ['/', '/'] else ['/'] := by
  unfold root
  split
  · simp
  · rename_i rest hthree
    have hrest : rest.takeWhile (· = '/') = [] := by
      cases rest with
      | nil => rfl
      | cons c rest =>
        have hc : c ≠ '/' := fun hc => hthree rest (by rw [hc])
        simp [hc]
    simp [hrest]
  · rename_i htwo
    cases cs with
    | nil => rfl
    | cons c cs =>
      by_cases hc : c = '/'
      · subst hc
        cases cs with
        | nil => rfl
        | cons d cs =>
          have hd : d ≠ '/' := fun hd => htwo cs (by rw [hd])
          simp [hd]
      · simp [hc]

theorem root_cases (cs : List Char) : root cs = ['/'] ∨ root cs = ['/', '/'] := by
  rw [root_eq]
  split
  · exact .inr rfl
  · exact .inl rfl

theorem root_append {ds : List Char} (h : ds.head? ≠ some '/') (cs : List Char) : root (cs ++ ds) = root cs := by
  have hds : ds.takeWhile (· = '/') = [] := by
    cases ds with
    | nil => rfl
    | cons d ds =>
      have hd : d ≠ '/' := fun hd => h (by rw [hd, List.head?_cons])
      simp [hd]
  rw [root_eq, root_eq, List.takeWhile_append, hds, List.append_nil]
  split
  · rename_i hall
    rw [(List.takeWhile_prefix _).eq_of_length hall]
  · rfl

theorem root_append_slash {cs : List Char} (hne : cs ≠ []) (h : cs.getLast? ≠ some '/') (ds : List Char) :
    root (cs ++ '/' :: ds) = root cs := by
  have hother : (cs.takeWhile (· = '/')).length ≠ cs.length := by
    intro hall
    have hcs := (List.takeWhile_prefix _).eq_of_length hall
    have hmem : cs.getLast hne ∈ cs.takeWhile (· = '/') := by
      rw [hcs]
      exact List.getLast_mem hne
    have hlast := List.mem_takeWhile_imp hmem
    exact h (by rw [List.getLast?_eq_some_getLast hne, of_decide_eq_true hlast])
  rw [root_eq, root_eq, List.takeWhile_append, if_neg hother]

theorem root_below {name : String} (h : IsPlain name) (base : String) :
    root (below base name).toList = root base.toList := by
  have hhead : name.toList.head? ≠ some '/' := fun hhead => h.slashless (List.mem_of_mem_head? hhead)
  rw [below, if_neg (by rw [isAbsolute_of_slashless h.slashless]; exact Bool.false_ne_true)]
  split
  · rw [String.toList_append]
    exact root_append hhead base.toList
  · rename_i hend
    obtain ⟨hempty, hlast⟩ := not_or.mp hend
    have hchars : (base ++ "/" ++ name).toList = base.toList ++ '/' :: name.toList := by simp
    rw [hchars]
    exact root_append_slash (fun hnil => hempty (String.toList_eq_nil_iff.mp hnil)) hlast name.toList

/-! ## Normal forms -/

theorem toList_normal (path : String) :
    (normal path).toList = root path.toList ++ ['/'].intercalate ((plainNames path).map String.toList) := by
  rw [normal, String.toList_append, String.toList_ofList, String.toList_intercalate]
  rfl

/-- The normal form is a root, or does not end with a slash. -/
theorem normal_cases (path : String) :
    plainNames path = [] ∧ (normal path).toList = root path.toList ∨
      plainNames path ≠ [] ∧ ∃ c, (normal path).toList.getLast? = some c ∧ c ≠ '/' := by
  rcases List.eq_nil_or_concat (plainNames path) with hnil | ⟨before, name, hlast⟩
  · refine .inl ⟨hnil, ?_⟩
    rw [toList_normal, hnil, List.map_nil]
    exact List.append_nil _
  · have hplain : IsPlain name := isPlain_of_mem_plainNames (by rw [hlast]; simp)
    have hends : ∃ cs, (normal path).toList = cs ++ name.toList := by
      rw [toList_normal, hlast, List.concat_eq_append, List.map_append, List.map_singleton]
      rcases List.eq_nil_or_concat before with rfl | ⟨others, other, rfl⟩
      · exact ⟨root path.toList, by simp⟩
      · rw [intercalate_concat (by simp)]
        exact ⟨root path.toList ++ ['/'].intercalate ((others.concat other).map String.toList) ++ ['/'], by simp⟩
    obtain ⟨cs, hends⟩ := hends
    rw [hends, List.getLast?_append_of_ne_nil _ hplain.toList_ne_nil,
      List.getLast?_eq_some_getLast hplain.toList_ne_nil]
    exact .inr ⟨by simp [hlast], _, rfl, fun hslash => hplain.slashless (hslash ▸ List.getLast_mem _)⟩

/-- Below a normal form stands a slash, unless it is a root, and the name. -/
theorem toList_normal_below {name : String} (h : IsPlain name) (base : String) :
    (normal (below base name)).toList =
      if plainNames base = [] then root base.toList ++ name.toList
      else (normal base).toList ++ '/' :: name.toList := by
  rw [toList_normal, plainNames_below h, root_below h, List.map_append, List.map_singleton]
  split
  · rename_i hnil
    simp [hnil]
  · rename_i hne
    rw [intercalate_concat (by simpa using hne), toList_normal, List.append_assoc]

/-- The name behind the last slash, and what is in front of it. -/
theorem parts_append {name : List Char} (h : '/' ∉ name) (cs : List Char) :
    firstPart (cs ++ '/' :: name) = cs ++ ['/'] ∧ lastPart (cs ++ '/' :: name) = name := by
  have hname : ∀ c ∈ name.reverse, decide (c ≠ '/') = true := fun c hc =>
    decide_eq_true fun hslash => h (hslash ▸ List.mem_reverse.mp hc)
  have hreverse : (cs ++ '/' :: name).reverse = name.reverse ++ '/' :: cs.reverse := by simp
  constructor
  · rw [firstPart, hreverse, List.dropWhile_append_of_pos hname, List.dropWhile_cons_of_neg (by simp)]
    simp
  · rw [lastPart, hreverse, List.takeWhile_append_of_pos hname, List.takeWhile_cons_of_neg (by simp)]
    simp

theorem baseName_of_append {path : String} {cs name : List Char} (h : '/' ∉ name)
    (hpath : path.toList = cs ++ '/' :: name) : baseName path = .ofList name := by
  rw [baseName, hpath, (parts_append h cs).2]

/-- A directory that is no root is written without the slash behind it. -/
theorem parent_of_append {path : String} {cs name : List Char} (h : '/' ∉ name)
    (hpath : path.toList = cs ++ '/' :: name) (hlast : ∃ c, cs.getLast? = some c ∧ c ≠ '/') :
    parent path = .ofList cs := by
  obtain ⟨c, hc, hslash⟩ := hlast
  obtain ⟨before, rfl⟩ := List.getLast?_eq_some_iff.mp hc
  have hall : (before ++ [c] ++ ['/']).all (· = '/') = false := by simp [hslash]
  rw [parent, hpath, (parts_append h _).1]
  simp [hslash]

theorem parent_of_root {path : String} {cs name : List Char} (h : '/' ∉ name)
    (hpath : path.toList = cs ++ '/' :: name) (hroot : ∀ c ∈ cs, c = '/') : parent path = .ofList (cs ++ ['/']) := by
  rw [parent, hpath, (parts_append h _).1]
  have hall : (cs ++ ['/']).all (· = '/') = true := by
    simpa using hroot
  exact if_pos hall

/-- **The normal form of what is below a path** by a plain name is below the normal form of the path by it. -/
theorem normal_below {name : String} (h : IsPlain name) (base : String) :
    normal (below base name) = below (normal base) name := by
  refine String.toList_inj.mp ?_
  rw [toList_normal_below h, below_eq (isAbsolute_of_slashless h.slashless), String.toList_append,
    String.toList_append, gap]
  rcases normal_cases base with ⟨hnil, hroot⟩ | ⟨hne, c, hc, hslash⟩
  · have hslash : (normal base).toList.getLast? = some '/' := by
      rw [hroot]
      rcases root_cases base.toList with hroot | hroot <;> rw [hroot] <;> rfl
    rw [if_pos hnil, if_pos (.inr hslash), hroot, String.toList_empty, List.append_nil]
  · have hlast : (normal base).toList.getLast? ≠ some '/' := by
      rw [hc]
      exact fun hsome => hslash (Option.some.inj hsome)
    have hnonempty : normal base ≠ "" := fun hnil => by
      rw [hnil] at hc
      cases hc
    rw [if_neg hne, if_neg (not_or.mpr ⟨hnonempty, hlast⟩), List.append_assoc]
    rfl

/-- **What is below a path by a plain name** is, in normal form, in the directory of the path. -/
theorem parent_normal_below {name : String} (h : IsPlain name) (base : String) :
    parent (normal (below base name)) = normal base ∧ baseName (normal (below base name)) = name := by
  have hchars := toList_normal_below h base
  rcases normal_cases base with ⟨hnil, hroot⟩ | ⟨hne, hlast⟩
  · rw [if_pos hnil] at hchars
    obtain ⟨slashes, hslashes, hall⟩ : ∃ slashes, root base.toList = slashes ++ ['/'] ∧ ∀ c ∈ slashes, c = '/' := by
      rw [root_eq]
      split
      · exact ⟨['/'], rfl, by simp⟩
      · exact ⟨[], rfl, by simp⟩
    rw [hslashes, List.append_assoc, List.singleton_append] at hchars
    constructor
    · rw [parent_of_root h.slashless hchars hall, ← hslashes, ← hroot, String.ofList_toList]
    · rw [baseName_of_append h.slashless hchars, String.ofList_toList]
  · rw [if_neg hne] at hchars
    constructor
    · rw [parent_of_append h.slashless hchars hlast, String.ofList_toList]
    · rw [baseName_of_append h.slashless hchars, String.ofList_toList]

theorem root_normal (path : String) : root (normal path).toList = root path.toList := by
  have hhead : (['/'].intercalate ((plainNames path).map String.toList)).head? ≠ some '/' := by
    cases hnames : plainNames path with
    | nil => simp
    | cons name names =>
      have hname : IsPlain name := isPlain_of_mem_plainNames (hnames ▸ List.mem_cons_self ..)
      have hfirst : name.toList.head? ≠ some '/' := fun hslash => hname.slashless (List.mem_of_mem_head? hslash)
      cases names with
      | nil => simpa using hfirst
      | cons next names =>
        rw [List.map_cons, List.map_cons, List.intercalate_cons_cons, List.append_assoc,
          List.head?_append_of_ne_nil _ hname.toList_ne_nil]
        exact hfirst
  rw [toList_normal, root_append hhead]
  rcases root_cases path.toList with hroot | hroot <;> rw [hroot] <;> rfl

/-- Plain names with slashes between them are followed to themselves. -/
theorem foldl_enter_intercalate {ns : List String} (h : ∀ name ∈ ns, IsPlain name) :
    ((piecesAt '/' (['/'].intercalate (ns.map String.toList))).map String.ofList).foldl enter [] = ns.reverse := by
  by_cases hnil : ns = []
  · subst hnil
    rfl
  · have hpieces : piecesAt '/' (['/'].intercalate (ns.map String.toList)) = ns.map String.toList :=
      piecesAt_intercalate (by simpa using hnil) (List.forall_mem_map.mpr fun name hname => (h name hname).slashless)
    have hself : (ns.map String.toList).map String.ofList = ns := by simp
    rw [hpieces, hself, foldl_enter_of_plain h, List.append_nil]

theorem plainNames_normal (path : String) : plainNames (normal path) = plainNames path := by
  have hbehind := foldl_enter_intercalate fun name (hname : name ∈ plainNames path) =>
    isPlain_of_mem_plainNames hname
  have hslash (cs : List Char) : piecesAt '/' ('/' :: cs) = [] :: piecesAt '/' cs := piecesAt_append_mark '/' [] cs
  refine List.reverse_eq_iff.mpr ?_
  -- The empty names at the root make no difference.
  rw [names, toList_normal]
  rcases root_cases path.toList with hroot | hroot
  · rw [hroot, List.singleton_append, hslash, List.map_cons, List.foldl_cons]
    exact hbehind
  · rw [hroot, List.cons_append, List.singleton_append, hslash, hslash, List.map_cons, List.map_cons,
      List.foldl_cons, List.foldl_cons]
    exact hbehind

/-- **A normal form is its own normal form.** -/
theorem normal_normal (path : String) : normal (normal path) = normal path := by
  refine String.toList_inj.mp ?_
  rw [toList_normal (normal path), root_normal, plainNames_normal, toList_normal]

/-- The normal form of a path is absolute. -/
theorem isAbsolute_normal (path : String) : isAbsolute (normal path) = true := by
  rw [isAbsolute, toList_normal]
  rcases root_cases path.toList with hroot | hroot <;> rw [hroot] <;> rfl

theorem below_absolute (base directory path : String) :
    below base (absolute directory path) = absolute directory path :=
  if_pos (isAbsolute_normal _)

/-- What is absolute and in normal form stays as it is wherever it is seen from. -/
theorem absolute_absolute (base directory path : String) :
    absolute base (absolute directory path) = absolute directory path := by
  rw [absolute, below_absolute, absolute, normal_normal]

end CommandBatch.Files.Path
