import CommandBatch.Proofs.Command.Binding
import CommandBatch.Proofs.Line.Literals
import CommandBatch.Proofs.Run.Requests
import CommandBatch.Proofs.Text.UpperCase

/-!
# Commands that can be called

A command can be called by its name if three places agree on what the name is: the declaration that is granted,
the registry that keeps the command under its name in upper case, and the reader of lines that takes the first
word.  Registrations do no more than to put the commands that are granted into the registry (`enrolled_eq`).  So
after any of them the last that was granted under a name is found (`find?_enrolled`), and every spelling of the
name is a line that calls it (`registered_is_called`).  The exceptions are names that begin with the mark of
comments: a line that begins so is a comment, whatever is registered (`comment_calls_nothing`).
-/

namespace CommandBatch

open Text

variable {σ : Type}

/-! ## Spellings -/

namespace Text

/-- No letter has an upper-case form that begins like a comment. -/
theorem head?_upperList_hash_iff {cs : List Char} : (upperList cs).head? = some '#' ↔ cs.head? = some '#' := by
  cases cs with
  | nil => rfl
  | cons c cs =>
    rw [List.head?_cons, Option.some.injEq]
    constructor
    · intro h
      rcases mem_upperChar (mem_head?_upperList h) with ⟨hself, -⟩ | hcapital
      · exact hself.symm
      · exact absurd rfl hcapital.noComment
    · rintro rfl
      rw [upperList_cons, show upperChar '#' = ['#'] by decide +kernel]
      rfl

theorem upper_ne_empty {s : String} (h : s ≠ "") : upper s ≠ "" := by
  intro he
  have hnil : upperList s.toList = [] := by rw [← toList_upper, he, String.toList_empty]
  exact upperList_ne_nil (fun hs => h (String.toList_injective hs)) hnil

/-- The word is the name up to the case of its letters, and has no blanks. -/
structure Spelling (word name : String) : Prop where
  upper_eq : upper word = upper name
  unbroken : ∀ c ∈ word.toList, isBlank c = false

namespace Spelling

variable {word name : String}

theorem head?_hash_iff (h : Spelling word name) :
    word.toList.head? = some '#' ↔ name.toList.head? = some '#' := by
  have hletters : upperList word.toList = upperList name.toList := by
    rw [← toList_upper, h.upper_eq, toList_upper]
  rw [← head?_upperList_hash_iff, hletters, head?_upperList_hash_iff]

theorem ne_nil (h : Spelling word name) (hname : name ≠ "") : word.toList ≠ [] := by
  intro hnil
  obtain rfl : word = "" := String.toList_injective hnil
  exact upper_ne_empty hname h.upper_eq.symm

theorem trim_eq (h : Spelling word name) : trim word.toList = word.toList := trim_eq_self_of_forall h.unbroken

end Spelling

end Text

namespace Line

variable {types : List TokenType} {word name : String}

/-- A spelling of a name is read as the name, without arguments. -/
theorem read_spelling (h : Spelling word name) (hname : name ≠ "") (hcomment : name.toList.head? ≠ some '#') :
    read types {} word = .ok ⟨upper name, []⟩ := by
  have hseparates : ∀ c ∈ word.toList, ({} : Marks).separates c = false := fun c hc => by
    rw [Bool.eq_false_iff, Ne, separates_default_iff]
    rintro (rfl | rfl) <;> exact absurd (h.unbroken _ hc) (by decide)
  have harguments : Arguments types {} [] [' '] [] := .none (by decide)
  have hread := read_word (h.ne_nil hname) hseparates (h.head?_hash_iff.not.mpr hcomment)
    (fun c hc => h.unbroken c (List.mem_of_mem_head? hc)) (fun _ c hc => h.unbroken c (List.mem_of_getLast? hc))
    (fun _ hp => absurd hp List.not_mem_nil) harguments
  rwa [joined, List.append_nil, String.ofList_toList, ← upper, h.upper_eq] at hread

/-- A spelling of a name that begins with the mark of comments is read as a comment. -/
theorem read_comment (h : Spelling word name) (hcomment : name.toList.head? = some '#') :
    read types {} word = .ok {} := by
  obtain ⟨cs, hcs⟩ := List.head?_eq_some_iff.mp (h.head?_hash_iff.mpr hcomment)
  have hmark : ({} : Marks).isComment (trim word.toList) = true := by
    rw [h.trim_eq, hcs]
    simp [Marks.isComment]
  simp [read, hmark]

end Line

/-! ## Arguments that are left out -/

/-- Without arguments, a command whose optional parameters stand last gets none, unless it needs some. -/
theorem Signature.bind_nil {s : Signature} (htrail : Parameter.OptionalsTrail s.params) (env : Environment) :
    s.bind env [] =
      if ∀ p ∈ s.params, p.optional = true then .ok [] else .error (.tooFew s.name s.least 0) := by
  unfold bind
  cases hparams : s.params with
  | nil => rfl
  | cons p ps =>
    rw [hparams] at htrail
    cases hp : p.optional with
    | true =>
      have hall : ∀ q ∈ p :: ps, q.optional = true :=
        List.forall_mem_cons.mpr ⟨hp, fun q hq => (List.pairwise_cons.mp htrail).1 q hq hp⟩
      rw [if_pos hall, bindFrom, if_pos hp]
    | false =>
      have hnot : ¬∀ q ∈ p :: ps, q.optional = true := fun hall => by
        rw [hall p (List.mem_cons_self ..)] at hp
        cases hp
      rw [if_neg hnot, bindFrom, if_neg (by simp [hp])]
      rfl

/-! ## Registrations -/

/-- What a registration of a command asks for. -/
structure CommandRequest (σ : Type) where
  declaration : Declaration
  handler : Option (Handler σ)

/-- The command that is asked for, if the declaration makes sense. -/
def CommandRequest.granted? (q : CommandRequest σ) : Option (Command (Handler σ)) :=
  (q.declaration.command q.handler).toOption

theorem CommandRequest.granted?_eq_some_iff {q : CommandRequest σ} {c : Command (Handler σ)} :
    q.granted? = some c ↔ q.declaration.command q.handler = .ok c := by
  unfold granted?
  cases q.declaration.command q.handler <;> simp [Except.toOption]

/-- The last command that is granted under a name, in any case. -/
def latest? (asked : List (CommandRequest σ)) (name : String) : Option (Command (Handler σ)) :=
  (asked.filterMap CommandRequest.granted?).reverse.find? fun c => upper name = upper c.signature.name

theorem CommandRequest.name_of_granted {q : CommandRequest σ} {c : Command (Handler σ)} (h : q.granted? = some c) :
    ∃ name, q.declaration.name = .text name ∧ name ≠ "" ∧ c.signature.name = upper name := by
  obtain ⟨name, hword, hname, -⟩ := Declaration.parts_of_command (granted?_eq_some_iff.mp h)
  obtain ⟨hdeclared, hne, -⟩ := Declaration.word?_eq_some_iff.mp hword
  exact ⟨name, hdeclared, hne, hname⟩

section Latest
variable {asked : List (CommandRequest σ)} {name : String}

/-- There is a last command under every name under which one is granted. -/
theorem exists_latest {q : CommandRequest σ} {c : Command (Handler σ)} (hq : q ∈ asked) (hc : q.granted? = some c)
    (hname : c.signature.name = upper name) : ∃ latest, latest? asked name = some latest := by
  rw [← Option.isSome_iff_exists, latest?, List.find?_isSome]
  exact ⟨c, List.mem_reverse.mpr (List.mem_filterMap.mpr ⟨q, hq, hc⟩), by simp [hname]⟩

/-- The last command of a name is one that was granted, and carries the name in upper case. -/
theorem granted_of_latest {latest : Command (Handler σ)} (h : latest? asked name = some latest) :
    (∃ q ∈ asked, q.granted? = some latest) ∧ latest.signature.name = upper name := by
  obtain ⟨q, hq, hgranted⟩ := List.mem_filterMap.mp (List.mem_reverse.mp (List.mem_of_find?_eq_some h))
  obtain ⟨declared, -, -, hname⟩ := q.name_of_granted hgranted
  have hsame : upper name = upper latest.signature.name := by simpa using List.find?_some h
  refine ⟨⟨q, hq, hgranted⟩, ?_⟩
  rw [hsame, hname, upper_upper]

end Latest

namespace Engine

/-- The engine behind these registrations, one after the other. -/
def enrolled (asked : List (CommandRequest σ)) (e : Engine σ) : Engine σ :=
  asked.foldl (fun e q => engineOf (registerCommand q.declaration q.handler e)) e

/-- **Registrations put the commands that are granted into the registry**, in their order. -/
theorem enrolled_eq (asked : List (CommandRequest σ)) (e : Engine σ) :
    enrolled asked e =
      { e with services := { e.services with
          commands := (asked.filterMap CommandRequest.granted?).foldl .register e.services.commands } } := by
  induction asked generalizing e with
  | nil => rfl
  | cons q asked ih =>
    rw [enrolled, List.foldl_cons, engineOf_registerCommand, ← CommandRequest.granted?, ← enrolled, ih,
      List.filterMap_cons]
    cases q.granted? <;> rfl

@[simp] theorem enrolled_setup (asked : List (CommandRequest σ)) (e : Engine σ) :
    (enrolled asked e).setup = e.setup := by
  rw [enrolled_eq]

/-- So the last command of a name is found, and what was there before if none was granted. -/
theorem find?_enrolled (asked : List (CommandRequest σ)) (e : Engine σ) (name : String) :
    (enrolled asked e).services.commands.find? name =
      (latest? asked name).or (e.services.commands.find? name) := by
  rw [enrolled_eq]
  exact CommandRegistry.find?_foldl_register_eq ..

/-! ## Calls -/

section Spelled
variable {e : Engine σ} {word name : String}

/-- A spelling of a name is taken for the command of this name. -/
theorem interpret_spelling (hmarks : e.setup.marks = {}) (hword : Spelling word name) (hne : name ≠ "")
    (hcomment : name.toList.head? ≠ some '#') :
    interpret word e = .ok 0 (understood ⟨upper name, []⟩ (faced word e)) := by
  rw [interpret_eq, hmarks, Line.read_spelling hword hne hcomment]
  rfl

/-- A spelling of a name that begins with the mark of comments calls nothing. -/
theorem comment_calls_nothing (go : Task → Process σ Int) (hmarks : e.setup.marks = {})
    (hword : Spelling word name) (hcomment : name.toList.head? = some '#') :
    interpret word e = .ok 0 (understood {} (faced word e)) ∧
      execute go (understood {} (faced word e)) = .ended (.ok 0 (understood {} (faced word e))) := by
  rw [interpret_eq, hmarks, Line.read_comment hword hcomment]
  exact ⟨rfl, rfl⟩

end Spelled

/-- What a call of a command comes to, for the text that names it. -/
def calling (go : Task → Process σ Int) (c : Command (Handler σ)) (args : List Value) (text : String) :
    Process σ Int := do
  let outcome ← (playOut go (c.handler args)).attempt
  .ofAct (outcomeCode c.signature.name text outcome)

/-- A line that names a command and has no arguments calls it, if it can do without arguments. -/
theorem execute_of_named (go : Task → Process σ Int) {e : Engine σ} {c : Command (Handler σ)}
    (hname : e.progress.command = c.signature.name) (hne : c.signature.name ≠ "") (hargs : e.progress.args = [])
    (hfind : e.services.commands.find? e.progress.command = some c)
    (htrail : Parameter.OptionalsTrail c.signature.params) :
    execute go e =
      if ∀ p ∈ c.signature.params, p.optional = true then calling go c [] e.progress.text e
      else .ended (fail (.tooFew c.signature.name c.signature.least 0) e.progress.text e) := by
  have hcommand : e.progress.command ≠ "" := hname ▸ hne
  have hbind := c.signature.bind_nil htrail e.env
  rw [← hargs] at hbind
  split_ifs at hbind ⊢
  · simp only [execute, if_neg hcommand, hfind, hbind]
    rw [calling, hname, hargs]
  · exact execute_of_refuses (.unbound hcommand hfind hbind)

/-- **Every command that is registered can be called**, whatever registrations are asked for, in any spelling of its
name that has no blanks, unless the name begins with the mark of comments.  The line is read as the name under which
the last command of the name is kept; that command is found, and its handler is called if no argument is
required. -/
theorem registered_is_called (go : Task → Process σ Int) {e : Engine σ} (hmarks : e.setup.marks = {})
    {asked : List (CommandRequest σ)} {q : CommandRequest σ} (hq : q ∈ asked) {c : Command (Handler σ)}
    (hc : q.granted? = some c) {name : String} (hname : q.declaration.name = .text name)
    (hcomment : name.toList.head? ≠ some '#') {word : String} (hword : Spelling word name) :
    ∃ latest, latest? asked name = some latest ∧
      Line.read (enrolled asked e).services.types.types (enrolled asked e).setup.marks word =
        .ok ⟨upper name, []⟩ ∧
      (enrolled asked e).services.commands.commands.get? (upper name) = some latest ∧
      ∃ e₁, interpret word (enrolled asked e) = .ok 0 e₁ ∧ e₁.progress.command = upper name ∧
        e₁.services.commands.find? e₁.progress.command = some latest ∧
        execute go e₁ =
          if ∀ p ∈ latest.signature.params, p.optional = true then calling go latest [] word e₁
          else .ended (fail (.tooFew latest.signature.name latest.signature.least 0) word e₁) := by
  obtain ⟨declared, hdeclared, hne, hsignature⟩ := q.name_of_granted hc
  obtain rfl : declared = name := Datum.text.inj (hdeclared.symm.trans hname)
  obtain ⟨latest, hlatest⟩ := exists_latest hq hc hsignature
  obtain ⟨⟨q', -, hgranted⟩, hlatestName⟩ := granted_of_latest hlatest
  have hdefault : (enrolled asked e).setup.marks = {} := by rw [enrolled_setup, hmarks]
  have hread : Line.read (enrolled asked e).services.types.types (enrolled asked e).setup.marks word =
      .ok ⟨upper declared, []⟩ := by
    rw [hdefault, Line.read_spelling hword hne hcomment]
  have hfind : (enrolled asked e).services.commands.find? (upper declared) = some latest := by
    rw [CommandRegistry.find?, upper_upper]
    exact (find?_enrolled asked e declared).trans (by rw [hlatest]; rfl)
  refine ⟨latest, hlatest, hread, ?_, _, interpret_spelling hdefault hword hne hcomment, rfl, hfind, ?_⟩
  · rwa [CommandRegistry.find?, upper_upper] at hfind
  · exact execute_of_named go hlatestName.symm (hlatestName ▸ upper_ne_empty hne) rfl hfind
      (Declaration.optionalsTrail (CommandRequest.granted?_eq_some_iff.mp hgranted))

/-- A handler that answers with a code. -/
def coded (code : Int) : Handler Unit := fun _ => .done (.whole code)

/-- A name that is registered in two spellings, with a handler each. -/
def streets : List (CommandRequest Unit) :=
  [⟨{ name := .text "straße" }, some (coded 3)⟩, ⟨{ name := .text "Strasse" }, some (coded 5)⟩]

/-- The name in a third spelling calls the handler of the second. -/
theorem registered_is_called_street :
    ∃ e₁ e₂, interpret "STRASSE" (enrolled streets { host := () }) = .ok 0 e₁ ∧
      execute (carryOut 0) e₁ = .ended (.ok 5 e₂) := by
  have hgranted : (⟨{ name := .text "straße" }, some (coded 3)⟩ : CommandRequest Unit).granted? =
      some ⟨⟨"STRASSE", [], "", true, "any"⟩, coded 3⟩ := by with_unfolding_all rfl
  have hlatest : latest? streets "straße" = some ⟨⟨"STRASSE", [], "", true, "any"⟩, coded 5⟩ := by
    with_unfolding_all rfl
  have hword : Spelling "STRASSE" "straße" := ⟨by decide +kernel, by decide +kernel⟩
  obtain ⟨latest, hfound, -, -, e₁, hinterpret, -, -, hexecute⟩ :=
    registered_is_called (carryOut 0) (e := { host := () }) rfl (List.mem_cons_self ..) hgranted rfl
      (by decide +kernel) hword
  obtain rfl := Option.some.inj (hlatest.symm.trans hfound)
  exact ⟨e₁, _, hinterpret, hexecute⟩

/-- A command whose name looks like a comment. -/
def hashed : CommandRequest Unit := ⟨{ name := .text "#X" }, some (coded 3)⟩

/-- **It is registered, and never called**: the line that names it is a comment. -/
theorem hashed_uncalled :
    ∃ c, latest? [hashed] "#X" = some c ∧ Spelling "#X" "#X" ∧
      ∃ e₁, interpret "#X" (enrolled [hashed] { host := () }) = .ok 0 e₁ ∧
        e₁.services.commands.find? "#X" = some c ∧ e₁.progress.command = "" ∧
        execute (carryOut 0) e₁ = .ended (.ok 0 e₁) := by
  have hlatest : latest? [hashed] "#X" = some ⟨⟨"#X", [], "", true, "any"⟩, coded 3⟩ := by with_unfolding_all rfl
  have hword : Spelling "#X" "#X" := ⟨rfl, by decide +kernel⟩
  have hmarks : (enrolled [hashed] { host := () }).setup.marks = {} := by rw [enrolled_setup]
  obtain ⟨hinterpret, hexecute⟩ := comment_calls_nothing (carryOut 0) hmarks hword (by decide +kernel)
  refine ⟨_, hlatest, hword, _, hinterpret, ?_, rfl, hexecute⟩
  exact (find?_enrolled [hashed] { host := () } "#X").trans (by rw [hlatest]; rfl)

end Engine

end CommandBatch
