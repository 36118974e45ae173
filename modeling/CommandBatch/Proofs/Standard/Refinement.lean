import CommandBatch.Proofs.Command.Writable
import CommandBatch.Proofs.Standard.Handlers
import CommandBatch.Proofs.Line.NormalForm

/-!
# Batches of standard commands

An engine that has nothing but the standard types and commands runs a batch as the reference machine
does.  A line ends on the engine with the code and the variables of the machine, and leaves the cursor
where the machine goes on (`lineDoes`).  So what a run goes through is a path of the machine, by
induction on the lines that it ran (`path_of_runs`), and the other way round every path of the machine
is a run that ends, by induction on the path (`proceeds_of_path`).  What the trace keeps are the last
lines of the path (`runBatch_path`).

A verbose engine writes its variables to the trace behind each line, and breaks off where a number in them
has too many digits (`Records`).  No line makes such a number: where all variables can be written, they can
be written behind every line (`isWritable_behind`).  So only variables that a host has set can break a run
off, and only behind its first line.
-/

namespace CommandBatch

open Text Engine

section Registries
variable {H : Type}

/-- Only what was registered is found. -/
theorem CommandRegistry.find?_foldl_register {r : CommandRegistry H} {cs : List (Command H)}
    {name : String} {c : Command H} (h : (cs.foldl (·.register ·) r).find? name = some c) :
    (c ∈ cs ∧ upper name = upper c.signature.name) ∨ r.find? name = some c := by
  rw [find?_foldl_register_eq, Option.or_eq_some_iff] at h
  refine h.imp (fun hfind => ⟨?_, ?_⟩) And.right
  · exact List.mem_reverse.mp (List.mem_of_find?_eq_some hfind)
  · simpa using List.find?_some hfind

/-- What was registered, or was there before, is found. -/
theorem CommandRegistry.isSome_find?_foldl_register {r : CommandRegistry H} {cs : List (Command H)}
    {name : String} (h : (r.find? name).isSome = true ∨ ∃ c ∈ cs, upper name = upper c.signature.name) :
    ((cs.foldl (·.register ·) r).find? name).isSome = true := by
  rw [find?_foldl_register_eq, Option.isSome_or, Bool.or_eq_true, List.find?_isSome]
  refine h.symm.imp_left ?_
  rintro ⟨c, hc, hname⟩
  exact ⟨c, List.mem_reverse.mpr hc, by simpa using hname⟩

/-- Types that are there already are not added. -/
theorem TypeRegistry.complete_of_has {r : TypeRegistry} {types : List TokenType}
    (h : ∀ type ∈ types, r.has type.name = true) : r.complete types = r := by
  induction types with
  | nil => rfl
  | cons type types ih =>
    obtain ⟨htype, htypes⟩ := List.forall_mem_cons.mp h
    rw [complete, List.foldl_cons, if_pos htype]
    exact ih htypes

end Registries

namespace Standard

variable {σ : Type}

/-! ## Standard engines -/

/-- The engine has the standard types and commands and no others, no hooks, and a trace of the usual
length. -/
structure IsStandard (e : Engine σ) : Prop where
  types : e.services.types = ⟨Token.defaults⟩
  commands : e.services.commands = commands.foldl (·.register ·) {}
  hooks : e.services.hooks = {}
  separators : e.setup.marks.separators ≠ []
  limit : e.progress.trace.limit = some 1000

/-- A new engine on which the standard commands are installed is one. -/
theorem isStandard_install (setup : Setup σ) (host : σ) {e : Engine σ}
    (h : Engine.new setup .standard host = .ok e) : IsStandard (install e) := by
  have hcomplete : (Services.standard : Services σ).types.complete Token.defaults = _ :=
    TypeRegistry.complete_of_has fun type htype => List.any_eq_true.mpr ⟨type, htype, by simp⟩
  unfold Engine.new at h
  by_cases hempty : setup.marks.separators.isEmpty = true
  · rw [if_pos hempty] at h
    cases h
  · rw [if_neg hempty] at h
    cases h
    exact ⟨hcomplete, rfl, rfl, fun hnil => hempty (List.isEmpty_iff.mpr hnil), rfl⟩

/-- What the lines of an engine are read by. -/
def language (e : Engine σ) : Language :=
  ⟨e.services.types.types, e.setup.marks, e.services.commands.signatures⟩

section Kept
variable {e e₁ : Engine σ} (hsetup : e₁.setup = e.setup) (hservices : e₁.services = e.services)
include hsetup hservices

/-- An engine stays standard as long as its settings, its services and the length of its trace stay. -/
theorem IsStandard.of_eq (h : IsStandard e) (hlimit : e₁.progress.trace.limit = e.progress.trace.limit) :
    IsStandard e₁ where
  types := hservices ▸ h.types
  commands := hservices ▸ h.commands
  hooks := hservices ▸ h.hooks
  separators := hsetup ▸ h.separators
  limit := hlimit.trans h.limit

theorem language_eq : language e₁ = language e := by
  rw [language, language, hsetup, hservices]

end Kept

theorem handles_of_mem {c : Command (Handler σ)} (h : c ∈ commands) :
    upper c.signature.name = c.signature.name ∧ Handles c.signature.name c.handler := by
  revert c
  simp only [commands, List.forall_mem_cons]
  refine ⟨⟨?_, handles_print⟩, ⟨?_, handles_set⟩, ⟨?_, handles_delete⟩, ⟨?_, handles_goto⟩,
    ⟨?_, handles_wait⟩, ⟨?_, handles_help⟩, ⟨?_, handles_exit⟩, ⟨?_, handles_assert⟩,
    ⟨?_, handles_throw⟩, by simp⟩ <;> decide +kernel

/-- What a standard engine finds is a standard command. -/
theorem IsStandard.mem_of_find {e : Engine σ} {name : String} {c : Command (Handler σ)} (h : IsStandard e)
    (hfind : e.services.commands.find? name = some c) :
    c ∈ Standard.commands ∧ upper name = upper c.signature.name := by
  rw [h.commands] at hfind
  exact (CommandRegistry.find?_foldl_register hfind).resolve_right nofun

/-- A command that a standard engine finds for a line is the one that the line names. -/
theorem IsStandard.handles {e : Engine σ} {text : String} {line : Line} {c : Command (Handler σ)}
    (h : IsStandard e) (hread : Line.read e.services.types.types e.setup.marks text = .ok line)
    (hfind : e.services.commands.find? line.command = some c) :
    c.signature.name = line.command ∧ Handles c.signature.name c.handler := by
  obtain ⟨hmem, hname⟩ := h.mem_of_find hfind
  obtain ⟨hupper, hhandles⟩ := handles_of_mem hmem
  rw [hupper, Line.upper_command h.separators hread] at hname
  exact ⟨hname.symm, hhandles⟩

/-! ## What is recorded -/

/-- The step of a line can be recorded: a verbose engine can write the variables that the line leaves. -/
def Records (e : Engine σ) (text : String) : Prop :=
  e.setup.verbose = true → ((language e).behind e.env text).isWritable = true

/-- What a command stores is one of its arguments, so that it can be written as they can. -/
theorem isWritable_of_effect {commands : OrderedMap Signature} {env : Environment} {name : String}
    {args : List Value} {eff : Effect} (henv : env.isWritable = true)
    (hargs : ∀ v ∈ args, v.datum.isWritable = true) (h : effect commands env name args = .ok eff) :
    eff.env.isWritable = true := by
  rcases (effect_cases h).1 with hsame | ⟨v, hv, key, hset⟩ | ⟨key, hdelete⟩
  · rwa [hsame]
  · rw [hset]
    exact Environment.isWritable_set henv key (hargs v hv)
  · exact Environment.isWritable_delete henv hdelete

/-- The arguments of a line can be written. -/
theorem IsStandard.isWritable_of_read {e : Engine σ} {text : String} {line : Line} (h : IsStandard e)
    (hread : Line.read e.services.types.types e.setup.marks text = .ok line) :
    ∀ v ∈ line.args, v.datum.isWritable = true := by
  refine Line.isWritable_of_read (fun type htype => ?_) hread
  rw [h.types] at htype
  exact List.mem_cons_of_mem _ htype

/-- **Variables that can be written can be written behind every line.** -/
theorem IsStandard.isWritable_behind {e : Engine σ} {env : Environment} (h : IsStandard e)
    (henv : env.isWritable = true) (text : String) : ((language e).behind env text).isWritable = true := by
  unfold Language.behind
  cases hrun : (language e).run env text with
  | error => exact henv
  | ok eff =>
    obtain ⟨line, hread, ⟨-, rfl⟩ | ⟨s, args, -, hbind, heffect⟩⟩ := Language.run_eq_ok hrun
    · exact henv
    · exact isWritable_of_effect henv (Signature.isWritable_of_bind henv (h.isWritable_of_read hread) hbind)
        heffect

theorem IsStandard.records {e : Engine σ} (h : IsStandard e) (hrecordable : e.Recordable) (text : String) :
    Records e text :=
  fun hverbose => h.isWritable_behind (hrecordable hverbose) text

/-! ## One line -/

/-- What no standard command changes. -/
def fixed (e : Engine σ) : Services σ × List String × σ := (e.services, e.progress.batch, e.host)

/-- The command that the machine reads off a line; there is none where the line cannot be read. -/
def Language.command (l : Language) (text : String) : String :=
  match Line.read l.types l.marks text with
  | .ok line => line.command
  | .error _ => ""

/-- The command that a line calls; there is none where it cannot be read, found or bound. -/
def Language.called (l : Language) (env : Environment) (text : String) : Option String :=
  match Line.read l.types l.marks text with
  | .error _ => none
  | .ok line =>
    (l.commands.get? (upper line.command)).bind fun s =>
      (s.bind env line.args).toOption.map fun _ => s.name

/-- Where the batch would go on behind a line that fails. -/
def Language.failedFlow (l : Language) (env : Environment) (text : String) : Flow :=
  ((l.called env text).map Standard.failedFlow).getD .next

/-- The code that the line of an index ends with, and how it leaves the engine, is what the machine
says. -/
inductive Follows (index : Nat) (text : String) (e : Engine σ) :
    Except Reason Effect → Int → Engine σ → Prop
  | success {eff : Effect} {e₁ : Engine σ} (hfixed : fixed e₁ = fixed e) (henv : e₁.env = eff.env)
      (hcursor : e₁.progress.cursor = eff.flow.cursor e.progress)
      (houtputs : e₁.outputs = e.outputs ++ eff.output)
      (hfailure : e₁.progress.failure = e.progress.failure) : Follows index text e (.ok eff) 0 e₁
  | failure {reason : Reason} {code : Int} {e₁ : Engine σ} (hfixed : fixed e₁ = fixed e)
      (henv : e₁.env = e.env) (hreason : code = reason.code) (hcode : code ≠ 0)
      (hcursor : e₁.progress.cursor = ((language e).failedFlow e.env text).cursor e.progress)
      (houtputs : e₁.outputs = e.outputs)
      (hfailure : e₁.progress.failure = some ⟨reason, some index, some text⟩) :
      Follows index text e (.error reason) code e₁

/-- The line of an index does what the machine says, leaves its index and its command behind, and is closed
then. -/
def LineDoes (index : Nat) (text : String) (e : Engine σ) (meaning : Except Reason Effect) : Prop :=
  ∃ code e₁, LineEnds index text e (closing index text code e₁) ∧ Follows index text e meaning code e₁ ∧
    e₁.setup = e.setup ∧ e₁.progress.index = some index ∧
    e₁.progress.command = (language e).command text

variable {index : Nat} {text : String} {e e₁ : Engine σ}

theorem fixed_closed (code : Int) : fixed (closed index text code e) = fixed e := by
  obtain ⟨transcript, hclosed⟩ := closed_eq index text code e
  rw [hclosed]
  rfl

theorem env_closed (code : Int) : (closed index text code e).env = e.env := by
  obtain ⟨transcript, hclosed⟩ := closed_eq index text code e
  rw [hclosed]
  rfl

theorem outputs_announcing (n : Notice) : (announcing n e).outputs = e.outputs :=
  outputs_push (e := { e with progress := _ }) rfl

theorem outputs_closed (code : Int) : (closed index text code e).outputs = e.outputs := by
  have hafter : (announcing (.afterLine index text code) (logged index text code e)).outputs = e.outputs :=
    outputs_announcing _
  unfold closed
  by_cases hcode : code = 0
  · simp only [if_pos hcode]
    exact hafter
  · simp only [if_neg hcode]
    exact (outputs_announcing _).trans hafter

theorem outputs_completed (code : Int) : (completed code e).outputs = e.outputs :=
  (outputs_push (e := announcing (.batchEnd code) { e with progress := { e.progress with code } }) rfl).trans
    (outputs_announcing (.batchEnd code))

theorem outputs_beginning : (beginning index text e).outputs = e.outputs :=
  outputs_announcing (e := { e with progress := { e.progress with index := some index } })
    (.beforeLine index text)

/-- A line that fails for the reason that the machine gives, having moved nothing but the cursor. -/
theorem lineDoes_of_fails {reason : Reason} (line : Line) (cursor : Int) (hstandard : IsStandard e)
    (hbusy : e.busy = true)
    (h : LineFails text (beginning index text e) (some reason)
      (moved cursor (understood line (beginning index text e))))
    (hcommand : line.command = (language e).command text)
    (hcursor : cursor = ((language e).failedFlow e.env text).cursor e.progress)
    (hcode : reason.code ≠ 0) :
    LineDoes index text e (.error reason) := by
  have hindex : (beginning index text e).progress.index = some index := if_pos hbusy
  refine ⟨_, _, lineEnds_of_fails hstandard.hooks hbusy h,
    .failure rfl rfl rfl hcode hcursor outputs_beginning ?_, rfl, hindex, hcommand⟩
  rw [← hindex]
  rfl

/-- A line that is executed with the effect that the machine gives. -/
theorem lineDoes_of_execute (fuel : Nat) (eff : Effect) {line : Line} (hstandard : IsStandard e)
    (hbusy : e.busy = true)
    (hread : Line.read e.services.types.types e.setup.marks text = .ok line)
    (hcommand : line.command = (language e).command text)
    (h : Executes (carryOut fuel) (understood line (beginning index text e))
      (.ok 0 (eff.applied (understood line (beginning index text e))))) :
    LineDoes index text e (.ok eff) := by
  have hopen : openLine index text e = .ok 0 (understood line (beginning index text e)) := by
    rw [openLine_of_unhooked hstandard.hooks, hread]
    rfl
  have houtputs : (eff.applied (understood line (beginning index text e))).outputs =
      e.outputs ++ eff.output :=
    (eff.outputs_applied _).trans (congrArg (· ++ eff.output) outputs_beginning)
  exact ⟨_, _, lineEnds_of_execute fuel hopen (ends_execute.mpr h) hstandard.hooks,
    .success rfl rfl rfl houtputs rfl, rfl, if_pos hbusy, hcommand⟩

/-- A line whose command is called and does what the machine says. -/
theorem lineDoes_of_plays {line : Line} {command : Command (Handler σ)} {args : List Value}
    {outcome : Except Fault Datum} {meaning : Except Reason Effect} (hstandard : IsStandard e)
    (hbusy : e.busy = true)
    (hread : Line.read e.services.types.types e.setup.marks text = .ok line)
    (hcommand : line.command = (language e).command text)
    (hname : line.command ≠ "") (hfind : e.services.commands.find? line.command = some command)
    (hbind : command.signature.bind e.env line.args = .ok args)
    (hplays : Plays (command.handler args) (understood line (beginning index text e)) outcome e₁)
    (hagrees : Agrees line.command (understood line (beginning index text e)) meaning outcome e₁)
    (hcalled : (language e).called e.env text = some line.command) : LineDoes index text e meaning := by
  have hcursor : (failedFlow line.command).cursor (understood line (beginning index text e)).progress =
      ((language e).failedFlow e.env text).cursor e.progress := by
    rw [Language.failedFlow, hcalled]
    show (failedFlow line.command).cursor _ = (failedFlow line.command).cursor e.progress
    cases failedFlow line.command <;> rfl
  cases hagrees with
  | @done eff answer hanswer =>
    obtain ⟨fuel, hplay⟩ := hplays
    have hcall :=
      Executes.called (e := understood line (beginning index text e)) hname hfind hbind hplay
    rcases hanswer with rfl | rfl
    · exact lineDoes_of_execute fuel eff hstandard hbusy hread hcommand hcall
    · exact lineDoes_of_execute fuel eff hstandard hbusy hread hcommand hcall
  | raised hfault =>
    exact lineDoes_of_fails line _ hstandard hbusy
      (.raised (e := beginning index text e) hread hname hfind hbind hplays hfault.1) hcommand hcursor
      hfault.2
  | answered hcode =>
    exact lineDoes_of_fails line _ hstandard hbusy
      (.answered (e := beginning index text e) hread hname hfind hbind hplays nofun
        (by simpa using hcode)) hcommand hcursor hcode

theorem called_of_read {line : Line} (env : Environment)
    (hread : Line.read (language e).types (language e).marks text = .ok line) :
    (language e).called env text = (e.services.commands.find? line.command).bind fun c =>
      (c.signature.bind env line.args).toOption.map fun _ => c.signature.name := by
  rw [Language.called, hread]
  dsimp only
  rw [show (language e).commands = e.services.commands.signatures from rfl,
    CommandRegistry.get?_signatures]
  cases e.services.commands.find? line.command <;> rfl

/-- **A line does what the machine says.** -/
theorem lineDoes (hstandard : IsStandard e) (hbusy : e.busy = true) (index : Nat)
    (text : String) : LineDoes index text e ((language e).run e.env text) := by
  have htypes : e.services.types.types = Token.defaults := by rw [hstandard.types]
  unfold Language.run
  cases hread : Line.read (language e).types (language e).marks text with
  | error fault =>
    obtain ⟨r, rfl, hreading⟩ := (Line.faults_of_read hstandard.separators hread).of_steady
      (by rw [show (language e).types = _ from htypes]; exact Token.defaults_steady)
    -- A line that cannot be read leaves the engine as it would with nothing in it.
    exact lineDoes_of_fails ⟨"", []⟩ e.progress.cursor hstandard hbusy
      (.unreadable (e := beginning index text e) hread) (by rw [Language.command, hread])
      (by rw [Language.failedFlow, Language.called, hread]; rfl) (code_ne_zero_of_reading hreading)
  | ok line =>
    have hcommand : line.command = (language e).command text := by rw [Language.command, hread]
    dsimp only
    by_cases hname : line.command = ""
    · rw [if_pos hname]
      exact lineDoes_of_execute 0 { env := e.env } hstandard hbusy hread hcommand (.nothing hname)
    · have hcalled := called_of_read e.env hread
      rw [if_neg hname, show (language e).commands = e.services.commands.signatures from rfl,
        CommandRegistry.get?_signatures]
      cases hfind : e.services.commands.find? line.command with
      | none =>
        exact lineDoes_of_fails line e.progress.cursor hstandard hbusy
          (.unknown (e := beginning index text e) hread hname hfind) hcommand
          (by rw [Language.failedFlow, hcalled, hfind]; rfl) (Reason.code_ne_zero nofun nofun)
      | some command =>
        obtain ⟨hsame, hhandles⟩ := hstandard.handles hread hfind
        show LineDoes index text e ((command.signature.bind e.env line.args).bind _)
        cases hbind : command.signature.bind e.env line.args with
        | error reason =>
          have hfails : LineFails text (beginning index text e) reason.told?
              (understood line (beginning index text e)) := .unbound hread hname hfind hbind
          rw [Reason.told?_of_ne (Signature.ne_nameless_of_bind (hstandard.isWritable_of_read hread) hbind)] at hfails
          exact lineDoes_of_fails line e.progress.cursor hstandard hbusy hfails hcommand
            (by rw [Language.failedFlow, hcalled, hfind, Option.bind_some, hbind]; rfl)
            (code_ne_zero_of_bindFrom hbind)
        | ok args =>
          obtain ⟨outcome, e₁, hplays, hagrees⟩ :=
            hhandles args (understood line (beginning index text e))
          exact lineDoes_of_plays hstandard hbusy hread hcommand hname hfind hbind hplays
            (hsame ▸ hagrees) (by rw [hcalled, hfind, Option.bind_some, hbind, ← hsame]; rfl)

/-! ## Batches -/

/-- How the engine stands between two lines of a batch. -/
structure Standing (l : Language) (lines : List String) (e : Engine σ) : Prop where
  standard : IsStandard e
  busy : e.busy = true
  language : language e = l
  batch : e.progress.batch = lines

variable {l : Language} {lines : List String}

theorem Follows.fixed_eq {meaning : Except Reason Effect} {code : Int}
    (h : Follows index text e meaning code e₁) : fixed e₁ = fixed e := by
  cases h <;> assumption

theorem Follows.env_eq {code : Int} (h : Follows index text e (l.run e.env text) code e₁) :
    e₁.env = l.behind e.env text := by
  unfold Language.behind
  generalize l.run e.env text = meaning at h ⊢
  cases h <;> assumption

/-- What is logged and announced behind a line changes nothing of this. -/
theorem Follows.closed {meaning : Except Reason Effect} {code : Int}
    (h : Follows index text e meaning code e₁) :
    Follows index text e meaning code (Engine.closed index text code e₁) := by
  cases h with
  | success hfixed henv hcursor houtputs hfailure =>
    refine .success ((fixed_closed 0).trans hfixed) ((env_closed 0).trans henv) ?_
      ((outputs_closed 0).trans houtputs) ?_
    · rw [progress_closed]
      exact hcursor
    · rw [progress_closed]
      exact hfailure
  | failure hfixed henv hreason hcode hcursor houtputs hfailure =>
    refine .failure ((fixed_closed code).trans hfixed) ((env_closed code).trans henv) hreason hcode ?_
      ((outputs_closed code).trans houtputs) ?_
    · rw [progress_closed]
      exact hcursor
    · rw [progress_closed]
      exact hfailure

theorem IsStandard.passing (h : IsStandard e) (index : Nat) : IsStandard (passing index e) :=
  ⟨h.types, h.commands, h.hooks, h.separators, h.limit⟩

/-- A line of a batch does what the machine says, and is closed where its step can be recorded. -/
theorem Standing.lineDoes (h : Standing l lines e) (index : Nat) (text : String) :
    ∃ code e₁, LineEnds index text (passing index e) (closing index text code e₁) ∧
      Follows index text (passing index e) (l.run e.env text) code e₁ ∧ e₁.setup = e.setup ∧
      (e₁.Recordable ↔ Records e text) ∧ e₁.progress.index = some index ∧
      e₁.progress.command = l.command text := by
  obtain ⟨code, e₁, hends, hfollows, hsetup, hbehind⟩ :=
    Standard.lineDoes (h.standard.passing index) h.busy index text
  -- Passing a line on changes neither the variables nor what lines are read by.
  have henv : e₁.env = (Standard.language e).behind e.env text := hfollows.env_eq
  have hsetup : e₁.setup = e.setup := hsetup
  have hrecordable : e₁.Recordable ↔ Records e text := by
    unfold Engine.Recordable Records
    rw [hsetup, henv]
  rw [← h.language]
  exact ⟨code, e₁, hends, hfollows, hsetup, hrecordable, hbehind⟩

/-- **A line that comes to a code** has done what the machine says, and the batch stands as before.  It leaves
its index behind, and the command that the machine reads off it. -/
theorem Standing.of_line {code : Int} (h : Standing l lines e)
    (hends : LineEnds index text (Engine.passing index e) (.ok code e₁)) :
    Standing l lines e₁ ∧ e₁.Recordable ∧
      Follows index text (Engine.passing index e) (l.run e.env text) code e₁ ∧
      e₁.progress.index = some index ∧ e₁.progress.command = l.command text := by
  obtain ⟨code₁, e₂, hends₁, hfollows, hsetup, -, hindex, hcommand⟩ := h.lineDoes index text
  obtain ⟨hrecordable, rfl, rfl⟩ := closing_eq_ok (hends₁.unique hends)
  have hheld := held_of_line (e := Engine.passing index e) h.standard.hooks h.busy hends
  have hservices : (Engine.closed index text code e₂).services = e.services :=
    (congrArg Prod.fst (fixed_closed code)).trans (congrArg Prod.fst hfollows.fixed_eq)
  have hsetup₁ : (Engine.closed index text code e₂).setup = e.setup := congrArg Held.setup hheld
  have htrace := trace_of_line (e := Engine.passing index e) h.standard.hooks h.busy hends
  refine ⟨⟨?_, ?_, ?_, ?_⟩, ?_, hfollows.closed, ?_, ?_⟩
  · exact h.standard.of_eq hsetup₁ hservices (by rw [htrace]; rfl)
  · exact (busy_of_held hheld).trans h.busy
  · exact (language_eq hsetup₁ hservices).trans h.language
  · exact (congrArg (·.2.1) hfollows.closed.fixed_eq).trans h.batch
  · unfold Engine.Recordable
    rw [hsetup₁, ← hsetup, env_closed]
    exact hrecordable
  · rw [progress_closed]
    exact hindex
  · rw [progress_closed]
    exact hcommand

/-- A line whose step can be recorded comes to a code. -/
theorem Standing.line (h : Standing l lines e) (hrecords : Records e text) (index : Nat) :
    ∃ code e₁, LineEnds index text (Engine.passing index e) (.ok code e₁) := by
  obtain ⟨code, e₁, hends, -, -, hrecordable, -⟩ := h.lineDoes index text
  rw [closing_of_recordable (hrecordable.mpr hrecords)] at hends
  exact ⟨code, _, hends⟩

/-- A line whose step cannot be recorded has done what the machine says, and breaks off then. -/
theorem Standing.unrecorded (h : Standing l lines e) (hrecords : ¬Records e text) (index : Nat) :
    ∃ code e₁, LineEnds index text (Engine.passing index e) (.error (.ofConversion .unwritable) e₁) ∧
      Follows index text (Engine.passing index e) (l.run e.env text) code e₁ ∧ e₁.setup = e.setup ∧
      e₁.progress.index = some index := by
  obtain ⟨code, e₁, hends, hfollows, hsetup, hrecordable, hindex, -⟩ := h.lineDoes index text
  rw [closing_of_not_recordable (mt hrecordable.mp hrecords)] at hends
  exact ⟨code, e₁, hends, hfollows, hsetup, hindex⟩

theorem Standing.runs {ran : List (Nat × String)} (h : Standing l lines e) (hruns : Runs e ran e₁) :
    Standing l lines e₁ := by
  induction hruns with
  | refl => exact h
  | line _ hline _ ih => exact ih (h.of_line hline).1

theorem Standing.recordable_of_runs {ran : List (Nat × String)} (h : Standing l lines e)
    (hrecordable : e.Recordable) (hruns : Runs e ran e₁) : e₁.Recordable := by
  induction hruns with
  | refl => exact hrecordable
  | line _ hline _ ih =>
    obtain ⟨hstanding, hrecordable₁, -⟩ := h.of_line hline
    exact ih hstanding hrecordable₁

/-- Where the cursor stands behind a line is where the machine goes on. -/
theorem cursor_passing (flow : Flow) (index : Nat) (e : Engine σ) :
    flow.cursor (passing index e).progress = flow.target index e.progress.batch.length := by
  cases flow <;> rfl

/-- The lines that a batch runs are a path of the machine, which goes on where the batch does. -/
theorem path_of_runs {ran : List (Nat × String)} {visits : List Visit} {code : Int}
    {env : Environment} (h : Standing l lines e) (hruns : Runs e ran e₁)
    (hrest : Path l lines e₁.env e₁.progress.cursor visits code env) :
    Path l lines e.env e.progress.cursor (ran.map (fun r => ⟨r.1, r.2, 0⟩) ++ visits) code env := by
  induction hruns with
  | refl => exact hrest
  | @line e e₁ e₂ index text ran hnext hline _ ih =>
    obtain ⟨hstanding, -, hfollows, -⟩ := h.of_line hline
    obtain ⟨hcursor, htext⟩ := nextLine?_eq_some_iff.mp hnext
    have hpath := ih hstanding hrest
    rw [hcursor]
    generalize hrun : l.run e.env text = meaning at hfollows
    cases hfollows with
    | success _ henv hgoal =>
      rw [henv, hgoal, cursor_passing, h.batch] at hpath
      exact .go (h.batch ▸ htext) hrun hpath
    | failure _ _ _ hcode => exact absurd rfl hcode

/-- A batch stops where the machine does. -/
theorem path_of_stops {last : Option (Nat × String)} {code : Int} (h : Standing l lines e)
    (hstops : Stops e last (.ok code e₁)) :
    Path l lines e.env e.progress.cursor (last.toList.map fun v => ⟨v.1, v.2, code⟩) code e₁.env := by
  cases hstops with
  | behind hnext => exact .stop (h.batch ▸ nextLine?_eq_none_iff.mp hnext)
  | @failed index text _ _ hnext hline hcode =>
    obtain ⟨-, -, hfollows, -⟩ := h.of_line hline
    obtain ⟨hcursor, htext⟩ := nextLine?_eq_some_iff.mp hnext
    rw [hcursor]
    generalize hrun : l.run e.env text = meaning at hfollows
    cases hfollows with
    | success => exact absurd rfl hcode
    | failure _ henv hreason =>
      rw [hreason, henv]
      exact .fail (h.batch ▸ htext) hrun

/-- Where the variables can be written, a batch stops with a code. -/
theorem Standing.code_of_stops {last : Option (Nat × String)} {r : EStateM.Result Fault (Engine σ) Int}
    (h : Standing l lines e) (hrecordable : e.Recordable) (hstops : Stops e last r) :
    ∃ code e₁, r = .ok code e₁ := by
  cases hstops with
  | behind | failed => exact ⟨_, _, rfl⟩
  | @broken index _ _ _ _ hline =>
    obtain ⟨code, e₁, hends⟩ := h.line (h.standard.records hrecordable _) index
    cases hends.unique hline

theorem Standing.recordable_of_stops {last : Option (Nat × String)} {code : Int} (h : Standing l lines e)
    (hrecordable : e.Recordable) (hstops : Stops e last (.ok code e₁)) : e₁.Recordable := by
  cases hstops with
  | behind => exact hrecordable
  | failed _ hline => exact (h.of_line hline).2.1

/-- A path of the machine is a batch that ends. -/
theorem proceeds_of_path {visits : List Visit} {index code : Int} {env env₁ : Environment}
    (hpath : Path l lines env index visits code env₁) (h : Standing l lines e)
    (hrecordable : e.Recordable) (henv : e.env = env) (hindex : e.progress.cursor = index) :
    ∃ r, Proceeds e r := by
  induction hpath generalizing e with
  | stop houtside =>
    rw [← h.batch, ← hindex] at houtside
    exact ⟨_, proceeds_of_stops (.behind (nextLine?_eq_none_iff.mpr houtside))⟩
  | @fail env index text reason htext hrun =>
    have hnext := nextLine?_eq_some_iff.mpr ⟨hindex, h.batch ▸ htext⟩
    obtain ⟨code, e₁, hends⟩ := h.line (h.standard.records hrecordable text) index
    obtain ⟨-, -, hfollows, -⟩ := h.of_line hends
    rw [henv, hrun] at hfollows
    cases hfollows with
    | failure _ _ _ hcode => exact ⟨_, proceeds_of_stops (.failed hnext hends hcode)⟩
  | @go env env₁ index text eff visits code htext hrun _ ih =>
    have hnext := nextLine?_eq_some_iff.mpr ⟨hindex, h.batch ▸ htext⟩
    obtain ⟨code, e₁, hends⟩ := h.line (h.standard.records hrecordable text) index
    obtain ⟨hstanding, hrecordable₁, hfollows, -⟩ := h.of_line hends
    rw [henv, hrun] at hfollows
    cases hfollows with
    | success _ henv₁ hcursor =>
      rw [cursor_passing, h.batch] at hcursor
      obtain ⟨r, hr⟩ := ih hstanding hrecordable₁ henv₁ hcursor
      exact ⟨r, proceeds_of_line hnext hends hr⟩

/-- A batch begins as the machine does. -/
theorem IsStandard.standing (h : IsStandard e) (lines : List String) :
    Standing (language e) lines (opened lines (entered e)) :=
  ⟨⟨h.types, h.commands, h.hooks, h.separators, h.limit⟩, rfl, rfl, rfl⟩

theorem runBatch_ends_iff (hstandard : IsStandard e) (hidle : e.busy = false) (hrecordable : e.Recordable)
    (lines : List String) :
    (∃ r, Carries (.runBatch lines) e r) ↔
      ∃ visits code env, Path (language e) lines e.env 0 visits code env := by
  have hstanding := hstandard.standing lines
  have hopened : (opened lines (entered e)).Recordable := hrecordable
  constructor
  · rintro ⟨r, h⟩
    obtain ⟨_, hproceeds, -⟩ := (runBatch_iff hstandard.hooks hidle).mp h
    obtain ⟨ran, e₁, last, hruns, hstops⟩ := proceeds_iff.mp hproceeds
    obtain ⟨code, e₂, rfl⟩ :=
      (hstanding.runs hruns).code_of_stops (hstanding.recordable_of_runs hopened hruns) hstops
    exact ⟨_, code, e₂.env, path_of_runs hstanding hruns (path_of_stops (hstanding.runs hruns) hstops)⟩
  · rintro ⟨visits, code, env, hpath⟩
    obtain ⟨r, hr⟩ := proceeds_of_path hpath hstanding hopened rfl rfl
    exact ⟨_, (runBatch_iff hstandard.hooks hidle).mpr ⟨r, hr, rfl⟩⟩

/-- **A batch of standard commands is a path of the reference machine.**  It ends exactly if the machine
stops, as long as the variables can be written if the engine is to record them; runs leave no others behind.
If it returns a code, that is the code of the last line of a path, and every other line has the code 0; the
lines of the path are the ones that were begun, and the trace keeps the last thousand of them. -/
theorem runBatch_path {e : Engine σ} (hstandard : IsStandard e) (hidle : e.busy = false)
    (lines : List String) :
    (e.Recordable → ((∃ r, Carries (.runBatch lines) e r) ↔
        ∃ visits code env, Path (language e) lines e.env 0 visits code env)) ∧
      ∀ code e₁, Carries (.runBatch lines) e (.ok code e₁) →
        ∃ visits env,
          Path (language e) lines e.env 0 visits code env ∧
          (∀ v ∈ visits.dropLast, v.code = 0) ∧ (visits.getLast?.map Visit.code).getD 0 = code ∧
          e₁.begun = e.begun ++ visits.map (fun v => (v.index, v.text)) ∧
          e₁.progress.trace.entries.map TraceEntry.shown =
            (visits.mapIdx Visit.shown).drop (visits.length - 1000) ∧
          (e.setup.onCompletion = none → e₁.env = env ∧ (e.Recordable → e₁.Recordable)) := by
  refine ⟨fun hrecordable => runBatch_ends_iff hstandard hidle hrecordable lines, fun code e₁ h => ?_⟩
  obtain ⟨r, hproceeds, hr⟩ := (runBatch_iff hstandard.hooks hidle).mp h
  obtain ⟨ran, e₂, last, hruns, hstops⟩ := proceeds_iff.mp hproceeds
  have hopened := hstandard.standing lines
  have hstanding := hopened.runs hruns
  obtain ⟨code₁, e₃, rfl⟩ := code_of_concluded hr
  have hpath := path_of_runs hopened hruns (path_of_stops hstanding hstops)
  obtain ⟨hheld, hbegun, hcarries⟩ := batch_of_stops hidle hstandard.hooks hruns hstops
  obtain ⟨rfl, hframe, hsame⟩ := callBack_eq_ok ((hcarries _).mp h).symm
  obtain ⟨htells, hlimit⟩ := tells_of_runs hopened.standard.hooks hopened.busy
    (Trace.tells_clear e.progress.trace) hruns
  obtain ⟨htells₁, hlimit₁⟩ := tells_of_stops hstanding.standard.hooks hstanding.busy htells hstops
  have htrace : e₁.progress.trace = e₃.progress.trace := congrArg (·.2.trace) hframe
  refine ⟨_, e₃.env, hpath, hpath.codes.1, hpath.codes.2, ?_, ?_, fun hnone => ?_⟩
  · have hbegun₁ : e₁.begun = _ := (congrArg (·.2.begun) hframe).trans hbegun
    rw [hbegun₁, List.append_assoc]
    simp [Function.comp_def]
  · rw [htrace, htells₁.entries (hlimit₁.trans hstanding.standard.limit)]
    rfl
  · have hsetup := congrArg Held.setup hheld
    rw [hsame ((congrArg Setup.onCompletion hsetup).trans hnone)]
    refine ⟨rfl, fun hrecordable => ?_⟩
    have hstopped : e₃.Recordable :=
      hstanding.recordable_of_stops (hopened.recordable_of_runs hrecordable hruns) hstops
    exact hstopped

/-- An engine with the standard commands and a host without a state. -/
def plain : Engine Unit := install { services := .standard, host := () }

theorem runBatch_path_jump :
    ∃ e₁ visits env, Carries (.runBatch ["GOTO 2", "PRINT 1", "EXIT 4"]) plain (.ok 4 e₁) ∧
      Path (language plain) ["GOTO 2", "PRINT 1", "EXIT 4"] {} 0 visits 4 env ∧
      visits.map (fun v => (v.index, v.text)) = [(0, "GOTO 2"), (2, "EXIT 4")] := by
  obtain ⟨r, hcarries, hreturns⟩ := carries_of_any (t := .runBatch ["GOTO 2", "PRINT 1", "EXIT 4"])
    (e := plain) 4 (returns 4 fun e => e.begun == [(0, "GOTO 2"), (2, "EXIT 4")]) (by decide +kernel)
  obtain ⟨e₁, rfl, htest⟩ := of_returns hreturns
  obtain ⟨visits, env, hpath, -, -, hbegun, -⟩ :=
    (runBatch_path (isStandard_install {} () rfl) rfl _).2 _ _ hcarries
  exact ⟨e₁, visits, env, hcarries, hpath, hbegun.symm.trans (eq_of_beq htest)⟩

end Standard

end CommandBatch
