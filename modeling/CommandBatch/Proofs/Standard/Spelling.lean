import CommandBatch.Proofs.Line.Literals
import CommandBatch.Proofs.Line.Respelling
import CommandBatch.Proofs.Run.Independence
import CommandBatch.Proofs.Standard.Refinement

/-!
# The case of names

Lines that differ only in the case of letters in the command word and in references mean the same to the
standard commands (`IsStandard.synonymous`).  For the arguments of such lines are bound alike, but for
references that a parameter asks for, and what a command does with one of these depends on the variable
only (`sameCode_effect`).  Where two batches have such lines, an engine does the same with both, line by
line, whatever jumps and failures there are (`Paired.line`), and ends both in the same way, or neither
(`runBatch_respelled`).
-/

namespace CommandBatch

open Text Token Engine Act Process

/-- Both succeed, with related results, or both fail with the same code. -/
inductive SameCode {α : Type} (R : α → α → Prop) : Except Reason α → Except Reason α → Prop
  | ok {a b : α} (h : R a b) : SameCode R (.ok a) (.ok b)
  | error {r r' : Reason} (h : r.code = r'.code) : SameCode R (.error r) (.error r')

section Codes
variable {α β : Type} {R : α → α → Prop} {S : β → β → Prop} {x y : Except Reason α}

theorem SameCode.refl (hR : ∀ a, R a a) (x : Except Reason α) : SameCode R x x := by
  cases x with
  | ok a => exact .ok (hR a)
  | error r => exact .error rfl

theorem SameCode.symm (h : SameCode Eq x y) : SameCode Eq y x := by
  cases h with
  | ok h => exact .ok h.symm
  | error h => exact .error h.symm

theorem SameCode.bind {f g : α → Except Reason β} (h : SameCode R x y)
    (hfg : ∀ a b, R a b → SameCode S (f a) (g b)) : SameCode S (x.bind f) (y.bind g) := by
  cases h with
  | ok h => exact hfg _ _ h
  | error h => exact .error h

end Codes

/-- The trace without the texts of its lines. -/
def Trace.erased (t : Trace) : Trace :=
  { t with entries := t.entries.map fun entry => { entry with text := "" } }

theorem Trace.erased_push (t : Trace) (line : Option Int) (text command : String) (code : Int)
    (snapshot : Option (List (String × String))) :
    (t.push (t.nextEntry line text command code snapshot)).erased =
      t.erased.push (t.erased.nextEntry line "" command code snapshot) := by
  unfold erased push keepLast
  cases t.limit <;> simp [nextEntry]

namespace Signature

/-- Each parameter gets the same argument in both lists, or, if it asks for references, one to the same
variable. -/
inductive SameFor : List Parameter → List Value → List Value → Prop
  | nil {ps : List Parameter} : SameFor ps [] []
  | cons {p : Parameter} {ps : List Parameter} {v w : Value} {vs ws : List Value}
      (h : v = w ∨ p.acceptsReference = true ∧ v.SameTarget w) (hrest : SameFor ps vs ws) :
      SameFor (p :: ps) (v :: vs) (w :: ws)

variable {p : Parameter} {ps : List Parameter} {env : Environment} {arg arg' : Value} {vs ws : List Value}

theorem SameFor.eq_of_forall (h : SameFor ps vs ws) (hps : ∀ p ∈ ps, p.acceptsReference = false) :
    vs = ws := by
  induction h with
  | nil => rfl
  | cons h _ ih =>
    obtain ⟨hp, hps⟩ := List.forall_mem_cons.mp hps
    rcases h with rfl | ⟨haccepts, -⟩
    · rw [ih hps]
    · rw [hp] at haccepts
      cases haccepts

/-- A variable that is not asked for by name is resolved alike. -/
theorem sameCode_resolveFor (h : arg.SameTarget arg') :
    SameCode (fun v w => v = w ∨ p.acceptsReference = true ∧ v.SameTarget w) (resolveFor p env arg)
      (resolveFor p env arg') := by
  cases h with
  | same => exact .refl (fun _ => .inl rfl) _
  | @reference name name' raw raw' hname =>
    have hreference (name : String) (raw : Option String) :
        Value.isReference ⟨TypeName.reference, .text name, raw⟩ = true := by simp [Value.isReference]
    unfold resolveFor
    rw [hreference, hreference, Bool.true_and]
    cases haccepts : p.acceptsReference with
    | true => exact .ok (.inr ⟨rfl, .reference hname⟩)
    | false =>
      have hsame : env.get? name = env.get? name' := congrArg env.values.get? hname
      simp only [Bool.not_false, if_true]
      cases hget : env.get? name' with
      | some v =>
        have hresolve {name : String} (hget : env.get? name = some v) (raw : Option String) :
            env.resolve ⟨TypeName.reference, .text name, raw⟩ = .ok v :=
          Environment.resolve_eq_ok_iff.mpr ⟨rfl, hget⟩
        rw [hresolve (hsame.trans hget), hresolve hget]
        exact .ok (.inl rfl)
      | none =>
        have hresolve {name : String} (hget : env.get? name = none) (raw : Option String) :
            ∃ shown, env.resolve ⟨TypeName.reference, .text name, raw⟩ = .error (.unresolved shown) :=
          ⟨_, Environment.resolve_eq_error_iff.mpr (.inr ⟨rfl, hget, rfl⟩)⟩
        obtain ⟨shown, herror⟩ := hresolve (hsame.trans hget) raw
        obtain ⟨shown', herror'⟩ := hresolve hget raw'
        rw [herror, herror']
        exact .error rfl

theorem sameCode_bindFrom (s : Signature) {args args' : List Value}
    (h : List.Forall₂ Value.SameTarget args args') (given position : Nat) (ps : List Parameter) :
    SameCode (SameFor ps) (s.bindFrom env given position ps args)
      (s.bindFrom env given position ps args') := by
  induction h generalizing position ps with
  | nil =>
    cases ps with
    | nil => exact .ok .nil
    | cons p ps =>
      unfold bindFrom
      by_cases hp : p.optional = true
      · rw [if_pos hp]
        exact .ok .nil
      · rw [if_neg hp]
        exact .error rfl
  | @cons arg arg' args args' h _ ih =>
    cases ps with
    | nil => exact .error rfl
    | cons p ps =>
      have hcons (arg : Value) (args : List Value) : s.bindFrom env given position (p :: ps) (arg :: args) =
          (resolveFor p env arg).bind fun v =>
            if p.accepts v.type then (s.bindFrom env given (position + 1) ps args).bind fun vs => .ok (v :: vs)
            else .error (.mismatch s.name position p.describe v.type) := rfl
      rw [hcons, hcons]
      refine (sameCode_resolveFor h).bind fun v w hvw => ?_
      have htype : w.type = v.type := by
        rcases hvw with rfl | ⟨-, h⟩
        · rfl
        · exact h.type_eq
      rw [htype]
      by_cases haccepts : p.accepts v.type = true
      · rw [if_pos haccepts, if_pos haccepts]
        exact (ih (position + 1) ps).bind fun vs ws hrest => .ok (.cons hvw hrest)
      · rw [if_neg haccepts, if_neg haccepts]
        exact .error rfl

theorem sameCode_bind (s : Signature) (env : Environment) {args args' : List Value}
    (h : List.Forall₂ Value.SameTarget args args') :
    SameCode (SameFor s.params) (s.bind env args) (s.bind env args') := by
  unfold bind
  rw [h.length_eq]
  exact sameCode_bindFrom s h args'.length 1 s.params

end Signature

namespace Standard

open Signature

variable {σ : Type}

/-! ## What commands do -/

section Effects
variable {signatures : OrderedMap Signature} {env : Environment} {vs ws : List Value}

/-- A reference that they are given names the same variable. -/
theorem sameCode_target {v w : Value} {p : Parameter} (command : String)
    (h : v = w ∨ p.acceptsReference = true ∧ v.SameTarget w) :
    SameCode (fun name name' => normalizeName name = normalizeName name') (converted command v.datum.toText)
      (converted command w.datum.toText) := by
  have hsame (x : Except Reason String) :
      SameCode (fun name name' => normalizeName name = normalizeName name') x x :=
    .refl (R := fun name name' => normalizeName name = normalizeName name') (fun _ => rfl) x
  rcases h with rfl | ⟨-, h⟩
  · exact hsame _
  · cases h with
    | same => exact hsame _
    | reference hname => exact .ok hname

/-- Of a name, the variables use only the variable that it means. -/
theorem set_eq_of_name {name name' : String} (h : normalizeName name = normalizeName name') (value : Value) :
    env.set name value = env.set name' value := by
  rw [Environment.set, h, Environment.set]

theorem sameCode_delete {name name' : String} (h : normalizeName name = normalizeName name') :
    SameCode Eq (env.delete name) (env.delete name') := by
  unfold Environment.delete Environment.has Environment.get?
  rw [h]
  split
  · exact .ok rfl
  · exact .error rfl

/-- **What a command does** depends on the variables that its references mean, and not on how they are
spelled. -/
theorem sameCode_effect {c : Command (Handler σ)} (h : c ∈ commands)
    (hsame : SameFor c.signature.params vs ws) :
    SameCode Eq (effect signatures env c.signature.name vs) (effect signatures env c.signature.name ws) := by
  have hplain {name : String} {ps : List Parameter} (hsame : SameFor ps vs ws)
      (hps : ∀ p ∈ ps, p.acceptsReference = false) :
      SameCode Eq (effect signatures env name vs) (effect signatures env name ws) := by
    rw [hsame.eq_of_forall hps]
    exact .refl (fun _ => rfl) _
  revert c
  simp only [commands, List.forall_mem_cons]
  refine ⟨fun h => hplain h (by decide), fun h => ?_, fun h => ?_, fun h => hplain h (by decide),
    fun h => hplain h (by decide), fun h => hplain h (by decide), fun h => hplain h (by decide),
    fun h => hplain h (by decide), fun h => hplain h (by decide), by simp⟩
  · cases h with
    | nil => exact .ok rfl
    | cons htarget hrest =>
      cases hrest with
      | nil => exact .ok rfl
      | cons hvalue hrest =>
        cases hrest
        obtain rfl := hvalue.resolve_right fun hvalue => absurd hvalue.1 (by decide)
        exact (sameCode_target "SET" htarget).bind fun _ _ hname =>
          .ok (congrArg (fun env => ({ env } : Effect)) (set_eq_of_name hname _))
  · cases h with
    | nil => exact .ok rfl
    | cons htarget hrest =>
      cases hrest
      exact (sameCode_target "DEL" htarget).bind fun _ _ hname =>
        (sameCode_delete hname).bind fun _ _ henv => .ok (congrArg (fun env => ({ env } : Effect)) henv)

end Effects

/-! ## What lines do -/

/-- The lines name the same command, call it or not, and do the same or fail with the same code, with
whatever variables. -/
structure Synonymous (l : Language) (text text' : String) : Prop where
  command : l.command text = l.command text'
  called : ∀ env, l.called env text = l.called env text'
  run : ∀ env, SameCode Eq (l.run env text) (l.run env text')

theorem Synonymous.refl (l : Language) (text : String) : Synonymous l text text :=
  ⟨rfl, fun _ => rfl, fun _ => .refl (fun _ => rfl) _⟩

theorem Synonymous.symm {l : Language} {text text' : String} (h : Synonymous l text text') :
    Synonymous l text' text :=
  ⟨h.command.symm, fun env => (h.called env).symm, fun env => (h.run env).symm⟩

/-- Behind such lines, the variables are the same. -/
theorem Synonymous.behind {l : Language} {text text' : String} (h : Synonymous l text text')
    (env : Environment) : l.behind env text = l.behind env text' := by
  have hrun := h.run env
  unfold Language.behind
  generalize l.run env text = x at hrun
  generalize l.run env text' = y at hrun
  cases hrun with
  | ok heff => rw [heff]
  | error => rfl

/-- **Lines in other letters mean the same.** -/
theorem IsStandard.synonymous {e : Engine σ} {text text' : String} (h : IsStandard e)
    (hlines : Line.Respelled e.setup.marks text text') : Synonymous (language e) text text' := by
  rcases hlines.read_cases with rfl | ⟨line, args, hread, hread', hsame⟩
  · exact .refl _ _
  have htypes : (language e).types = defaults := congrArg TypeRegistry.types h.types
  have hline : Line.read (language e).types (language e).marks text = .ok line := htypes ▸ hread
  have hline' : Line.read (language e).types (language e).marks text' = .ok ⟨line.command, args⟩ :=
    htypes ▸ hread'
  refine ⟨by rw [Language.command, Language.command, hline, hline'], fun env => ?_, fun env => ?_⟩
  · rw [called_of_read env hline, called_of_read env hline']
    cases e.services.commands.find? line.command with
    | none => rfl
    | some c =>
      have hbind := sameCode_bind c.signature env hsame
      dsimp only [Option.bind_some]
      generalize c.signature.bind env line.args = x at hbind
      generalize c.signature.bind env args = y at hbind
      cases hbind with
      | ok | error => rfl
  · unfold Language.run
    rw [hline, hline']
    dsimp only
    by_cases hname : line.command = ""
    · rw [if_pos hname, if_pos hname]
      exact .ok rfl
    · rw [if_neg hname, if_neg hname, show (language e).commands = e.services.commands.signatures from rfl,
        CommandRegistry.get?_signatures]
      cases hfind : e.services.commands.find? line.command with
      | none => exact .error rfl
      | some c =>
        exact (sameCode_bind c.signature env hsame).bind fun vs ws hvs =>
          sameCode_effect (h.mem_of_find hfind).1 hvs

/-! ## Engines that cannot be told apart -/

/-- The engines are the same but for the texts of their lines, the arguments and failures that go with these,
and for what their transcripts began with. -/
structure Twins (o o' : List String) (e e' : Engine σ) : Prop where
  setup : e.setup = e'.setup
  services : e.services = e'.services
  env : e.env = e'.env
  busy : e.busy = e'.busy
  host : e.host = e'.host
  cursor : e.progress.cursor = e'.progress.cursor
  index : e.progress.index = e'.progress.index
  length : e.progress.batch.length = e'.progress.batch.length
  trace : e.progress.trace.erased = e'.progress.trace.erased
  outputs : ∃ written, e.outputs = o ++ written ∧ e'.outputs = o' ++ written

variable {o o' : List String} {e e' e₁ e₁' : Engine σ}

theorem Twins.symm (h : Twins o o' e e') : Twins o' o e' e :=
  ⟨h.setup.symm, h.services.symm, h.env.symm, h.busy.symm, h.host.symm, h.cursor.symm, h.index.symm,
    h.length.symm, h.trace.symm, h.outputs.imp fun _ h => h.symm⟩

theorem Twins.record (h : Twins o o' e e') (r : Record) :
    Twins o o' { e with transcript := e.transcript.push r }
      { e' with transcript := e'.transcript.push r } := by
  obtain ⟨written, ho, ho'⟩ := h.outputs
  exact { h with outputs := ⟨written ++ r.output?.toList, by rw [outputs_record, ho, List.append_assoc],
    by rw [outputs_record, ho', List.append_assoc]⟩ }

theorem twins_uniform : Uniform (σ := σ) True (Twins o o') where
  env _ _ h := h.env
  services _ _ h := h.services
  setEnv _ _ _ h := { h with env := rfl }
  setServices _ _ _ h := { h with services := rfl }
  record r := respects_modify fun _ _ h => h.record r
  shownLines := respects_modify fun _ _ h => { h with }
  cursor _ _ := respects_modify fun _ _ h => { h with cursor := rfl }
  batch _ _ := respects_modify fun _ _ h => { h with length := by simp [h.length] }

theorem twins_veils : Veils (σ := σ) (fun _ => True) Eq (Twins o o') where
  view e e' h := by
    simp only [Engine.view, h.cursor, h.index, h.busy, h.length, h.env, h.services]
  host e e' h := ⟨h.host, fun host => { h with host := rfl }⟩
  edit _ _ := twins_uniform.edit fun _ => trivial
  registerCommand _ _ _ := twins_uniform.register "" _
  interpret text _ := by
    intro e e' h
    have hfaced : Twins o o' (faced text e) (faced text e') :=
      { h with index := by simp only [faced, facing, h.busy, h.index] }
    rw [interpret_eq, interpret_eq, h.services, h.setup]
    cases Line.read e'.services.types.types e'.setup.marks text with
    | ok line => exact .ok { hfaced with }
    | error fault =>
      cases fault with
      | failure f => exact .ok { hfaced with }
      | _ => exact .error hfaced

/-! ## Two batches -/

/-- Two engines stand between two lines of their batches, and are the same otherwise. -/
structure Paired (l : Language) (lines lines' o o' : List String) (e e' : Engine σ) : Prop where
  left : Standing l lines e
  right : Standing l lines' e'
  twins : Twins o o' e e'

variable {l : Language} {lines lines' : List String} {index : Nat} {text text' : String}

theorem Paired.symm (h : Paired l lines lines' o o' e e') : Paired l lines' lines o' o e' e :=
  ⟨h.right, h.left, h.twins.symm⟩

theorem Twins.cursor_eq (h : Twins o o' e e') (flow : Flow) :
    flow.cursor e.progress = flow.cursor e'.progress := by
  cases flow with
  | next => exact h.cursor
  | jump => rfl
  | leave => exact congrArg Int.ofNat h.length

theorem Twins.passing (h : Twins o o' e e') (index : Nat) :
    Twins o o' (Engine.passing index e) (Engine.passing index e') :=
  { h with cursor := rfl }

/-- What the machine says of lines that mean the same, it says in the same way of both engines. -/
theorem Follows.alike {meaning meaning' : Except Reason Effect} {code code' : Int}
    (h : Follows index text e meaning code e₁) (h' : Follows index text' e' meaning' code' e₁')
    (hmeaning : SameCode Eq meaning meaning') (htwins : Twins o o' e e')
    (hflow : (language e).failedFlow e.env text = (language e').failedFlow e'.env text') :
    code = code' ∧ e₁.env = e₁'.env ∧ e₁.progress.cursor = e₁'.progress.cursor ∧
      ∃ written, e₁.outputs = o ++ written ∧ e₁'.outputs = o' ++ written := by
  obtain ⟨written, ho, ho'⟩ := htwins.outputs
  cases hmeaning with
  | @ok eff _ heff =>
    obtain rfl := heff
    cases h with
    | success _ henv hcursor houtputs =>
      cases h' with
      | success _ henv' hcursor' houtputs' =>
        refine ⟨rfl, henv.trans henv'.symm, ?_, written ++ eff.output, ?_, ?_⟩
        · rw [hcursor, hcursor', htwins.cursor_eq]
        · rw [houtputs, ho, List.append_assoc]
        · rw [houtputs', ho', List.append_assoc]
  | error hcode =>
    cases h with
    | failure _ henv hreason _ hcursor houtputs =>
      cases h' with
      | failure _ henv' hreason' _ hcursor' houtputs' =>
        refine ⟨?_, ?_, ?_, written, houtputs.trans ho, houtputs'.trans ho'⟩
        · rw [hreason, hreason', hcode]
        · rw [henv, henv', htwins.env]
        · rw [hcursor, hcursor', hflow, htwins.cursor_eq]

/-- What the machine says of lines that mean the same, both engines do. -/
theorem Paired.agree {code code' : Int} (h : Paired l lines lines' o o' e e') (hlines : Synonymous l text text')
    (hfollows : Follows index text (Engine.passing index e) (l.run e.env text) code e₁)
    (hfollows' : Follows index text' (Engine.passing index e') (l.run e'.env text') code' e₁') :
    code = code' ∧ e₁.env = e₁'.env ∧ e₁.progress.cursor = e₁'.progress.cursor ∧
      ∃ written, e₁.outputs = o ++ written ∧ e₁'.outputs = o' ++ written := by
  have hmeaning : SameCode Eq (l.run e.env text) (l.run e'.env text') := h.twins.env ▸ hlines.run e.env
  have hflow : l.failedFlow e.env text = l.failedFlow e'.env text' := by
    rw [Language.failedFlow, hlines.called, ← Language.failedFlow, h.twins.env]
  refine hfollows.alike hfollows' hmeaning (h.twins.passing index) ?_
  rw [show language (Engine.passing index e) = l from h.left.language,
    show language (Engine.passing index e') = l from h.right.language]
  exact hflow

/-- A line leaves the engines the same, where it comes to an end and where it breaks off, if it leaves them with
the same index and trace. -/
theorem Paired.twins_of_line {r r' : EStateM.Result Fault (Engine σ) Int} {code code' : Int}
    (h : Paired l lines lines' o o' e e') (hlines : Synonymous l text text')
    (hends : LineEnds index text (Engine.passing index e) r)
    (hends' : LineEnds index text' (Engine.passing index e') r')
    (hfollows : Follows index text (Engine.passing index e) (l.run e.env text) code (engineOf r))
    (hfollows' : Follows index text' (Engine.passing index e') (l.run e'.env text') code' (engineOf r'))
    (hindex : (engineOf r).progress.index = (engineOf r').progress.index)
    (htrace : (engineOf r).progress.trace.erased = (engineOf r').progress.trace.erased) :
    Twins o o' (engineOf r) (engineOf r') := by
  have hheld : (engineOf r).held = e.held :=
    held_of_line (e := Engine.passing index e) h.left.standard.hooks h.left.busy hends
  have hheld' : (engineOf r').held = e'.held :=
    held_of_line (e := Engine.passing index e') h.right.standard.hooks h.right.busy hends'
  have hfixed : fixed (engineOf r) = fixed e := hfollows.fixed_eq
  have hfixed' : fixed (engineOf r') = fixed e' := hfollows'.fixed_eq
  have hbatch : (engineOf r).progress.batch = e.progress.batch := congrArg (·.2.1) hfixed
  have hbatch' : (engineOf r').progress.batch = e'.progress.batch := congrArg (·.2.1) hfixed'
  obtain ⟨-, henv, hcursor, houtputs⟩ := h.agree hlines hfollows hfollows'
  exact {
    setup := (congrArg Held.setup hheld).trans (h.twins.setup.trans (congrArg Held.setup hheld').symm)
    services := (congrArg (·.1) hfixed).trans (h.twins.services.trans (congrArg (·.1) hfixed').symm)
    env := henv
    busy := (busy_of_held hheld).trans (h.twins.busy.trans (busy_of_held hheld').symm)
    host := (congrArg (·.2.2) hfixed).trans (h.twins.host.trans (congrArg (·.2.2) hfixed').symm)
    cursor := hcursor
    index := hindex
    length := by rw [hbatch, hbatch', h.twins.length]
    trace := htrace
    outputs := houtputs }

/-- **Lines that mean the same keep the engines together**, whether they succeed, jump or fail.  If the one breaks
off because its step cannot be recorded, so does the other. -/
theorem Paired.line (h : Paired l lines lines' o o' e e') (hlines : Synonymous l text text') (index : Nat) :
    ∃ r r', LineEnds index text (Engine.passing index e) r ∧ LineEnds index text' (Engine.passing index e') r' ∧
      Alike (fun _ => Paired l lines lines' o o') (fun _ => Twins o o') r r' := by
  have hrecords : Records e text ↔ Records e' text' := by
    unfold Records
    rw [h.left.language, h.right.language, h.twins.setup, h.twins.env, hlines.behind]
  have htrace : (Engine.passing index e).progress.trace.erased = (Engine.passing index e').progress.trace.erased :=
    h.twins.trace
  by_cases hrecorded : Records e text
  · obtain ⟨code, e₁, hends⟩ := h.left.line hrecorded index
    obtain ⟨code', e₁', hends'⟩ := h.right.line (hrecords.mp hrecorded) index
    obtain ⟨hstanding, -, hfollows, hindex, hcommand⟩ := h.left.of_line hends
    obtain ⟨hstanding', -, hfollows', hindex', hcommand'⟩ := h.right.of_line hends'
    obtain ⟨rfl, henv, -⟩ := h.agree hlines hfollows hfollows'
    have hsetup : e₁.setup = e₁'.setup := by
      have hheld := held_of_line (e := Engine.passing index e) h.left.standard.hooks h.left.busy hends
      have hheld' := held_of_line (e := Engine.passing index e') h.right.standard.hooks h.right.busy hends'
      exact (congrArg Held.setup hheld).trans (h.twins.setup.trans (congrArg Held.setup hheld').symm)
    refine ⟨_, _, hends, hends', .ok ⟨hstanding, hstanding', ?_⟩⟩
    refine h.twins_of_line hlines hends hends' hfollows hfollows' (hindex.trans hindex'.symm) ?_
    rw [engineOf_ok, engineOf_ok,
      trace_of_line (e := Engine.passing index e) h.left.standard.hooks h.left.busy hends,
      trace_of_line (e := Engine.passing index e') h.right.standard.hooks h.right.busy hends',
      Trace.erased_push, Trace.erased_push, hcommand, hcommand', hlines.command, hsetup, henv, htrace]
  · obtain ⟨code, e₁, hends, hfollows, -, hindex⟩ := h.left.unrecorded hrecorded index
    obtain ⟨code', e₁', hends', hfollows', -, hindex'⟩ := h.right.unrecorded (mt hrecords.mpr hrecorded) index
    refine ⟨_, _, hends, hends', .error ?_⟩
    refine h.twins_of_line hlines hends hends' hfollows hfollows' (hindex.trans hindex'.symm) ?_
    rw [engineOf_error, engineOf_error,
      trace_of_broken (e := Engine.passing index e) h.left.standard.hooks h.left.busy hends,
      trace_of_broken (e := Engine.passing index e') h.right.standard.hooks h.right.busy hends', htrace]

/-- Both batches go on at the same index, with lines that mean the same. -/
theorem Paired.next (h : Paired l lines lines' o o' e e')
    (hlines : List.Forall₂ (Synonymous l) lines lines')
    (hnext : nextLine? e.progress = some (index, text)) :
    ∃ text', nextLine? e'.progress = some (index, text') ∧ Synonymous l text text' := by
  obtain ⟨hcursor, htext⟩ := nextLine?_eq_some_iff.mp hnext
  rw [h.left.batch] at htext
  obtain ⟨hlt, rfl⟩ := List.getElem?_eq_some_iff.mp htext
  have hlt' : index < lines'.length := hlines.length_eq ▸ hlt
  refine ⟨lines'[index], nextLine?_eq_some_iff.mpr ⟨h.twins.cursor ▸ hcursor, ?_⟩, hlines.get hlt hlt'⟩
  rw [h.right.batch, List.getElem?_eq_getElem hlt']

/-- **Batches with lines that mean the same** end alike, or break off alike. -/
theorem Paired.proceeds {r : EStateM.Result Fault (Engine σ) Int} (h : Paired l lines lines' o o' e e')
    (hlines : List.Forall₂ (Synonymous l) lines lines') (hproceeds : Proceeds e r) :
    ∃ r', Proceeds e' r' ∧ Alike (fun _ => Paired l lines lines' o o') (fun _ => Twins o o') r r' := by
  obtain ⟨ran, e₂, last, hruns, hstops⟩ := proceeds_iff.mp hproceeds
  clear hproceeds
  -- The second batch runs as many lines, and stops where the first does.
  induction hruns generalizing e' with
  | refl e =>
    cases hstops with
    | behind hnext =>
      have hnext' : nextLine? e'.progress = none := by
        rw [nextLine?_eq_none_iff, ← h.twins.cursor, ← h.twins.length]
        exact nextLine?_eq_none_iff.mp hnext
      exact ⟨_, proceeds_of_stops (.behind hnext'), .ok h⟩
    | failed hnext hline hcode =>
      obtain ⟨text', hnext', hsame⟩ := h.next hlines hnext
      obtain ⟨r, r', hends, hends', halike⟩ := h.line hsame _
      cases hends.unique hline
      cases halike with
      | ok hpaired => exact ⟨_, proceeds_of_stops (.failed hnext' hends' hcode), .ok hpaired⟩
    | broken hnext hline =>
      obtain ⟨text', hnext', hsame⟩ := h.next hlines hnext
      obtain ⟨r, r', hends, hends', halike⟩ := h.line hsame _
      cases hends.unique hline
      cases halike with
      | error htwins => exact ⟨_, proceeds_of_stops (.broken hnext' hends'), .error htwins⟩
  | line hnext hline _ ih =>
    obtain ⟨text', hnext', hsame⟩ := h.next hlines hnext
    obtain ⟨r, r', hends, hends', halike⟩ := h.line hsame _
    cases hends.unique hline
    cases halike with
    | ok hpaired =>
      obtain ⟨r', hproceeds', halike⟩ := ih hpaired hstops
      exact ⟨r', proceeds_of_line hnext' hends' hproceeds', halike⟩

/-! ## Runs -/

theorem IsStandard.interchange (hstandard : IsStandard e) (h : Interchangeable e e') : IsStandard e' :=
  hstandard.of_eq h.symm.setup h.symm.services h.symm.limit

/-- Both batches begin alike. -/
theorem IsStandard.paired (hstandard : IsStandard e) (h : Interchangeable e e')
    (hlength : lines.length = lines'.length) :
    Paired (language e) lines lines' e.outputs e'.outputs (opened lines (entered e))
      (opened lines' (entered e')) := by
  have hlanguage := language_eq h.symm.setup h.symm.services
  have hopened (e : Engine σ) (lines : List String) : (opened lines (entered e)).outputs = e.outputs :=
    outputs_announcing (e := { entered e with progress := _ }) (.batchStart lines)
  refine ⟨hstandard.standing lines, hlanguage ▸ (hstandard.interchange h).standing lines',
    h.setup, h.services, h.env, rfl, h.host, rfl, rfl, hlength, ?_, [], ?_, ?_⟩
  · show ({ entries := [], next := 0, limit := e.progress.trace.limit } : Trace) = ⟨[], 0, _⟩
    rw [h.limit]
    rfl
  · rw [hopened, List.append_nil]
  · rw [hopened, List.append_nil]

theorem Twins.completed (h : Twins o o' e e') (code : Int) :
    Twins o o' (completed code (freed e)) (completed code (freed e')) := by
  obtain ⟨written, ho, ho'⟩ := h.outputs
  exact { h with
    busy := rfl
    outputs := ⟨written, (outputs_completed code).trans ho, (outputs_completed code).trans ho'⟩ }

/-- The host is told the code alike, whatever it does then.  It is told none if the batches have broken off. -/
theorem alike_concluded {r r' : EStateM.Result Fault (Engine σ) Int}
    (h : Alike (fun _ => Paired l lines lines' o o') (fun _ => Twins o o') r r') :
    Alike (fun _ => Twins o o') (fun _ => Twins o o') (concluded r) (concluded r') := by
  cases h with
  | @ok code e e' h =>
    show Alike _ _ (complete code (freed e)) (complete code (freed e'))
    rw [complete_of_unhooked (e := freed e) h.left.standard.hooks,
      complete_of_unhooked (e := freed e') h.right.standard.hooks]
    exact twins_veils.callBack (congrArg Setup.onCompletion h.twins.setup)
      (fun script _ => Script.asks_of_all (fun _ => trivial) _) (fun script _ => Script.heeds_eq _)
      (h.twins.completed code)
  | error htwins => exact .error { htwins with busy := rfl }

theorem carries_synonymous {r : EStateM.Result Fault (Engine σ) Int} (hstandard : IsStandard e)
    (h : Interchangeable e e') (hlines : List.Forall₂ (Synonymous (language e)) lines lines')
    (hcarries : Carries (.runBatch lines) e r) :
    ∃ r', Carries (.runBatch lines') e' r' ∧
      Alike (fun _ => Twins e.outputs e'.outputs) (fun _ => Twins e.outputs e'.outputs) r r' := by
  obtain ⟨r₁, hproceeds, rfl⟩ := (runBatch_iff hstandard.hooks h.idle).mp hcarries
  obtain ⟨r₁', hproceeds', halike⟩ := (hstandard.paired h hlines.length_eq).proceeds hlines hproceeds
  exact ⟨_, (runBatch_iff (hstandard.interchange h).hooks h.idle').mpr ⟨_, hproceeds', rfl⟩,
    alike_concluded halike⟩

/-- **The case of names never matters.**  Two batches have as many lines, and these are the same but for the
case of letters in command words and in references; lines that cannot be read are the same.  Two engines with
the standard types and commands and no hooks have the same variables, settings and host.  Then the one batch
ends on the one engine exactly if the other ends on the other, with the same code, or with the same fault: that
of the function that is told the code, or that of variables which a verbose engine cannot write.  They have
written the same, hold the same variables, in the same order, and their traces are the same but for the texts of
the lines. -/
theorem runBatch_respelled (hstandard : IsStandard e) (h : Interchangeable e e')
    (hlines : List.Forall₂ (Line.Respelled e.setup.marks) lines lines') :
    (∀ r, Carries (.runBatch lines) e r → ∃ r', Carries (.runBatch lines') e' r' ∧
        Alike (fun _ => Twins e.outputs e'.outputs) (fun _ => Twins e.outputs e'.outputs) r r') ∧
      ∀ r', Carries (.runBatch lines') e' r' → ∃ r, Carries (.runBatch lines) e r ∧
        Alike (fun _ => Twins e.outputs e'.outputs) (fun _ => Twins e.outputs e'.outputs) r r' := by
  have hsame : List.Forall₂ (Synonymous (language e)) lines lines' :=
    hlines.imp fun _ _ => hstandard.synonymous
  refine ⟨fun r => carries_synonymous hstandard h hsame, fun r' hcarries => ?_⟩
  have hlanguage := language_eq h.symm.setup h.symm.services
  have hsame' : List.Forall₂ (Synonymous (language e')) lines' lines :=
    hlanguage ▸ hsame.flip.imp fun _ _ => Synonymous.symm
  obtain ⟨r, hcarries', halike⟩ :=
    carries_synonymous (hstandard.interchange h) h.symm hsame' hcarries
  exact ⟨r, hcarries', halike.symm.mono (fun _ _ _ => Twins.symm) fun _ _ _ => Twins.symm⟩

theorem runBatch_respelled_print :
    ∃ e₁ e₁', Carries (.runBatch ["SET $x 1", "PRINT $x"]) plain (.ok 0 e₁) ∧
      Carries (.runBatch ["set $x 1", "print $X"]) plain (.ok 0 e₁') ∧ e₁.outputs = ["1"] ∧
      Twins [] [] e₁ e₁' := by
  have hx (rest : List Char) : Line.IsArgument defaults {} ['$', 'x'] (' ' :: rest)
      ⟨TypeName.reference, .text "$x", some "$x"⟩ :=
    ⟨'$', ['x'], reference, {}, ⟨TypeName.reference, .text "$x", none⟩, rfl, rfl, Line.claims_reference,
      .goesOn rfl (.dropped rfl rfl), rfl, rfl, rfl⟩
  have hone : Line.IsArgument defaults {} ['1'] [' '] ⟨TypeName.number, .whole 1, some "1"⟩ :=
    ⟨'1', [], number, {}, ⟨TypeName.number, .whole 1, none⟩, rfl, rfl, Line.claims_number (by decide),
      .dropped rfl rfl, rfl, rfl, rfl⟩
  have hset : Line.Split.Of defaults {} ['S', 'E', 'T', ' ', '$', 'x', ' ', '1', ' ']
      ⟨"SET", [⟨TypeName.reference, .text "$x", some "$x"⟩, ⟨TypeName.number, .whole 1, some "1"⟩]⟩
      ⟨[], ['S', 'E', 'T'], [⟨[' '], ['$', 'x']⟩, ⟨[' '], ['1']⟩], [' ']⟩ :=
    ⟨rfl, nofun, nofun, by decide, rfl,
      .next nofun (by decide) (hx _) (.next nofun (by decide) hone (.none (by decide)))⟩
  have hprint : Line.Split.Of defaults {} ['P', 'R', 'I', 'N', 'T', ' ', '$', 'x', ' ']
      ⟨"PRINT", [⟨TypeName.reference, .text "$x", some "$x"⟩]⟩
      ⟨[], ['P', 'R', 'I', 'N', 'T'], [⟨[' '], ['$', 'x']⟩], [' ']⟩ :=
    ⟨rfl, nofun, nofun, by decide, rfl, .next nofun (by decide) (hx _) (.none (by decide))⟩
  have hlines : List.Forall₂ (Line.Respelled {}) ["SET $x 1", "PRINT $x"] ["set $x 1", "print $X"] :=
    .cons (.of_caseless ⟨[], ['s', 'e', 't'], [⟨[' '], ['$', 'x']⟩, ⟨[' '], ['1']⟩], [' ']⟩
        Marks.caseless_usual rfl rfl hset rfl (by decide) (.same (.same .none)) rfl rfl)
      (.cons (.of_caseless ⟨[], ['p', 'r', 'i', 'n', 't'], [⟨[' '], ['$', 'X']⟩], [' ']⟩
        Marks.caseless_usual rfl rfl hprint rfl (by decide) (.reference rfl (by decide) .none) rfl rfl) .nil)
  obtain ⟨r, hcarries, hreturns⟩ := carries_of_any (e := plain) (t := .runBatch ["SET $x 1", "PRINT $x"]) 4
    (returns 0 fun e => e.outputs == ["1"]) (by decide +kernel)
  obtain ⟨e₁, rfl, htest⟩ := of_returns hreturns
  obtain ⟨r', hcarries', halike⟩ := (runBatch_respelled (isStandard_install {} () rfl)
    (⟨rfl, rfl, rfl, rfl, rfl, rfl, rfl⟩ : Interchangeable plain plain) hlines).1 _ hcarries
  cases halike with
  | ok htwins => exact ⟨e₁, _, hcarries, hcarries', eq_of_beq htest, htwins⟩

end Standard

end CommandBatch
