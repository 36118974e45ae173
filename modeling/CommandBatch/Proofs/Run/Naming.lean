import CommandBatch.Proofs.Line.CommandWord
import CommandBatch.Proofs.Run.Containment
import CommandBatch.Proofs.Run.Trace

/-!
# Which command a step is logged with

A step is logged with the command of the text that was interpreted last.  While a handler runs or waits,
that need not be the line any more: whoever has another text interpreted leaves its command behind
(`misnamed`).  What a run does guarantee is that the command of each entry of the trace, and of each
context that a step rule is given, was read off the text of that entry or off one of the texts that were
interpreted during handlers (`names_of_run`).  So entries name the commands of their own texts as long as
no such text is interpreted.

Hooks, step rules and the function that is told the code may interpret what they like: a line is read
after the hooks that announce it, and logged before the rules that follow.
-/

namespace CommandBatch

variable {σ : Type}

/-- A registry, and what has become of it by further registrations. -/
inductive TypeRegistry.Grown (r : TypeRegistry) : TypeRegistry → Prop
  | refl : Grown r r
  | register {r₁ r₂ : TypeRegistry} {name : Datum} {lexis : Lexis} {priority : Option Int}
      (h : Grown r r₁) (hregister : r₁.register name lexis priority = .ok r₂) : Grown r r₂

theorem TypeRegistry.Grown.trans {r r₁ r₂ : TypeRegistry} (h : r.Grown r₁) (h' : r₁.Grown r₂) :
    r.Grown r₂ := by
  induction h' with
  | refl => exact h
  | register _ hregister ih => exact .register ih hregister

/-- What step rules are told about the step of an entry. -/
def TraceEntry.context? (entry : TraceEntry) : Option StepContext :=
  entry.line.map fun line => ⟨entry.step, line, entry.command, entry.code⟩

/-- The context that an entry of the transcript says a step rule was given. -/
def Record.fired? : Record → Option StepContext
  | .ruleFired _ context => some context
  | _ => none

/-- The command was read off the text or off one of the foreign ones, with types that were registered
between the first and the last of these registries. -/
def Drawn (foreign : String → Prop) (marks : Marks) (first last : TypeRegistry)
    (text command : String) : Prop :=
  ∃ types source, first.Grown types ∧ types.Grown last ∧ (source = text ∨ foreign source) ∧
    Line.Names types.types marks source command

theorem Drawn.grow {foreign : String → Prop} {marks : Marks} {first last last' : TypeRegistry}
    {text command : String} (h : Drawn foreign marks first last text command)
    (hgrown : last.Grown last') : Drawn foreign marks first last' text command := by
  obtain ⟨types, source, hfirst, hlast, hsource, hnames⟩ := h
  exact ⟨types, source, hfirst, hlast.trans hgrown, hsource, hnames⟩

/-- The request interprets foreign texts only, and registers only handlers of a class. -/
def Request.Among (calls : Handler σ → Prop) (foreign : String → Prop) : Request σ → Prop
  | .interpret line => foreign line
  | .registerCommand _ handler => ∀ h, handler = some h → calls h
  | _ => True

namespace Engine

open Act Process Run

/-- The contexts that step rules were given, in order. -/
def fired (e : Engine σ) : List StepContext := e.transcript.toList.filterMap Record.fired?

/-- All commands have handlers of a class. -/
def Equipped (calls : Handler σ → Prop) (e : Engine σ) : Prop :=
  ∀ name command, e.services.commands.find? name = some command → calls command.handler

/-- Since `e₀`, a run has done these steps.  The trace has counted them and keeps the last; the command
of each was read off its text or off a foreign one; and step rules were told of no others. -/
structure Chronicle (foreign : String → Prop) (e₀ : Engine σ) (all : List TraceEntry)
    (e : Engine σ) : Prop where
  entries : e.progress.trace.entries = Trace.keepLast e.progress.trace.limit all
  next : e.progress.trace.next = all.length
  steps : ∀ i (h : i < all.length), all[i].step = i
  drawn : ∀ entry ∈ all,
    Drawn foreign e₀.setup.marks e₀.services.types e.services.types entry.text entry.command
  fired : ∃ contexts, e.fired = e₀.fired ++ contexts ∧
    ∀ c ∈ contexts, ∃ entry ∈ all, entry.context? = some c

/-- Since `e₀`, all steps have such commands. -/
def NamesSteps (foreign : String → Prop) (e₀ e : Engine σ) : Prop :=
  ∃ all, Chronicle foreign e₀ all e

/-! ## What requests keep -/

/-- What is known of an engine in a run besides its steps. -/
structure Kept (calls : Handler σ → Prop) (foreign : String → Prop) (e₀ : Engine σ) (busy : Bool)
    (all : List TraceEntry) (e : Engine σ) : Prop extends Chronicle foreign e₀ all e where
  setup : e.setup = e₀.setup
  hooks : e.services.hooks = e₀.services.hooks
  busy : e.busy = busy
  grown : e₀.services.types.Grown e.services.types
  equipped : e.Equipped calls

variable {calls : Handler σ → Prop} {foreign : String → Prop} {e₀ e e₁ : Engine σ} {busy : Bool}
  {all : List TraceEntry} {text : String}

theorem fired_push {r : Record} (h : r.fired? = none) :
    fired { e with transcript := e.transcript.push r } = e.fired := by
  simp [fired, h]

theorem Kept.congr (h : Kept calls foreign e₀ busy all e) (hsetup : e₁.setup = e.setup)
    (hhooks : e₁.services.hooks = e.services.hooks) (hbusy : e₁.busy = e.busy)
    (htrace : e₁.progress.trace = e.progress.trace) (hfired : e₁.fired = e.fired)
    (hgrown : e.services.types.Grown e₁.services.types) (hequipped : e₁.Equipped calls) :
    Kept calls foreign e₀ busy all e₁ where
  entries := by rw [htrace]; exact h.entries
  next := by rw [htrace]; exact h.next
  steps := h.steps
  drawn entry hmem := (h.drawn entry hmem).grow hgrown
  fired := by rw [hfired]; exact h.fired
  setup := hsetup.trans h.setup
  hooks := hhooks.trans h.hooks
  busy := hbusy.trans h.busy
  grown := h.grown.trans hgrown
  equipped := hequipped

theorem Kept.edited (h : Kept calls foreign e₀ busy all e) {ed : Edit} (hedited : Edited e ed e₁) :
    Kept calls foreign e₀ busy all e₁ := by
  cases hedited with
  | output | noted => exact h.congr rfl rfl rfl rfl (fired_push rfl) .refl h.equipped
  | refused | set | deleted | moved => exact h.congr rfl rfl rfl rfl rfl .refl h.equipped
  | typed hregister => exact h.congr rfl rfl rfl rfl rfl (.register .refl hregister) h.equipped

/-- Registering handlers of a class leaves all handlers in the class. -/
theorem Equipped.equip (h : e.Equipped calls) {d : Declaration} {handler : Option (Handler σ)}
    {c : Command (Handler σ)} (hask : ∀ h, handler = some h → calls h)
    (hc : d.command handler = .ok c) : (Engine.equipped c e).Equipped calls := by
  have hhandler : calls c.handler := by
    unfold Declaration.command at hc
    split at hc <;> cases hc
    exact hask _ rfl
  intro name command hfind
  have hfind : (e.services.commands.register c).find? name = some command := hfind
  rw [CommandRegistry.find?_register] at hfind
  split at hfind
  · cases hfind
    exact hhandler
  · exact h name command hfind

theorem Kept.equip (h : Kept calls foreign e₀ busy all e) {d : Declaration}
    {handler : Option (Handler σ)} {c : Command (Handler σ)}
    (hask : ∀ h, handler = some h → calls h) (hc : d.command handler = .ok c) :
    Kept calls foreign e₀ busy all (Engine.equipped c e) :=
  h.congr rfl rfl rfl rfl rfl .refl (h.equipped.equip hask hc)

/-- What an interpreted text leaves behind is the command that it names. -/
theorem interpret_leaves (text : String) (e : Engine σ) :
    ∃ p : Progress, engineOf (interpret text e) = { e with progress := p } ∧
      p.trace = e.progress.trace ∧
      Line.Names e.services.types.types e.setup.marks text p.command := by
  rw [interpret_eq]
  cases hread : Line.read e.services.types.types e.setup.marks text with
  | ok line => exact ⟨_, rfl, rfl, .inl ⟨⟨line, hread⟩, Line.command_of_read hread⟩⟩
  | error fault => cases fault <;> exact ⟨_, rfl, rfl, .inr ⟨⟨_, hread⟩, rfl⟩⟩

theorem kept_withstands :
    Withstands (Request.Among calls fun _ => True) (Kept calls foreign e₀ busy all) where
  host _ _ h := h.congr rfl rfl rfl rfl rfl .refl h.equipped
  edit _ _ := preserves_edit fun _ _ h hedited => h.edited hedited
  registerCommand _ _ hask := preserves_registerCommand fun _ _ h hc => h.equip hask hc
  interpret text _ := preserves_iff.mpr fun e h => by
    obtain ⟨p, hp, htrace, -⟩ := interpret_leaves text e
    rw [hp]
    exact h.congr rfl rfl rfl htrace rfl .refl h.equipped

/-- A line is being carried out: the command that it would be logged with now is drawn from its text
or from a foreign one. -/
structure Reading (calls : Handler σ → Prop) (foreign : String → Prop) (e₀ : Engine σ)
    (all : List TraceEntry) (text : String) (e : Engine σ) : Prop
    extends Kept calls foreign e₀ true all e where
  named : Drawn foreign e₀.setup.marks e₀.services.types e.services.types text e.progress.command

/-- The text that has just been interpreted is the one that the command comes from. -/
theorem reading_interpret {source : String} (h : Kept calls foreign e₀ true all e)
    (hsource : source = text ∨ foreign source) :
    Reading calls foreign e₀ all text (engineOf (interpret source e)) := by
  obtain ⟨p, hp, htrace, hnames⟩ := interpret_leaves source e
  rw [hp]
  refine ⟨h.congr rfl rfl rfl htrace rfl .refl h.equipped, ?_⟩
  rw [h.setup] at hnames
  exact ⟨e.services.types, source, h.grown, .refl, hsource, hnames⟩

theorem reading_withstands :
    Withstands (Request.Among calls foreign) (Reading calls foreign e₀ all text) where
  host _ _ h := ⟨h.congr rfl rfl rfl rfl rfl .refl h.equipped, h.named⟩
  edit _ _ := preserves_edit fun _ _ h hedited => by
    refine ⟨h.edited hedited, ?_⟩
    cases hedited with
    | typed hregister => exact h.named.grow (.register .refl hregister)
    | output | noted | refused | set | deleted | moved => exact h.named
  registerCommand _ _ hask := preserves_registerCommand fun _ _ h hc => ⟨h.equip hask hc, h.named⟩
  interpret _ hforeign := preserves_iff.mpr fun _ h => reading_interpret h.toKept (.inr hforeign)

/-! ## A line -/

variable {others : Engine σ → Engine σ → Prop}

theorem Kept.announcing (h : Kept calls foreign e₀ busy all e) (n : Notice) :
    Kept calls foreign e₀ busy all (Engine.announcing n e) := by
  refine h.congr rfl rfl rfl ?_ (fired_push rfl) .refl h.equipped
  cases n <;> rfl

theorem Kept.announce (h : Kept calls foreign e₀ busy all e)
    (hhooks : e₀.services.hooks.Asks (Request.Among calls fun _ => True)) (n : Notice) :
    (announce n).Ensures (fun _ => Kept calls foreign e₀ busy all)
      (fun _ => Kept calls foreign e₀ busy all) e := by
  have hhooks : e.services.hooks.Asks (Request.Among calls fun _ => True) := by rwa [h.hooks]
  exact kept_withstands.announce
    (fun _ _ _ h => h.congr rfl rfl rfl rfl (fired_push rfl) .refl h.equipped) hhooks (h.announcing n)

theorem Kept.openLine (h : Kept calls foreign e₀ true all e)
    (hhooks : e₀.services.hooks.Asks (Request.Among calls fun _ => True)) (index : Nat) :
    (openLine index text).Ensures (fun _ => Reading calls foreign e₀ all text)
      (fun _ => Kept calls foreign e₀ true all) e := by
  have h₁ : Kept calls foreign e₀ true all
      { e with progress := { e.progress with index := some index } } :=
    h.congr rfl rfl rfl rfl rfl .refl h.equipped
  refine ensures_bind (ensures_bind ((h₁.announce hhooks (.beforeLine index text)).mono
    (fun _ e₂ h₂ => ?_) fun _ _ h₂ => h₂))
  have hreading : Reading calls foreign e₀ all text (engineOf (interpret text e₂)) :=
    reading_interpret h₂ (.inl rfl)
  exact (ensures_iff.mpr hreading).mono (fun _ _ h₃ => h₃) fun _ _ h₃ => h₃.toKept

/-- While a handler runs, the command of its line comes from the line or from a foreign text. -/
theorem Reading.executeUnless (hclosed : ∀ h, calls h → ∀ args,
      (h args).Asks (Request.Among calls foreign))
    (h : Reading calls foreign e₀ all text e) (fuel : Nat) (code : Int) :
    (executeUnless (carryOut fuel) code e).Ensures (Meddled (Request.Among calls foreign))
      (Kept calls foreign e₀ true all) (fun _ => Reading calls foreign e₀ all text)
      fun _ => Kept calls foreign e₀ true all := by
  have hfailing (r : Reason) (text₁ : String) (e₁ : Engine σ)
      (h₁ : Reading calls foreign e₀ all text e₁) :
      Reading calls foreign e₀ all text (failing r text₁ e₁) :=
    ⟨h₁.congr rfl rfl rfl rfl rfl .refl h₁.equipped, h₁.named⟩
  have hsteadfast : Steadfast (Meddled (Request.Among calls foreign)) (Request.Among calls foreign)
      (Reading calls foreign e₀ all text) :=
    { toWithstands := reading_withstands
      busy := fun _ h₁ => h₁.busy
      others := fun _ _ h₁ => reading_withstands.meddled hfailing h₁
      failing := hfailing
      calls := fun e₁ name command args h₁ hfind =>
        hclosed _ (h₁.equipped name command hfind) args }
  by_cases hcode : code = 0
  · simp only [Engine.executeUnless, if_pos hcode]
    exact (hsteadfast.execute (hsteadfast.carryOut fuel) e h).mono (fun _ h₁ => h₁.toKept)
      (fun _ _ h₁ => h₁) fun _ _ h₁ => h₁.toKept
  · simp only [Engine.executeUnless, if_neg hcode]
    exact ensures_pure h

/-- The step is taken up with the command that the engine stands with. -/
theorem Reading.logged (h : Reading calls foreign e₀ all text e) (index : Nat) (code : Int) :
    Kept calls foreign e₀ true (all ++ [entryOf index text code e]) (logged index text code e) where
  entries := by
    show Trace.keepLast _ (e.progress.trace.entries ++ [entryOf index text code e]) = _
    rw [h.entries, Trace.keepLast_concat]
    rfl
  next := by
    show e.progress.trace.next + 1 = _
    rw [h.next, List.length_append, List.length_singleton]
  steps i hi := by
    rw [List.length_append, List.length_singleton] at hi
    by_cases hlast : i < all.length
    · rw [List.getElem_append_left hlast]
      exact h.steps i hlast
    · obtain rfl : i = all.length := by omega
      rw [List.getElem_concat_length rfl]
      exact h.next
  drawn entry hmem := by
    rcases List.mem_append.mp hmem with hmem | hmem
    · exact h.drawn entry hmem
    · rw [List.mem_singleton.mp hmem]
      exact h.named
  fired := by
    obtain ⟨contexts, hfired, hcontexts⟩ := h.fired
    refine ⟨contexts, hfired, fun c hc => ?_⟩
    obtain ⟨entry, hmem, hcontext⟩ := hcontexts c hc
    exact ⟨entry, List.mem_append_left _ hmem, hcontext⟩
  setup := h.setup
  hooks := h.hooks
  busy := h.busy
  grown := h.grown
  equipped := h.equipped

/-- A step rule may be told of any step that has been done. -/
theorem Kept.fire (h : Kept calls foreign e₀ busy all e) {entry : TraceEntry} (hmem : entry ∈ all)
    {c : StepContext} (hcontext : entry.context? = some c) (number : Nat) :
    Kept calls foreign e₀ busy all { e with transcript := e.transcript.push (.ruleFired number c) } :=
  { h with
    fired := by
      obtain ⟨contexts, hfired, hcontexts⟩ := h.fired
      refine ⟨contexts ++ [c], ?_, fun c₁ hc₁ => ?_⟩
      · rw [← List.append_assoc, ← hfired]
        simp [Engine.fired, Record.fired?]
      · rcases List.mem_append.mp hc₁ with hc₁ | hc₁
        · exact hcontexts c₁ hc₁
        · rw [List.mem_singleton.mp hc₁]
          exact ⟨entry, hmem, hcontext⟩ }

theorem Reading.closeLine (h : Reading calls foreign e₀ all text e)
    (hhooks : e₀.services.hooks.Asks (Request.Among calls fun _ => True)) (index : Nat) (code : Int) :
    (closeLine index text code).Ensures (fun _ e₁ => ∃ all, Kept calls foreign e₀ true all e₁)
      (fun _ e₁ => ∃ all, Kept calls foreign e₀ true all e₁) e := by
  have hhooks' : e.services.hooks.Asks (Request.Among calls fun _ => True) := by rwa [h.hooks]
  have hlog := kept_withstands.logStep (F := fun e₁ => ∃ all, Kept calls foreign e₀ true all e₁)
    (fun _ number h₁ => h₁.fire (List.mem_append_right all (List.mem_singleton.mpr rfl)) rfl number) hhooks'
    (h.logged index code) (fun _ h₁ => ⟨_, h₁⟩) fun _ => ⟨all, h.toKept⟩
  have hclose := ensures_closing hlog fun e₁ h₁ =>
    (h₁.announce hhooks (.afterLine index text code)).mono (fun _ e₂ h₂ => by
      by_cases hcode : code = 0
      · rw [if_pos hcode]
        exact h₂
      · rw [if_neg hcode]
        exact (h₂.announce hhooks _).mono (fun _ _ h₃ => h₃) fun _ _ h₃ => ⟨_, h₃⟩) fun _ _ h₂ => ⟨_, h₂⟩
  exact hclose.mono (fun _ _ h₃ => ⟨_, h₃.2⟩) fun _ _ h₃ => h₃

/-! ## A run -/

/-- What a run keeps between its lines, whatever their steps were. -/
def Running (calls : Handler σ → Prop) (foreign : String → Prop) (e₀ e : Engine σ) : Prop :=
  ∃ all, Kept calls foreign e₀ true all e

theorem upholds_running_step
    (hclosed : ∀ h, calls h → ∀ args, (h args).Asks (Request.Among calls foreign))
    (hhooks : e₀.services.hooks.Asks (Request.Among calls fun _ => True)) (fuel index : Nat)
    (text : String) :
    (step (carryOut fuel) index text).Upholds (Meddled (Request.Among calls foreign))
      (Running calls foreign e₀) := by
  rintro e ⟨all, h⟩
  refine ensures_bind (ensures_ofAct ((h.openLine hhooks index).mono (fun code e₁ h₁ => ?_)
    fun _ _ h₁ => ⟨all, h₁⟩))
  refine ensures_bind ((h₁.executeUnless hclosed fuel code).mono (fun _ h₂ => ⟨all, h₂⟩)
    (fun code₁ e₂ h₂ => ?_) fun _ _ h₂ => ⟨all, h₂⟩)
  exact ensures_ofAct (h₂.closeLine hhooks index code₁)

theorem Running.passing (index : Nat) (e : Engine σ) (h : Running calls foreign e₀ e) :
    Running calls foreign e₀ (passing index e) := by
  obtain ⟨all, h⟩ := h
  exact ⟨all, h.congr rfl rfl rfl rfl rfl .refl h.equipped⟩

theorem Kept.openBatch (h : Kept calls foreign e₀ true all e)
    (hhooks : e₀.services.hooks.Asks (Request.Among calls fun _ => True)) (lines : List String)
    (cursor : Int) :
    (openBatch lines cursor).Ensures (fun _ => Running calls foreign e₀)
      (fun _ => Running calls foreign e₀) e := by
  have h₁ : Kept calls foreign e₀ true all
      { e with progress := { e.progress with batch := lines, cursor } } :=
    h.congr rfl rfl rfl rfl rfl .refl h.equipped
  exact ensures_bind ((h₁.announce hhooks (.batchStart lines)).mono (fun _ _ h₂ => ⟨all, h₂⟩)
    fun _ _ h₂ => ⟨all, h₂⟩)

/-- Neither the report of a run nor what the host does with it adds a step. -/
theorem Kept.complete (h : Kept calls foreign e₀ busy all e)
    (hhooks : e₀.services.hooks.Asks (Request.Among calls fun _ => True))
    (hcallback : ∀ script, e₀.setup.onCompletion = some script → ∀ code,
      (script code).Asks (Request.Among calls fun _ => True)) (code : Int) :
    (complete code).Ensures (fun _ => Kept calls foreign e₀ busy all)
      (fun _ => Kept calls foreign e₀ busy all) e := by
  have h₁ : Kept calls foreign e₀ busy all { e with progress := { e.progress with code } } :=
    h.congr rfl rfl rfl rfl rfl .refl h.equipped
  refine ensures_bind (ensures_bind ((h₁.announce hhooks (.batchEnd code)).mono (fun _ e₂ h₂ => ?_)
    fun _ _ h₂ => h₂))
  have h₃ : Kept calls foreign e₀ busy all (completing code e₂) :=
    h₂.congr rfl rfl rfl rfl (fired_push rfl) .refl h₂.equipped
  exact kept_withstands.callBack
    (fun script hscript => hcallback script (by rwa [← h₃.setup]) code) h₃

/-- **Every step is named after its own text or after a foreign one.**  Let commands have handlers of a
class, of which all commands are that handlers, hooks or others register, and let the texts that handlers
and others interpret while a line is carried out be foreign.  Then a run, whenever it waits and however it
ends, has logged each step with a command that was read off the text of the step or off a foreign text,
and step rules have been told the same. -/
theorem names_of_run {t : Task} (hrun : t ≠ .execute) (hidle : e.busy = false)
    (hequipped : e.Equipped calls)
    (hclosed : ∀ h, calls h → ∀ args, (h args).Asks (Request.Among calls foreign))
    (hhooks : e.services.hooks.Asks (Request.Among calls fun _ => True))
    (hcallback : ∀ script, e.setup.onCompletion = some script → ∀ code,
      (script code).Asks (Request.Among calls fun _ => True)) (fuel : Nat) :
    (carryOut (fuel + 1) t e).Ensures (Meddled (Request.Among calls foreign)) (NamesSteps foreign e)
      (fun _ => NamesSteps foreign e) fun _ => NamesSteps foreign e := by
  have hstart : Kept calls foreign e true [] (entered e) :=
    { entries := (Trace.keepLast_nil _).symm
      next := rfl
      steps := fun i hi => absurd hi (Nat.not_lt_zero i)
      drawn := fun _ hmem => absurd hmem List.not_mem_nil
      fired := ⟨[], (List.append_nil _).symm, fun _ hmem => absurd hmem List.not_mem_nil⟩
      setup := rfl
      hooks := rfl
      busy := rfl
      grown := .refl
      equipped := hequipped }
  have hwait (e₁ : Engine σ) (h : Running calls foreign e e₁) : NamesSteps foreign e e₁ := by
    obtain ⟨all, h⟩ := h
    exact ⟨all, h.toChronicle⟩
  have hfreed (e₁ : Engine σ) (all : List TraceEntry) (h : Kept calls foreign e true all e₁) :
      Kept calls foreign e false all (freed e₁) :=
    { h with busy := rfl }
  have hended : (carryOut (fuel + 1) t e).Ensures (Meddled (Request.Among calls foreign))
      (Running calls foreign e) (fun _ => NamesSteps foreign e) fun _ => NamesSteps foreign e := by
    refine ensures_run (L := fun _ => Running calls foreign e) (G := fun _ => Running calls foreign e)
      hrun hidle (hstart.openBatch hhooks) Running.passing (upholds_running_step hclosed hhooks fuel)
      (fun _ h => h) (fun code e₁ h => ?_) fun fault e₁ h => ?_
    · obtain ⟨all, h⟩ := h
      exact ((hfreed e₁ all h).complete hhooks hcallback code).mono
        (fun _ _ h => ⟨all, h.toChronicle⟩) fun _ _ h => ⟨all, h.toChronicle⟩
    · obtain ⟨all, h⟩ := h
      exact ⟨all, (hfreed e₁ all h).toChronicle⟩
  exact hended.mono hwait (fun _ _ h => h) fun _ _ h => h

/-- A command that has another text interpreted before it answers. -/
def meddling (text : String) : Command (Handler Unit) where
  signature := { name := "OUTER", params := [] }
  handler := fun _ => .interpret text fun _ => .wait .block .silent

theorem names_of_run_meddling :
    (carryOut 4 (.runBatch ["OUTER"]) (hosted [] [meddling "PRINT 1"])).Ensures
      (Meddled (Request.Among (· = (meddling "PRINT 1").handler) (· = "PRINT 1")))
      (NamesSteps (· = "PRINT 1") (hosted [] [meddling "PRINT 1"]))
      (fun _ => NamesSteps (· = "PRINT 1") (hosted [] [meddling "PRINT 1"]))
      fun _ => NamesSteps (· = "PRINT 1") (hosted [] [meddling "PRINT 1"]) := by
  have hequipped : (hosted [] [meddling "PRINT 1"]).Equipped (· = (meddling "PRINT 1").handler) := by
    intro name command hfind
    have hfind : (({} : CommandRegistry (Handler Unit)).register (meddling "PRINT 1")).find? name =
        some command := hfind
    rw [CommandRegistry.find?_register] at hfind
    split at hfind <;> cases hfind
    rfl
  have hclosed (h : Handler Unit) (hcalls : h = (meddling "PRINT 1").handler) (args : List Value) :
      (h args).Asks (Request.Among (· = (meddling "PRINT 1").handler) (· = "PRINT 1")) := by
    subst hcalls
    exact ⟨rfl, fun _ => trivial⟩
  exact names_of_run (by simp) rfl hequipped hclosed
    ⟨fun _ hmem => (nomatch hmem), fun _ hmem => (nomatch hmem)⟩ (fun _ hsetup => nomatch hsetup) 3

/-- **A step can be named after another text**: the handler of a line has a text interpreted, and the step
of that line is logged with the command of the text. -/
theorem misnamed :
    ∃ r, Carries (.runBatch ["OUTER"]) (hosted [] [meddling "PRINT 1"]) r ∧
      returns 0 (fun e => e.progress.trace.entries == [⟨0, some 0, "OUTER", "PRINT", 0, none⟩]) r = true ∧
      ∀ types command, Line.Names types {} "OUTER" command → command ≠ "PRINT" := by
  obtain ⟨r, hcarries, hreturns⟩ := carries_of_any (t := .runBatch ["OUTER"])
    (e := hosted [] [meddling "PRINT 1"]) 3
    (returns 0 fun e => e.progress.trace.entries == [⟨0, some 0, "OUTER", "PRINT", 0, none⟩])
    (by decide +kernel)
  refine ⟨r, hcarries, hreturns, fun types command hnames => ?_⟩
  have hword : Line.commandWord {} "OUTER" = "OUTER" := by decide +kernel
  rcases hnames with ⟨-, rfl⟩ | ⟨-, rfl⟩
  · rw [hword]
    decide
  · decide

end Engine

end CommandBatch
