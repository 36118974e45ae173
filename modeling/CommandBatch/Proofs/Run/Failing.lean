import CommandBatch.Proofs.Command.Binding
import CommandBatch.Proofs.Run.Containment
import CommandBatch.Proofs.Run.Unhooked

/-!
# Lines that fail

There are five ways for a line to fail (`LineFails`): it cannot be read, its command is not there, its
arguments do not fit, its handler breaks off, or the handler answers with something that is neither
nothing nor the code 0.  Each gives a reason, and the code of the line is the code of the reason
(`lineEnds_of_fails`), unless there is a number to be written that has too many digits: in the answer
that the failure quotes, in the name of a reference, or in the variables of a verbose engine.  Then the
run breaks off (`lineEnds_of_untold`).

A batch goes on behind a line exactly where the code is 0, so a line that fails is the last of its batch
as long as its reason has another code (`stops_at_failure`).  A failure that a host raises itself can have
the code 0, and passes for a success then (`giving_passes`).
-/

namespace CommandBatch

/-- The arguments of a line cannot be bound to the parameters of its command for this reason. -/
def Reason.OfBinding : Reason → Prop
  | unresolved _ | nameless | mismatch .. | tooMany .. | tooFew .. => True
  | _ => False

/-- The reason as it is noted, if it is. -/
def Reason.told? : Reason → Option Reason
  | nameless => none
  | r => some r

theorem Reason.told?_of_ne {r : Reason} (h : r ≠ .nameless) : r.told? = some r := by
  cases r with
  | nameless => exact absurd rfl h
  | _ => rfl

namespace Engine

open Act Process

variable {σ : Type}

/-- The script, played on an engine, comes out with an answer or a fault. -/
def Plays (script : Script σ) (e : Engine σ) (outcome : Except Fault Datum) (e₁ : Engine σ) : Prop :=
  ∃ fuel, (playOut (carryOut fuel) script).attempt.Ends e (.ok outcome e₁)

/-- Why a line fails whose handler breaks off. -/
def faultReason (command : String) : Fault → Reason
  | .failure f => f.reason
  | f => .commandFailed command f.asOrigin

/-- Why a line fails whose handler answers with data. -/
def answerReason (command : String) : Datum → Reason
  | .whole code => .answeredCode command code
  | answer => .answeredData command answer.quoted

/-- The same as far as it can be written: codes are not quoted until they are asked for. -/
def answerReason? (command : String) (answer : Datum) : Option Reason :=
  match answer with
  | .whole _ => some (answerReason command answer)
  | _ => if answer.isWritable then some (answerReason command answer) else none

/-- The line that an engine faces fails, which leaves the engine like this.  There is a reason to be noted,
unless that cannot be written. -/
inductive LineFails (text : String) (e : Engine σ) : Option Reason → Engine σ → Prop
  | unreadable {f : Failure}
      (hread : Line.read e.services.types.types e.setup.marks text = .error (.failure f)) :
      LineFails text e (some f.reason) e
  | unknown {line : Line}
      (hread : Line.read e.services.types.types e.setup.marks text = .ok line)
      (hname : line.command ≠ "") (hfind : e.services.commands.find? line.command = none) :
      LineFails text e (some (.unknownCommand line.command)) (understood line e)
  | unbound {line : Line} {command : Command (Handler σ)} {reason : Reason}
      (hread : Line.read e.services.types.types e.setup.marks text = .ok line)
      (hname : line.command ≠ "") (hfind : e.services.commands.find? line.command = some command)
      (hbind : command.signature.bind e.env line.args = .error reason) :
      LineFails text e reason.told? (understood line e)
  | raised {line : Line} {command : Command (Handler σ)} {args : List Value} {fault : Fault}
      {e₁ : Engine σ} (hread : Line.read e.services.types.types e.setup.marks text = .ok line)
      (hname : line.command ≠ "") (hfind : e.services.commands.find? line.command = some command)
      (hbind : command.signature.bind e.env line.args = .ok args)
      (hplay : Plays (command.handler args) (understood line e) (.error fault) e₁)
      (hfault : fault ≠ .cancelled) :
      LineFails text e (some (faultReason line.command fault)) e₁
  | answered {line : Line} {command : Command (Handler σ)} {args : List Value} {answer : Datum}
      {e₁ : Engine σ} (hread : Line.read e.services.types.types e.setup.marks text = .ok line)
      (hname : line.command ≠ "") (hfind : e.services.commands.find? line.command = some command)
      (hbind : command.signature.bind e.env line.args = .ok args)
      (hplay : Plays (command.handler args) (understood line e) (.ok answer) e₁)
      (hnothing : answer ≠ .nothing) (hzero : answer ≠ .whole 0) :
      LineFails text e (answerReason? line.command answer) e₁

theorem frame_of_plays {script : Script σ} {e e₁ : Engine σ} {outcome : Except Fault Datum}
    (h : Plays script e outcome e₁) (hbusy : e.busy = true) : e₁.frame = e.frame := by
  obtain ⟨fuel, h⟩ := h
  exact Process.Keeps.attempt (frame_playOut fuel script) hbusy h

theorem LineFails.frame {text : String} {e e₁ : Engine σ} {told : Option Reason}
    (h : LineFails text e told e₁) (hbusy : e.busy = true) : e₁.frame = e.frame := by
  cases h with
  | unreadable | unknown | unbound => rfl
  | raised _ _ _ _ hplay | answered _ _ _ _ hplay =>
    have hframe := frame_of_plays hplay hbusy
    exact hframe

/-! ## The code of a line that fails -/

/-- Notes the failure of a text and gives its code, unless the reason cannot be written. -/
def tell (told : Option Reason) (text : String) : Act σ Int :=
  match told with
  | some r => fail r text
  | none => throw (.ofConversion .unwritable)

theorem outcomeCode_fault {command text : String} {fault : Fault} (h : fault ≠ .cancelled)
    (e : Engine σ) :
    outcomeCode command text (.error fault) e =
      .ok (faultReason command fault).code (failing (faultReason command fault) text e) := by
  cases fault with
  | cancelled => exact absurd rfl h
  | _ => rfl

theorem outcomeCode_answer {command text : String} {answer : Datum} (hnothing : answer ≠ .nothing)
    (hzero : answer ≠ .whole 0) (e : Engine σ) :
    outcomeCode command text (.ok answer) e = tell (answerReason? command answer) text e := by
  by_cases hwhole : ∃ code, answer = .whole code
  · obtain ⟨code, rfl⟩ := hwhole
    have hcode : code ≠ 0 := fun h => hzero (by rw [h])
    simp only [outcomeCode, answerCode, if_neg hcode]
    rfl
  · have hwhole := not_exists.mp hwhole
    have htold : answerReason? command answer =
        if answer.isWritable then some (.answeredData command answer.quoted) else none := by
      cases answer with
      | whole code => exact absurd rfl (hwhole code)
      | _ => rfl
    show answerCode command text answer e = _
    rw [answerCode_eq hnothing hwhole, htold]
    cases answer.isWritable <;> rfl

theorem refuse_eq_tell (r : Reason) (text : String) (e : Engine σ) :
    refuse r text e = tell r.told? text e := by
  cases r <;> rfl

theorem answerReason?_eq_some {command : String} {answer : Datum} {r : Reason}
    (h : answerReason? command answer = some r) : r = answerReason command answer := by
  unfold answerReason? at h
  split at h
  · cases h
    rfl
  · split at h <;> cases h
    rfl

/-- The outcome of a handler is settled by what becomes of success, of the failure that it gives the line, and
of a fault that comes through. -/
theorem ensures_outcomeCode {P : Int → Engine σ → Prop} {F : Fault → Engine σ → Prop} {command text : String}
    {outcome : Except Fault Datum} {e : Engine σ} (hok : P 0 e)
    (hanswer : ∀ answer, outcome = .ok answer →
      P (answerReason command answer).code (failing (answerReason command answer) text e))
    (hfault : ∀ fault, outcome = .error fault → fault ≠ .cancelled →
      P (faultReason command fault).code (failing (faultReason command fault) text e))
    (hthrough : ∀ fault : Fault, fault.ComesThrough → F fault e) :
    (outcomeCode command text outcome).Ensures P F e := by
  unfold Act.Ensures
  cases outcome with
  | ok answer =>
    by_cases hnothing : answer = .nothing
    · subst hnothing
      exact hok
    · by_cases hzero : answer = .whole 0
      · subst hzero
        exact hok
      · rw [outcomeCode_answer hnothing hzero]
        cases htold : answerReason? command answer with
        | none => exact hthrough _ .unwritable
        | some r => exact answerReason?_eq_some htold ▸ hanswer answer rfl
  | error fault =>
    by_cases hcancelled : fault = .cancelled
    · subst hcancelled
      exact hthrough _ .cancelled
    · rw [outcomeCode_fault hcancelled]
      exact hfault fault rfl hcancelled

/-- What is left of a line behind its beginning. -/
theorem lineEnds_of_execute (fuel : Nat) {index : Nat} {text : String} {code₁ code : Int}
    {e e₁ e₂ : Engine σ} (hopen : openLine index text e = .ok code₁ e₁)
    (hexecute : (executeUnless (carryOut fuel) code₁).Ends e₁ (.ok code e₂))
    (hhooks : e₂.services.hooks = {}) :
    LineEnds index text e (closing index text code e₂) :=
  ⟨fuel, ends_bind.mpr (.inl ⟨code₁, e₁, ends_ofAct.mpr hopen, ends_bind.mpr (.inl
    ⟨code, e₂, hexecute, ends_ofAct.mpr (closeLine_of_unhooked hhooks index text code)⟩)⟩)⟩

/-- What a line that fails comes to before its end is reached: the reason is told. -/
theorem ends_opened_of_fails {index : Nat} {text : String} {e e₁ : Engine σ} {told : Option Reason}
    (hhooks : e.services.hooks = {}) (h : LineFails text (beginning index text e) told e₁) :
    ∃ fuel code₁ e₂, openLine index text e = .ok code₁ e₂ ∧
      (executeUnless (carryOut fuel) code₁).Ends e₂ (tell told text e₁) := by
  have hopen := openLine_of_unhooked hhooks index text
  -- A line that was read goes on with its execution, for which the fuel of its handler is enough.
  have hexecutes (fuel : Nat) {line : Line}
      (hline : Line.read e.services.types.types e.setup.marks text = .ok line)
      (hx : Executes (carryOut fuel) (understood line (beginning index text e)) (tell told text e₁)) :
      ∃ fuel code₁ e₂, openLine index text e = .ok code₁ e₂ ∧
        (executeUnless (carryOut fuel) code₁).Ends e₂ (tell told text e₁) := by
    refine ⟨fuel, 0, understood line (beginning index text e), ?_, ends_execute.mpr hx⟩
    rw [hopen, hline]
    rfl
  cases h with
  | @unreadable f hline =>
    refine ⟨0, f.reason.code, failing f.reason text (beginning index text e), ?_, ?_⟩
    · rw [hopen, show Line.read e.services.types.types e.setup.marks text = _ from hline]
      rfl
    -- With the code 0 the line is executed for all that, and holds no command.
    · by_cases hcode : f.reason.code = 0
      · rw [executeUnless, if_pos hcode, tell, fail_eq, hcode]
        exact ends_execute.mpr (.nothing rfl)
      · rw [executeUnless, if_neg hcode]
        exact ends_pure.mpr rfl
  | unknown hline hname hfind => exact hexecutes 0 hline (.unknown hname hfind)
  | unbound hline hname hfind hbind =>
    refine hexecutes 0 hline ?_
    rw [← refuse_eq_tell]
    exact .unbound hname hfind hbind
  | raised hline hname hfind hbind hplay hfault =>
    obtain ⟨fuel, hplay⟩ := hplay
    refine hexecutes fuel hline ?_
    rw [tell, fail_eq, ← outcomeCode_fault hfault]
    exact .called hname hfind hbind hplay
  | answered hline hname hfind hbind hplay hnothing hzero =>
    obtain ⟨fuel, hplay⟩ := hplay
    refine hexecutes fuel hline ?_
    rw [← outcomeCode_answer hnothing hzero]
    exact .called hname hfind hbind hplay

/-- **The code of a line that fails** is the code of its reason, and the failure is noted. -/
theorem lineEnds_of_fails {index : Nat} {text : String} {e e₁ : Engine σ} {reason : Reason}
    (hhooks : e.services.hooks = {}) (hbusy : e.busy = true)
    (h : LineFails text (beginning index text e) (some reason) e₁) :
    LineEnds index text e (closing index text reason.code (failing reason text e₁)) := by
  have hhooks₁ : e₁.services.hooks = {} := by
    rw [hooks_of_held (congrArg Prod.fst (h.frame hbusy)), hooks_of_held (held_beginning index text e)]
    exact hhooks
  obtain ⟨fuel, code₁, e₂, hopen, hexecute⟩ := ends_opened_of_fails hhooks h
  exact lineEnds_of_execute fuel hopen hexecute hhooks₁

/-- **A line that fails breaks the run off** if the reason cannot be written, or the variables that the trace
takes up cannot. -/
theorem lineEnds_of_untold {index : Nat} {text : String} {e e₁ : Engine σ} {told : Option Reason}
    (hhooks : e.services.hooks = {}) (hbusy : e.busy = true)
    (h : LineFails text (beginning index text e) told e₁) (huntold : told = none ∨ ¬e₁.Recordable) :
    ∃ e₂, LineEnds index text e (.error (.ofConversion .unwritable) e₂) := by
  cases told with
  | none =>
    obtain ⟨fuel, code₁, e₂, hopen, hexecute⟩ := ends_opened_of_fails hhooks h
    exact ⟨e₁, fuel, ends_bind.mpr
      (.inl ⟨code₁, e₂, ends_ofAct.mpr hopen, ends_bind.mpr (.inr ⟨_, e₁, hexecute, rfl⟩)⟩)⟩
  | some reason =>
    have hrecordable : ¬(failing reason text e₁).Recordable := huntold.resolve_left nofun
    have hline := lineEnds_of_fails hhooks hbusy h
    rw [closing_of_not_recordable hrecordable] at hline
    exact ⟨failing reason text e₁, hline⟩

/-! ## Which codes there are -/

theorem code_ne_zero_of_reading {r : Reason} (h : r.OfReading) : r.code ≠ 0 := by
  refine Reason.code_ne_zero (fun command hr => ?_) fun message column hr => ?_
  · rw [hr] at h
    exact h
  · rw [hr] at h
    exact h

/-- What the arguments of a line cannot be bound for is one of the reasons for that. -/
theorem ofBinding_of_bindFrom {s : Signature} {env : Environment} {given position : Nat}
    {params : List Parameter} {args : List Value} {r : Reason}
    (h : s.bindFrom env given position params args = .error r) : r.OfBinding := by
  cases Signature.refusal_of_bindFrom h with
  | dangles _ hdangles => cases hdangles <;> trivial
  | mismatch | tooMany | tooFew => trivial

theorem code_ne_zero_of_bindFrom {s : Signature} {env : Environment} {given position : Nat}
    {params : List Parameter} {args : List Value} {r : Reason}
    (h : s.bindFrom env given position params args = .error r) : r.code ≠ 0 := by
  have hbinding := ofBinding_of_bindFrom h
  refine Reason.code_ne_zero (fun command hr => ?_) fun message column hr => ?_
  · rw [hr] at hbinding
    exact hbinding
  · rw [hr] at hbinding
    exact hbinding

/-! ## The batch that a line fails in -/

/-- A line that fails, run by itself, returns the code of its reason, unless the host is told. -/
theorem carries_of_fails {e e₁ : Engine σ} {text : String} {reason : Reason} (hidle : e.busy = false)
    (hhooks : e.services.hooks = {}) (hdone : e.setup.onCompletion = none)
    (hfails : LineFails text (beginning 0 text (passing 0 (opened [text] (entered e)))) (some reason) e₁)
    (hrecordable : e₁.Recordable) (hcode : reason.code ≠ 0) :
    ∃ e₂, Carries (.runBatch [text]) e (.ok reason.code e₂) ∧
      e₂.progress.failure.map Failure.reason = some reason := by
  have hrecordable₁ : (failing reason text e₁).Recordable := hrecordable
  have hline := lineEnds_of_fails (e := passing 0 (opened [text] (entered e))) hhooks rfl hfails
  rw [closing_of_recordable hrecordable₁] at hline
  have hnext : nextLine? (opened [text] (entered e)).progress = some (0, text) := rfl
  have hstops := Stops.failed hnext hline hcode
  obtain ⟨hheld, -, hcarries⟩ := batch_of_stops hidle hhooks (.refl _) hstops
  have hsetup := congrArg Held.setup hheld
  have hdone₁ := (congrArg Setup.onCompletion hsetup).trans hdone
  refine ⟨_, (hcarries _).mpr (callBack_of_none hdone₁ reason.code).symm, ?_⟩
  show (closed 0 text reason.code (failing reason text e₁)).progress.failure.map Failure.reason = _
  rw [progress_closed]
  rfl

/-- A command that gives up, with a code of its own. -/
def giving (code : Int) : Command (Handler Unit) where
  signature := { name := "STOP", params := [] }
  handler := fun _ => .failWith (.thrown "stop" code none)

theorem lineFails_giving (code : Int) {e : Engine Unit} (htypes : e.services.types = ⟨Token.defaults⟩)
    (hmarks : e.setup.marks = {})
    (hcommands : e.services.commands = ({} : CommandRegistry (Handler Unit)).register (giving code)) :
    LineFails "STOP" e (some (.thrown "stop" code none)) (understood ⟨"STOP", []⟩ e) := by
  have hread : Line.read e.services.types.types e.setup.marks "STOP" = .ok ⟨"STOP", []⟩ := by
    rw [htypes, hmarks]
    rfl
  have hfind : e.services.commands.find? "STOP" = some (giving code) := by
    rw [hcommands, CommandRegistry.find?_register]
    exact if_pos rfl
  have hplay : Plays ((giving code).handler []) (understood ⟨"STOP", []⟩ e)
      (.error (.ofReason (.thrown "stop" code none))) (understood ⟨"STOP", []⟩ e) := ⟨0, rfl⟩
  have hbind : (giving code).signature.bind e.env [] = .ok [] := rfl
  exact .raised hread (by decide) hfind hbind hplay (by simp [Fault.ofReason])

end Engine

end CommandBatch
