import CommandBatch.Proofs.Standard.Machine

/-!
# The handlers of the standard commands

Each handler does to an engine what the machine says that its command does (`Handles`): it answers, with
the variables, the output and the cursor of the machine's effect, or it fails for the machine's reason
and has changed nothing but the cursor.  The scripts are played one request at a time.
-/

namespace CommandBatch

open Text Process

variable {σ : Type}

/-- The text that an entry of the transcript says was written to the output. -/
def Record.output? : Record → Option String
  | .output text => some text
  | _ => none

namespace Engine

/-- The texts that were written to the output, in order. -/
def outputs (e : Engine σ) : List String := e.transcript.toList.filterMap Record.output?

theorem outputs_record (e : Engine σ) (r : Record) :
    outputs { e with transcript := e.transcript.push r } = e.outputs ++ r.output?.toList := by
  simp only [outputs, Array.toList_push, List.filterMap_append]
  cases r <;> rfl

theorem outputs_push {e : Engine σ} {r : Record} (h : r.output? = none) :
    outputs { e with transcript := e.transcript.push r } = e.outputs := by
  rw [outputs_record, h, Option.toList_none, List.append_nil]

/-! ## Playing a script -/

/-- An outcome as an end. -/
def ending (e : Engine σ) : Except Fault Datum → EStateM.Result Fault (Engine σ) Datum
  | .ok answer => .ok answer e
  | .error fault => .error fault e

theorem plays_iff {script : Script σ} {e e₁ : Engine σ} {outcome : Except Fault Datum} :
    Plays script e outcome e₁ ↔ ∃ fuel, (playOut (carryOut fuel) script).Ends e (ending e₁ outcome) := by
  refine exists_congr fun fuel => ?_
  rw [ends_attempt]
  constructor
  · rintro (⟨answer, e₂, h, hr⟩ | ⟨fault, e₂, h, hr⟩) <;> cases hr <;> exact h
  · intro h
    cases outcome with
    | ok answer => exact .inl ⟨answer, e₁, h, rfl⟩
    | error fault => exact .inr ⟨fault, e₁, h, rfl⟩

theorem plays_done (answer : Datum) (e : Engine σ) : Plays (.done answer) e (.ok answer) e :=
  ⟨0, rfl⟩

theorem plays_raise (fault : Fault) (e : Engine σ) : Plays (.raise fault) e (.error fault) e :=
  ⟨0, rfl⟩

theorem plays_andThen {ed : Edit} {next : Script σ} {e e₁ e₂ : Engine σ}
    {outcome : Except Fault Datum} (hed : edit ed e = .ok () e₁) (h : Plays next e₁ outcome e₂) :
    Plays (.andThen ed next) e outcome e₂ := by
  obtain ⟨fuel, h⟩ := plays_iff.mp h
  refine plays_iff.mpr ⟨fuel, ends_bind.mpr (.inl ⟨.ok (), e₁, ?_, h⟩)⟩
  rw [ends_ofAct, attempt, hed]

theorem plays_andThen_error {ed : Edit} {next : Script σ} {fault : Fault} {e e₁ : Engine σ}
    (hed : edit ed e = .error fault e₁) : Plays (.andThen ed next) e (.error fault) e₁ := by
  refine plays_iff.mpr ⟨0, ends_bind.mpr (.inl ⟨.error fault, e₁, ?_, rfl⟩)⟩
  rw [ends_ofAct, attempt, hed]

theorem plays_wait {w : Wait} {next : Script σ} {e e₁ : Engine σ} {outcome : Except Fault Datum}
    (h : Plays next e outcome e₁) : Plays (.wait w next) e outcome e₁ := by
  obtain ⟨fuel, h⟩ := plays_iff.mp h
  exact plays_iff.mpr ⟨fuel, ends_bind.mpr (.inl ⟨(), e, ends_wait.mpr rfl, h⟩)⟩

/-- The engine with texts written to its output. -/
def writing (texts : List String) (e : Engine σ) : Engine σ :=
  { e with transcript := texts.foldl (fun t text => t.push (.output text)) e.transcript }

theorem outputs_writing (texts : List String) (e : Engine σ) :
    (writing texts e).outputs = e.outputs ++ texts := by
  induction texts generalizing e with
  | nil => exact (List.append_nil _).symm
  | cons text texts ih =>
    have h : (writing (text :: texts) e).outputs = (writing [text] e).outputs ++ texts :=
      ih (writing [text] e)
    rw [h]
    simp [writing, outputs, Record.output?]

theorem plays_edits (texts : List String) (e : Engine σ) :
    Plays (.edits (texts.map .output) .silent) e (.ok .nothing) (writing texts e) := by
  induction texts generalizing e with
  | nil => exact plays_done _ e
  | cons text texts ih => exact plays_andThen rfl (ih (writing [text] e))

end Engine

namespace Standard

open Engine

/-- The cursor at which a batch goes on. -/
def Flow.cursor (p : Progress) : Flow → Int
  | next => p.cursor
  | jump goal => goal
  | leave => p.batch.length

/-- The engine on which an effect has taken place. -/
def Effect.applied (eff : Effect) (e : Engine σ) : Engine σ :=
  { e with
    env := eff.env
    transcript := eff.output.foldl (fun t text => t.push (.output text)) e.transcript
    progress := { e.progress with cursor := eff.flow.cursor e.progress } }

theorem Effect.outputs_applied (eff : Effect) (e : Engine σ) :
    (eff.applied e).outputs = e.outputs ++ eff.output :=
  outputs_writing eff.output e

/-- The engine with its cursor at another line. -/
def moved (cursor : Int) (e : Engine σ) : Engine σ :=
  { e with progress := { e.progress with cursor } }

/-- Where the batch would go on behind a command that fails: `EXIT` has left it by then. -/
def failedFlow (name : String) : Flow := if name = "EXIT" then .leave else .next

/-- Where the handler of a command breaks off with this fault, the line fails, with a code. -/
def Fails (name : String) (fault : Fault) : Prop :=
  fault ≠ .cancelled ∧ (faultReason name fault).code ≠ 0

/-- What a script has come to on an engine is what the machine says of its command. -/
inductive Agrees (name : String) (e : Engine σ) :
    Except Reason Effect → Except Fault Datum → Engine σ → Prop
  | done (eff : Effect) {answer : Datum} (hanswer : answer = .nothing ∨ answer = .whole 0) :
      Agrees name e (.ok eff) (.ok answer) (eff.applied e)
  | raised {fault : Fault} (hfault : Fails name fault) :
      Agrees name e (.error (faultReason name fault)) (.error fault)
        (moved ((failedFlow name).cursor e.progress) e)
  | answered {code : Int} (hcode : code ≠ 0) :
      Agrees name e (.error (.answeredCode name code)) (.ok (.whole code))
        (moved ((failedFlow name).cursor e.progress) e)

/-- A script does what the machine says. -/
def Does (name : String) (script : Script σ) (e : Engine σ) (meaning : Except Reason Effect) : Prop :=
  ∃ outcome e₁, Plays script e outcome e₁ ∧ Agrees name e meaning outcome e₁

/-- A handler does what the machine says of its command. -/
def Handles (name : String) (handler : Handler σ) : Prop :=
  ∀ (args : List Value) (e : Engine σ),
    Does name (handler args) e (effect e.services.commands.signatures e.env name args)

/-! ## Parts of handlers -/

section Parts

variable {α : Type} {name : String} {e : Engine σ}

theorem does_silent : Does name .silent e (.ok { env := e.env }) :=
  ⟨_, _, plays_done _ e, .done { env := e.env } (.inl rfl)⟩

/-- A command other than `EXIT` that breaks off has left the cursor alone. -/
theorem agrees_raised {fault : Fault} (hflow : failedFlow name = .next) (hfault : Fails name fault) :
    Agrees name e (.error (faultReason name fault)) (.error fault) e := by
  have hagrees : Agrees name e _ _ _ := .raised hfault
  rw [hflow] at hagrees
  exact hagrees

theorem does_raise {fault : Fault} (hflow : failedFlow name = .next) (hfault : Fails name fault) :
    Does name (.raise fault) e (.error (faultReason name fault)) :=
  ⟨_, _, plays_raise fault e, agrees_raised hflow hfault⟩

theorem fails_ofReason {reason : Reason} (hcode : reason.code ≠ 0) : Fails name (.ofReason reason) :=
  ⟨nofun, hcode⟩

theorem does_failWith {reason : Reason} (hflow : failedFlow name = .next) (hcode : reason.code ≠ 0) :
    Does name (.failWith reason) e (.error reason) :=
  does_raise hflow (fails_ofReason hcode)

theorem fails_conversion (name : String) (error : ConversionError) :
    Fails name (.ofConversion error) :=
  ⟨nofun, Reason.code_ne_zero nofun nofun⟩

theorem code_ne_zero_of_unknown (name : String) : (Reason.noSuchCommand name).code ≠ 0 :=
  Reason.code_ne_zero nofun nofun

theorem does_look {next : View → Script σ} {meaning : Except Reason Effect}
    (h : Does name (next e.view) e meaning) : Does name (.look next) e meaning := h

theorem does_orRaise {x : Except Fault α} {next : α → Script σ} {f : α → Except Reason Effect}
    (hflow : failedFlow name = .next) (hfault : ∀ fault, x = .error fault → Fails name fault)
    (hnext : ∀ a, Does name (next a) e (f a)) :
    Does name (.orRaise next x) e (explained name x >>= f) := by
  cases x with
  | ok a => exact hnext a
  | error fault => exact does_raise hflow (hfault fault rfl)

theorem does_converted {x : Except ConversionError α} {next : α → Script σ}
    {f : α → Except Reason Effect} (hflow : failedFlow name = .next)
    (hnext : ∀ a, Does name (next a) e (f a)) :
    Does name (.converted x next) e (converted name x >>= f) := by
  refine does_orRaise hflow (fun fault h => ?_) hnext
  cases x <;> cases h
  exact fails_conversion name _

theorem fails_wholeOf {value : Value} (fault : Fault) (h : wholeOf name value = .error fault) :
    Fails name fault := by
  unfold wholeOf at h
  split at h
  · split at h
    · cases h
    · cases h
      exact fails_ofReason (Reason.code_ne_zero nofun nofun)
  · cases hwhole : value.datum.toWhole <;> rw [hwhole] at h <;> cases h
    exact fails_conversion name _

end Parts

/-! ## The commands -/

theorem handles_print : Handles "PRINT" (print : Handler σ) := by
  intro args e
  exact does_converted rfl fun texts => ⟨_, _, plays_andThen rfl (plays_done _ _),
    .done { env := e.env, output := [" ".intercalate texts] } (.inl rfl)⟩

theorem handles_set : Handles "SET" (set : Handler σ) := by
  intro args e
  match args with
  | [target, value] =>
    exact does_converted rfl fun name => ⟨_, _, plays_andThen rfl (plays_done _ _), .done
      { env := e.env.set name ⟨value.type, value.datum, none⟩ } (.inl rfl)⟩
  | [] | [_] | _ :: _ :: _ :: _ => exact does_silent

/-- Only a variable without a value cannot be removed. -/
theorem eq_of_delete {env : Environment} {name : String} {reason : Reason}
    (h : env.delete name = .error reason) : reason = .cannotDelete name := by
  unfold Environment.delete at h
  split at h <;> cases h
  rfl

theorem fails_delete {command : String} {env : Environment} {name : String} {reason : Reason}
    (h : env.delete name = .error reason) : Fails command (.ofReason reason) :=
  eq_of_delete h ▸ fails_ofReason (Reason.code_ne_zero nofun nofun)

theorem handles_delete : Handles "DEL" (delete : Handler σ) := by
  intro args e
  match args with
  | [target] =>
    refine does_converted rfl fun name => ?_
    show Does "DEL" _ e (e.env.delete name >>= fun env => pure { env })
    cases h : e.env.delete name with
    | ok env =>
      have hedit : edit (.deleteVariable name) e = .ok () { e with env } := by
        simp [edit, deleteVariable, orThrow, h]
      exact ⟨_, _, plays_andThen hedit (plays_done _ _), .done { env } (.inl rfl)⟩
    | error reason =>
      have hedit : edit (.deleteVariable name) e = .error (.ofReason reason) e := by
        simp [edit, deleteVariable, orThrow, h]
      exact ⟨_, _, plays_andThen_error hedit, agrees_raised rfl (fails_delete h)⟩
  | [] | _ :: _ :: _ => exact does_silent

theorem handles_goto : Handles "GOTO" (goto : Handler σ) := by
  intro args e
  match args with
  | [target] =>
    exact does_orRaise rfl fails_wholeOf fun goal => ⟨_, _, plays_andThen rfl (plays_done _ _),
      .done { env := e.env, flow := .jump goal } (.inl rfl)⟩
  | [] | _ :: _ :: _ => exact does_silent

theorem handles_wait : Handles "WAIT" (wait : Handler σ) := by
  intro args e
  match args with
  | [seconds] =>
    refine does_converted rfl fun x => ?_
    by_cases hx : x < 0.0
    · rw [if_pos hx, if_pos hx]
      exact does_converted rfl fun shown => does_failWith rfl (Reason.code_ne_zero nofun nofun)
    · rw [if_neg hx, if_neg hx]
      exact ⟨_, _, plays_wait (plays_done _ e), .done { env := e.env } (.inl rfl)⟩
  | [] | _ :: _ :: _ => exact does_silent

theorem handles_assert : Handles "ASSERT" (assert : Handler σ) := by
  intro args e
  match args with
  | [value] =>
    refine does_converted rfl fun holds => ?_
    cases holds with
    | true => exact does_silent
    | false => exact does_converted rfl fun shown => does_failWith rfl (Reason.code_ne_zero nofun nofun)
  | [] | _ :: _ :: _ => exact does_silent

theorem handles_throw : Handles "THROW" (throw : Handler σ) := by
  intro args e
  have hcode (text : String) : (Reason.thrown text ErrorCode.thrownError.toInt none).code ≠ 0 := by
    simp [Reason.code, ErrorCode.toInt]
  cases args with
  | nil => exact does_failWith rfl (hcode "")
  | cons _ _ => exact does_converted rfl fun text => does_failWith rfl (hcode text)

/-- A handler that writes texts to the output. -/
theorem does_edits (texts : List String) (name : String) (e : Engine σ) :
    Does name (.edits (texts.map .output) .silent) e (.ok { env := e.env, output := texts }) :=
  ⟨_, _, plays_edits texts e, .done { env := e.env, output := texts } (.inl rfl)⟩

theorem handles_help : Handles "HELP" (help : Handler σ) := by
  intro args e
  match args with
  | [] =>
    have hlines (signatures : List Signature) :
        (signatures.filterMap fun s => if s.listed then some (Edit.output (helpLine s)) else none) =
          ((signatures.filter (·.listed)).map helpLine).map .output := by
      induction signatures with
      | nil => rfl
      | cons s signatures ih => cases hs : s.listed <;> simp [hs, ih]
    have h := does_edits ((e.view.commands.values.filter (·.listed)).map helpLine) "HELP" e
    rw [← hlines] at h
    exact h
  | name :: _ =>
    have hview : e.view.commands = e.services.commands.signatures := rfl
    refine does_look (does_converted rfl fun shown => ?_)
    simp only [hview]
    cases e.services.commands.signatures.get? (upper shown) with
    | none => exact does_failWith rfl (code_ne_zero_of_unknown _)
    | some s =>
      by_cases hs : s.description = ""
      · simp only [if_pos hs]
        exact does_edits [s.usage] "HELP" e
      · simp only [if_neg hs]
        exact does_edits [s.usage, "  " ++ s.description] "HELP" e

theorem handles_exit : Handles "EXIT" (exit : Handler σ) := by
  intro args e
  match args with
  | [] =>
    exact ⟨_, _, plays_andThen rfl (plays_done _ _),
      .done { env := e.env, flow := .leave } (.inr rfl)⟩
  | code :: rest =>
    have hleave {outcome : Except Fault Datum} {e₁ : Engine σ}
        (h : Plays (.orRaise (fun n => .done (.whole n)) (wholeOf "EXIT" code))
          (moved e.progress.batch.length e) outcome e₁) :
        Plays (exit (code :: rest)) e outcome e₁ :=
      plays_andThen rfl h
    show Does "EXIT" _ e (explained "EXIT" (wholeOf "EXIT" code) >>= _)
    cases hn : wholeOf "EXIT" code with
    | ok n =>
      rw [hn] at hleave
      show Does "EXIT" _ e (if n = 0 then _ else _)
      by_cases hzero : n = 0
      · rw [if_pos hzero]
        exact ⟨_, _, hleave (plays_done _ _),
          .done { env := e.env, flow := .leave } (.inr (by rw [hzero]))⟩
      · rw [if_neg hzero]
        exact ⟨_, _, hleave (plays_done _ _), .answered hzero⟩
    | error fault =>
      rw [hn] at hleave
      exact ⟨_, _, hleave (plays_raise _ _), .raised (fails_wholeOf fault hn)⟩

end Standard

end CommandBatch
