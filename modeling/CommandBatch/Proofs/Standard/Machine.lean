import CommandBatch.Proofs.Run.Failing
import CommandBatch.Proofs.Run.Trace
import CommandBatch.Standard.Commands

/-!
# The reference machine

What a batch of standard commands means, without an engine: variables, and the index of the line to run
next.  A line reads the variables and either fails for a reason or has an `Effect`: the variables behind
it, what it writes, and where the batch goes on.  A `Path` is what the machine goes through: it starts
at an index, goes on as long as the index is that of a line, and stops with the code of the first line
that fails, or with 0.

The machine knows neither tasks nor waits, and no line can touch the batch or the registries.
-/

namespace CommandBatch

open Text Engine

namespace Standard

/-- Where a batch goes on behind a line. -/
inductive Flow where
  | next
  | jump (index : Int)
  | leave

/-- The index of the line to run next, behind the line of an index in a batch of some length. -/
def Flow.target (index length : Int) : Flow → Int
  | next => index + 1
  | jump goal => goal
  | leave => length

/-- What a line does that succeeds. -/
structure Effect where
  env : Environment
  output : List String := []
  flow : Flow := .next

/-- A step that may break off, as part of a command: what breaks it off is why the command fails. -/
def explained {α : Type} (command : String) : Except Fault α → Except Reason α :=
  Except.mapError (faultReason command)

/-- A datum that is taken for something else, as part of a command. -/
def converted {α : Type} (command : String) (x : Except ConversionError α) : Except Reason α :=
  explained command (x.mapError .ofConversion)

/-- What a standard command does with its arguments.  With a number of arguments that it cannot have
been given, it does nothing. -/
def effect (commands : OrderedMap Signature) (env : Environment) :
    String → List Value → Except Reason Effect
  | "PRINT", args => do
    let texts ← converted "PRINT" (args.mapM Value.format)
    return { env, output := [" ".intercalate texts] }
  | "SET", [target, value] => do
    let name ← converted "SET" target.datum.toText
    return { env := env.set name ⟨value.type, value.datum, none⟩ }
  | "DEL", [target] => do
    let name ← converted "DEL" target.datum.toText
    let env ← env.delete name
    return { env }
  | "GOTO", [target] => do
    let goal ← explained "GOTO" (wholeOf "GOTO" target)
    return { env, flow := .jump goal }
  | "WAIT", [seconds] => do
    let x ← converted "WAIT" seconds.datum.toFloat
    if x < 0.0 then (converted "WAIT" seconds.datum.toText).bind fun shown => .error (.negativeDelay "WAIT" shown)
    else return { env }
  | "HELP", [] => return { env, output := (commands.values.filter (·.listed)).map helpLine }
  | "HELP", name :: _ => do
    let shown ← converted "HELP" name.datum.toText
    match commands.get? (upper shown) with
    | none => .error (.noSuchCommand shown)
    | some s =>
      return { env, output := s.usage :: if s.description = "" then [] else ["  " ++ s.description] }
  | "EXIT", [] => return { env, flow := .leave }
  | "EXIT", code :: _ => do
    let n ← explained "EXIT" (wholeOf "EXIT" code)
    if n = 0 then return { env, flow := .leave } else .error (.answeredCode "EXIT" n)
  | "ASSERT", [value] => do
    let holds ← converted "ASSERT" value.datum.truth
    if holds then return { env } else (converted "ASSERT" value.toShown).bind fun shown => .error (.assertion shown)
  | "THROW", [] => .error (.thrown "" ErrorCode.thrownError.toInt none)
  | "THROW", message :: _ =>
    (converted "THROW" message.datum.toText).bind fun text =>
      .error (.thrown text ErrorCode.thrownError.toInt none)
  | _, _ => return { env }

/-- A command that succeeds leaves the variables alone, stores one of its arguments, or removes a variable.  Unless
it is `GOTO` or `EXIT`, the batch goes on with the next line. -/
theorem effect_cases {commands : OrderedMap Signature} {env : Environment} {name : String} {args : List Value}
    {eff : Effect} (h : effect commands env name args = .ok eff) :
    (eff.env = env ∨ (∃ v ∈ args, ∃ key, eff.env = env.set key ⟨v.type, v.datum, none⟩) ∨
        ∃ key, env.delete key = .ok eff.env) ∧
      (name ≠ "GOTO" → name ≠ "EXIT" → eff.flow = .next) := by
  unfold effect at h
  split at h
  · obtain ⟨texts, -, h⟩ := bind_eq_ok_iff.mp h
    cases h
    exact ⟨.inl rfl, fun _ _ => rfl⟩
  · obtain ⟨key, -, h⟩ := bind_eq_ok_iff.mp h
    cases h
    exact ⟨.inr (.inl ⟨_, by simp, key, rfl⟩), fun _ _ => rfl⟩
  · obtain ⟨key, -, h⟩ := bind_eq_ok_iff.mp h
    obtain ⟨env₁, hdelete, h⟩ := bind_eq_ok_iff.mp h
    cases h
    exact ⟨.inr (.inr ⟨key, hdelete⟩), fun _ _ => rfl⟩
  · obtain ⟨goal, -, h⟩ := bind_eq_ok_iff.mp h
    cases h
    exact ⟨.inl rfl, fun hgoto => absurd rfl hgoto⟩
  · obtain ⟨x, -, h⟩ := bind_eq_ok_iff.mp h
    split at h
    · obtain ⟨shown, -, h⟩ := bind_eq_ok_iff.mp h
      cases h
    · cases h
      exact ⟨.inl rfl, fun _ _ => rfl⟩
  · cases h
    exact ⟨.inl rfl, fun _ _ => rfl⟩
  · obtain ⟨shown, -, h⟩ := bind_eq_ok_iff.mp h
    split at h <;> cases h
    exact ⟨.inl rfl, fun _ _ => rfl⟩
  · cases h
    exact ⟨.inl rfl, fun _ hexit => absurd rfl hexit⟩
  · obtain ⟨n, -, h⟩ := bind_eq_ok_iff.mp h
    split at h <;> cases h
    exact ⟨.inl rfl, fun _ hexit => absurd rfl hexit⟩
  · obtain ⟨holds, -, h⟩ := bind_eq_ok_iff.mp h
    split at h
    · cases h
      exact ⟨.inl rfl, fun _ _ => rfl⟩
    · obtain ⟨shown, -, h⟩ := bind_eq_ok_iff.mp h
      cases h
  · cases h
  · obtain ⟨text, -, h⟩ := bind_eq_ok_iff.mp h
    cases h
  · cases h
    exact ⟨.inl rfl, fun _ _ => rfl⟩

/-- What the lines of a batch are read by. -/
structure Language where
  types : List TokenType
  marks : Marks
  commands : OrderedMap Signature

/-- What a line does. -/
def Language.run (l : Language) (env : Environment) (text : String) : Except Reason Effect :=
  match Line.read l.types l.marks text with
  | .error fault => .error (faultReason "" fault)
  | .ok line =>
    if line.command = "" then .ok { env }
    else
      match l.commands.get? (upper line.command) with
      | none => .error (.unknownCommand line.command)
      | some s => (s.bind env line.args).bind (effect l.commands env s.name)

/-- A line that succeeds is blank, or calls a command that does. -/
theorem Language.run_eq_ok {l : Language} {env : Environment} {text : String} {eff : Effect}
    (h : l.run env text = .ok eff) :
    ∃ line, Line.read l.types l.marks text = .ok line ∧
      (line.command = "" ∧ eff = { env } ∨
        ∃ s args, l.commands.get? (upper line.command) = some s ∧ s.bind env line.args = .ok args ∧
          effect l.commands env s.name args = .ok eff) := by
  unfold Language.run at h
  cases hread : Line.read l.types l.marks text with
  | error fault =>
    rw [hread] at h
    cases h
  | ok line =>
    rw [hread] at h
    refine ⟨line, rfl, ?_⟩
    dsimp only at h
    split at h
    · next hname =>
      cases h
      exact .inl ⟨hname, rfl⟩
    · cases hfound : l.commands.get? (upper line.command) with
      | none =>
        rw [hfound] at h
        cases h
      | some s =>
        rw [hfound] at h
        obtain ⟨args, hbind, heffect⟩ := bind_eq_ok_iff.mp h
        exact .inr ⟨s, args, rfl, hbind, heffect⟩

/-- The variables behind a line. -/
def Language.behind (l : Language) (env : Environment) (text : String) : Environment :=
  match l.run env text with
  | .ok eff => eff.env
  | .error _ => env

/-- What the machine goes through: from the variables and an index, the lines that it runs, the code
that it stops with, and the variables then. -/
inductive Path (l : Language) (lines : List String) :
    Environment → Int → List Visit → Int → Environment → Prop
  | stop {env : Environment} {index : Int} (houtside : ¬(0 ≤ index ∧ index < lines.length)) :
      Path l lines env index [] 0 env
  | fail {env : Environment} {index : Nat} {text : String} {reason : Reason}
      (htext : lines[index]? = some text) (hrun : l.run env text = .error reason) :
      Path l lines env index [⟨index, text, reason.code⟩] reason.code env
  | go {env env₁ : Environment} {index : Nat} {text : String} {eff : Effect} {visits : List Visit}
      {code : Int} (htext : lines[index]? = some text) (hrun : l.run env text = .ok eff)
      (hrest : Path l lines eff.env (eff.flow.target index lines.length) visits code env₁) :
      Path l lines env index (⟨index, text, 0⟩ :: visits) code env₁

/-- **Every line of a path but the last has the code 0**, and the machine stops with the code of the
last. -/
theorem Path.codes {l : Language} {lines : List String} {env env₁ : Environment} {index code : Int}
    {visits : List Visit} (h : Path l lines env index visits code env₁) :
    (∀ v ∈ visits.dropLast, v.code = 0) ∧ (visits.getLast?.map Visit.code).getD 0 = code := by
  induction h with
  | stop => exact ⟨nofun, rfl⟩
  | fail => exact ⟨nofun, rfl⟩
  | @go _ _ _ _ _ visits code _ _ _ ih =>
    cases visits with
    | nil => exact ⟨nofun, ih.2⟩
    | cons v visits =>
      rw [List.dropLast_cons_of_ne_nil (List.cons_ne_nil _ _), List.getLast?_cons_cons]
      exact ⟨List.forall_mem_cons.mpr ⟨rfl, ih.1⟩, ih.2⟩

end Standard

end CommandBatch
