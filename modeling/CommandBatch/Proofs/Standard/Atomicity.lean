import CommandBatch.Proofs.Command.Binding
import CommandBatch.Proofs.Environment.Names
import CommandBatch.Proofs.Standard.Typing

/-!
# Lines are atomic on the variables

On an engine with no other commands than those of the language, a line that fails leaves the variables as they
were: the same keys in the same order with the same values.  A line that succeeds changes at most the variable
that its first argument names, which its command then has set or removed (`Settles`), and commands other than
`SET`, `TSUM`, `TSHAPE`, `TDOT` and `DEL` change none.  A line that is refused before its command is called
leaves everything but the record of that failure as it was (`lines_are_atomic`).

The handlers that set a variable do that as the last thing they do, and what they break off with fails their
line (`Stores`).  All others ask only for output and for jumps.
-/

namespace CommandBatch

variable {σ : Type}

/-- A line that is refused has a code other than 0. -/
theorem Engine.Refuses.code_ne_zero {e : Engine σ} {r : Reason} (h : e.Refuses r) : r.code ≠ 0 := by
  cases h with
  | unknown => exact Reason.code_ne_zero nofun nofun
  | unbound _ _ hbind => exact code_ne_zero_of_bindFrom hbind

namespace Standard

open Engine Process Run Script Signature

/-- What a line of this command with these arguments makes of the variables if it succeeds. -/
inductive Settles (command : String) (args : List Value) (env : Environment) : Environment → Prop
  | stored {env₁ : Environment} {target : Value} {rest : List Value} (hcommand : command ∈ setters)
      (hargs : args = target :: rest) (hsame : env.SameBut target.datum.plain env₁)
      (hbound : env₁.has target.datum.plain = true) : Settles command args env env₁
  | removed {env₁ : Environment} {target : Value} {rest : List Value} (hcommand : command = "DEL")
      (hargs : args = target :: rest) (hsame : env.SameBut target.datum.plain env₁)
      (hbefore : env.has target.datum.plain = true) (hafter : env₁.has target.datum.plain = false) :
      Settles command args env env₁
  | kept (hcommand : command ∉ "DEL" :: setters) : Settles command args env env

/-- Under each name no other command is found than the one of the language with this name. -/
def Confined (r : CommandRegistry (Handler σ)) : Prop :=
  ∀ name c, r.find? name = some c →
    c ∈ commands ++ Tensors.commands ∧ c.signature.name = Text.upper name

/-! ## Handlers that set a variable -/

/-- The script sets the variable and is done, or breaks off with a fault that fails its line. -/
inductive Stores (command name : String) : Script σ → Prop
  | stored (type : String) (datum : Datum) :
      Stores command name (.andThen (.setVariable name type datum) .silent)
  | raised {fault : Fault} (h : Fails command fault) : Stores command name (.raise fault)

section Stores
variable {command : String} {target : Value}

theorem stores_withTensor {datum : Datum} {member : String} {next : Tensor → Script σ}
    (h : ∀ t, Stores command target.datum.plain (next t)) :
    Stores command target.datum.plain (Tensors.withTensor datum member next) := by
  unfold Tensors.withTensor
  split
  · exact h _
  · exact .raised ⟨nofun, Reason.code_ne_zero nofun nofun⟩

/-- What goes on with the name of a variable is done with the name that is its text, or not at all. -/
theorem stores_toText {next : String → Script σ}
    (h : Stores command target.datum.plain (next target.datum.plain)) :
    Stores command target.datum.plain (Script.converted target.datum.toText next) := by
  cases htext : target.datum.toText with
  | ok name =>
    obtain ⟨-, rfl⟩ := Datum.toText_eq_ok_iff.mp htext
    exact h
  | error error => exact .raised (fails_conversion command error)

theorem stores_set (value : Value) : Stores command target.datum.plain (set [target, value] : Script σ) :=
  stores_toText (.stored _ _)

theorem stores_sum (tensor : Value) :
    Stores command target.datum.plain (Tensors.sum [target, tensor] : Script σ) := by
  refine stores_toText ?_
  split
  · exact .stored _ _
  · cases hx : tensor.datum.toFloat with
    | ok x => exact .stored _ _
    | error error => exact .raised (fails_conversion command error)

theorem stores_shape (tensor : Value) :
    Stores command target.datum.plain (Tensors.shape [target, tensor] : Script σ) :=
  stores_withTensor fun _ => stores_toText (.stored _ _)

theorem stores_dot (left right : Value) :
    Stores command target.datum.plain (Tensors.dot [target, left, right] : Script σ) := by
  refine stores_withTensor fun a => stores_withTensor fun b => ?_
  split
  · exact .raised ⟨nofun, Reason.code_ne_zero nofun nofun⟩
  · exact stores_toText (.stored _ _)
  · exact stores_toText (.stored _ _)

end Stores

/-- Where every argument is required and the first has to be a reference, that is bound as it is. -/
theorem target_of_bindFrom {s : Signature} {env : Environment} {given : Nat} {ps : List Parameter}
    {args vs : List Value} (hps : ∀ p ∈ ps, p.optional = false)
    (h : s.bindFrom env given 1 (required [TypeName.reference] :: ps) args = .ok vs) :
    ∃ target rest rest₁, args = target :: rest ∧ vs = target :: rest₁ ∧ rest₁.length = ps.length := by
  have htrail : Parameter.OptionalsTrail (required [TypeName.reference] :: ps) := by
    refine List.pairwise_of_forall_mem_list fun p hp q _ hoptional => ?_
    rcases List.mem_cons.mp hp with rfl | hp
    · cases hoptional
    · rw [hps p hp] at hoptional
      cases hoptional
  cases args with
  | nil => cases h
  | cons arg args =>
    obtain ⟨v, rest, ⟨hv, -⟩, hrest, rfl⟩ := (bound_cons_iff htrail).mp ((bindFrom_eq_ok_iff htrail).mp h)
    have hall : Parameter.required ps = ps.length :=
      List.countP_eq_length.mpr fun p hp => by simp [hps p hp]
    have hlength : rest.length = ps.length :=
      hrest.length_eq.trans (Nat.le_antisymm hrest.few (hall ▸ hrest.enough))
    cases hv with
    | itself => exact ⟨arg, args, rest, rfl, rfl, hlength⟩
    | stored _ hasks => exact absurd hasks (by decide)

/-! ## Lines -/

section Lines
variable {others : Engine σ → Engine σ → Prop} {go : Task → Process σ Int} {e : Engine σ}

/-- What a line leaves behind that ends with a code. -/
def Leaves (e : Engine σ) (code : Int) (e₁ : Engine σ) : Prop :=
  if code = 0 then Settles (Text.upper e.progress.command) e.progress.args e.env e₁.env else e₁.env = e.env

/-- What a line leaves behind that breaks off. -/
def Breaks (e : Engine σ) (fault : Fault) (e₁ : Engine σ) : Prop :=
  fault.ComesThrough ∧ e₁.env = e.env

/-- However the script ends that the line at hand has called, the line leaves the variables as it should. -/
def Atomic (others : Engine σ → Engine σ → Prop) (go : Task → Process σ Int) (e : Engine σ)
    (script : Script σ) : Prop :=
  (playOut go script e).Ensures others (fun _ => True)
    (fun answer => (outcomeCode e.progress.command e.progress.text (.ok answer)).Ensures (Leaves e) (Breaks e))
    fun fault => (outcomeCode e.progress.command e.progress.text (.error fault)).Ensures (Leaves e) (Breaks e)

theorem leaves_of_code {code : Int} {e₁ : Engine σ} (hcode : code ≠ 0) (henv : e₁.env = e.env) :
    Leaves e code e₁ := by
  rw [Leaves, if_neg hcode]
  exact henv

/-- A fault that fails its line leaves the variables as they were. -/
theorem ensures_outcomeCode_of_fails {command text : String} {fault : Fault} {e₁ : Engine σ}
    (h : Fails command fault) (henv : e₁.env = e.env) :
    (outcomeCode command text (.error fault)).Ensures (Leaves e) (Breaks e) e₁ := by
  unfold Act.Ensures
  rw [outcomeCode_fault h.1]
  exact leaves_of_code h.2 henv

/-- Requests for output and jumps leave the variables alone. -/
theorem env_withstands (env : Environment) :
    Withstands Request.Plain fun e : Engine σ => e.env = env where
  host _ _ h := h
  edit ed hed := preserves_edit fun e e₁ h hedited => by
    cases hedited with
    | refused | output | noted | moved | typed => exact h
    | set | deleted => exact hed.elim
  registerCommand _ _ hed := hed.elim
  interpret _ hed := hed.elim

/-- A handler that asks only for output and jumps leaves the variables alone, however it ends. -/
theorem atomic_plain (hothers : ∀ e e₁ : Engine σ, others e e₁ → e₁.env = e.env) {script : Script σ}
    (hplain : script.Asks Request.Plain) (hname : Text.upper e.progress.command ∉ "DEL" :: setters) :
    Atomic others go e script := by
  have hplay : (playOut go script e).Ensures others (fun e₁ => e₁.env = e.env) (fun _ e₁ => e₁.env = e.env)
      fun _ e₁ => e₁.env = e.env :=
    (env_withstands e.env).playOut (fun e₁ e₂ h hmet => (hothers e₁ e₂ hmet).trans h)
      (fun _ hawait => hawait.elim) script hplain e rfl
  have hend (outcome : Except Fault Datum) (e₁ : Engine σ) (h : e₁.env = e.env) :
      (outcomeCode e.progress.command e.progress.text outcome).Ensures (Leaves e) (Breaks e) e₁ := by
    have hleaves (code : Int) (e₂ : Engine σ) (h₂ : e₂.env = e.env) : Leaves e code e₂ := by
      unfold Leaves
      split
      · exact h₂ ▸ .kept hname
      · exact h₂
    unfold Act.Ensures
    rcases outcomeCode_cases e.progress.command e.progress.text outcome e₁ with
      hr | ⟨r, hr⟩ | ⟨fault, hfault, hr⟩ <;> rw [hr]
    · exact hleaves 0 e₁ h
    · exact hleaves r.code _ h
    · exact ⟨hfault, h⟩
  exact hplay.mono (fun _ _ => trivial) (fun answer => hend (.ok answer)) fun fault => hend (.error fault)

/-- A handler that stores a value has set the variable if its line succeeds. -/
theorem atomic_stores {target : Value} {rest : List Value} {script : Script σ}
    (h : Stores e.progress.command target.datum.plain script) (hargs : e.progress.args = target :: rest)
    (hname : Text.upper e.progress.command ∈ setters) :
    Atomic others go e script := by
  cases h with
  | stored type datum =>
    exact .ok (.stored hname hargs (Environment.sameBut_set ..) (Environment.has_set ..))
  | raised hfails => exact .error (ensures_outcomeCode_of_fails hfails rfl)

/-- `DEL` has removed the variable if its line succeeds. -/
theorem atomic_delete {target : Value} {rest : List Value} (hargs : e.progress.args = target :: rest)
    (hname : Text.upper e.progress.command = "DEL") :
    Atomic others go e (delete [target]) := by
  show Atomic others go e (Script.converted target.datum.toText fun name =>
    Script.andThen (.deleteVariable name) .silent)
  cases htext : target.datum.toText with
  | error error =>
    have hfails : Fails e.progress.command (.ofConversion error) := fails_conversion _ error
    exact .error (ensures_outcomeCode_of_fails hfails rfl)
  | ok name =>
  obtain ⟨-, rfl⟩ := Datum.toText_eq_ok_iff.mp htext
  refine ensures_bind (ensures_ofAct ?_)
  unfold Act.Ensures Engine.attempt
  cases h : e.env.delete target.datum.plain with
  | ok env =>
    have hedit : Engine.edit (.deleteVariable target.datum.plain) e = .ok () { e with env } := by
      simp [Engine.edit, deleteVariable, orThrow, h]
    obtain ⟨hsame, hbefore, hafter⟩ := Environment.of_delete h
    rw [hedit]
    exact .ok (.removed hname hargs hsame hbefore hafter)
  | error reason =>
    have hedit : Engine.edit (.deleteVariable target.datum.plain) e = .error (.ofReason reason) e := by
      simp [Engine.edit, deleteVariable, orThrow, h]
    have hfails : Fails e.progress.command (.ofReason reason) := fails_delete h
    rw [hedit]
    exact .error (ensures_outcomeCode_of_fails hfails rfl)

/-- **Every command of the language is atomic.** -/
theorem atomic_of_bind (he : Confined e.services.commands)
    (hothers : ∀ e e₁ : Engine σ, others e e₁ → e₁.env = e.env) {c : Command (Handler σ)} {args : List Value}
    (hfind : e.services.commands.find? e.progress.command = some c)
    (hbind : c.signature.bind e.env e.progress.args = .ok args) :
    Atomic others go e (c.handler args) := by
  obtain ⟨hmem, hname⟩ := he _ c hfind
  rcases plain_or_writes hmem with ⟨hplain, hasks⟩ | hwrites
  · exact atomic_plain hothers (hasks args) (hname ▸ hplain)
  have hbind : c.signature.bindFrom e.env e.progress.args.length 1 c.signature.params e.progress.args =
    .ok args := hbind
  -- `Writes` is a family over the parts of the command, so each part is made a variable before the cases.
  generalize c.signature.name = name, c.signature.params = ps, c.handler = handler at hwrites hname hbind
  cases hwrites with
  | set =>
    obtain ⟨target, rest, vs, hargs, rfl, hlength⟩ := target_of_bindFrom (by decide) hbind
    obtain ⟨value, rfl⟩ := List.length_eq_one_iff.mp hlength
    exact atomic_stores (stores_set value) hargs (hname ▸ by decide)
  | delete =>
    obtain ⟨target, rest, vs, hargs, rfl, hlength⟩ := target_of_bindFrom (by decide) hbind
    obtain rfl := List.length_eq_zero_iff.mp hlength
    exact atomic_delete hargs hname.symm
  | sum =>
    obtain ⟨target, rest, vs, hargs, rfl, hlength⟩ := target_of_bindFrom (by decide) hbind
    obtain ⟨tensor, rfl⟩ := List.length_eq_one_iff.mp hlength
    exact atomic_stores (stores_sum tensor) hargs (hname ▸ by decide)
  | shape =>
    obtain ⟨target, rest, vs, hargs, rfl, hlength⟩ := target_of_bindFrom (by decide) hbind
    obtain ⟨tensor, rfl⟩ := List.length_eq_one_iff.mp hlength
    exact atomic_stores (stores_shape tensor) hargs (hname ▸ by decide)
  | dot =>
    obtain ⟨target, rest, vs, hargs, rfl, hlength⟩ := target_of_bindFrom (by decide) hbind
    obtain ⟨left, right, rfl⟩ := List.length_eq_two.mp hlength
    exact atomic_stores (stores_dot left right) hargs (hname ▸ by decide)

end Lines

/-! ## Engines -/

theorem Confined.register {r : CommandRegistry (Handler σ)} (h : Confined r)
    {cs : List (Command (Handler σ))} (hcs : ∀ c ∈ cs, c ∈ commands ++ Tensors.commands) :
    Confined (cs.foldl (·.register ·) r) := by
  -- The names are the same for every host, so they are evaluated for one without a state.
  have hupper : ∀ name ∈ (commands ++ Tensors.commands : List (Command (Handler Unit))).map
      (·.signature.name), Text.upper name = name := by decide +kernel
  intro name c hfind
  rcases CommandRegistry.find?_foldl_register hfind with ⟨hmem, hname⟩ | hfind
  · have hc : c.signature.name ∈ (commands ++ Tensors.commands : List (Command (Handler σ))).map
        (·.signature.name) := List.mem_map_of_mem (f := fun c => c.signature.name) (hcs c hmem)
    exact ⟨hcs c hmem, by rw [hname, hupper _ hc]⟩
  · exact h name c hfind

/-- Standard commands may be installed at any time. -/
theorem Confined.install {e : Engine σ} (h : Confined e.services.commands) :
    Confined (install e).services.commands :=
  h.register fun _ => List.mem_append_left _

/-- The extension for arrays may be loaded at any time. -/
theorem Confined.extend {owner : String} {s services : Services σ} (h : Confined s.commands)
    (hservices : s.registerAll owner Tensors.registrations = .ok services) :
    Confined services.commands := by
  rw [registerAll_tensors] at hservices
  cases hservices
  exact h.register fun _ => List.mem_append_right _

theorem Confined.new {setup : Setup σ} {services : Services σ} {host : σ} {e : Engine σ}
    (h : Confined services.commands) (hnew : Engine.new setup services host = .ok e) :
    Confined e.services.commands := by
  unfold Engine.new at hnew
  split at hnew
  · cases hnew
  · cases hnew
    exact h

theorem confined_standard : Confined (Services.standard : Services σ).commands := nofun

/-- An argument of a line that has been read has a name that can be written. -/
theorem not_refuses_nameless {e e₁ : Engine σ}
    (htypes : ∀ type ∈ e.services.types.types, type ∈ Token.tensor :: Token.defaults) {text : String}
    (h : interpret text e = .ok 0 e₁) : ¬e₁.Refuses .nameless := by
  intro hrefuses
  rw [interpret_eq] at h
  cases hread : Line.read e.services.types.types e.setup.marks text with
  | error fault =>
    rw [hread] at h
    cases fault with
    | failure f =>
      injection h with _ he
      cases hrefuses with
      | unbound hname => exact hname (he ▸ rfl)
    | _ => cases h
  | ok line =>
    rw [hread] at h
    cases h
    cases hrefuses with
    | unbound _ _ hbind => exact ne_nameless_of_bind (Line.isWritable_of_read htypes hread) hbind rfl

/-- **Lines are atomic on the variables** of an engine with commands of the language only.  Interpreting a line
changes nothing but the state of the run, and of that neither the batch nor the cursor; a line that cannot be
read is not executed.  A line that is executed and ends with a code other than 0 leaves the variables as they
were, and so does one that breaks off, if others leave them alone in its waits.  With the code 0 they differ
at most in the variable that its first argument names: `SET`, `TSUM`, `TSHAPE` and `TDOT` have set it, `DEL` has
removed it, and any other line has left it alone.  A line that is refused for its command or its arguments ends
at once, with nothing done to the engine but the failure noted; it breaks off where the refusal cannot be
written, which the arguments of no line that has been read with the types of the language lead to. -/
theorem lines_are_atomic {e : Engine σ} (he : Confined e.services.commands)
    {others : Engine σ → Engine σ → Prop} (hothers : ∀ e e₁, others e e₁ → e₁.env = e.env)
    (go : Task → Process σ Int) :
    (∀ text,
      let e₁ := engineOf (interpret text e)
      e₁ = { e with progress := e₁.progress } ∧
        e₁.progress.batch = e.progress.batch ∧ e₁.progress.cursor = e.progress.cursor) ∧
    (∀ text code e₁, interpret text e = .ok code e₁ → code ≠ 0 →
      (do let code ← ofAct (interpret text); executeUnless go code : Process σ Int) e =
        .ended (.ok code e₁)) ∧
    (∀ code e₁, (execute go e).EndsAmid others (.ok code e₁) →
      if code = 0 then Settles (Text.upper e.progress.command) e.progress.args e.env e₁.env
      else e₁.env = e.env) ∧
    (∀ fault e₁, (execute go e).EndsAmid others (.error fault e₁) →
      fault.ComesThrough ∧ e₁.env = e.env) ∧
    (∀ r, e.Refuses r →
      r.code ≠ 0 ∧
        (r ≠ .nameless → execute go e = .ended (.ok r.code (failing r e.progress.text e))) ∧
        (r = .nameless → execute go e = .ended (.error (.ofConversion .unwritable) e))) ∧
    ((∀ type ∈ e.services.types.types, type ∈ Token.tensor :: Token.defaults) →
      ∀ text e₁, interpret text e = .ok 0 e₁ → ¬e₁.Refuses .nameless) := by
  have hexecute : (execute go e).Ensures others (fun _ => True) (Leaves e) (Breaks e) := by
    refine ensures_execute_cases (fun hblank => ?_) (fun r hrefuses => ?_)
      fun c args _ hfind hbind => atomic_of_bind he hothers hfind hbind
    · have hname : Text.upper e.progress.command ∉ "DEL" :: setters := by
        rw [hblank]
        decide
      rw [Leaves, if_pos rfl]
      exact .kept hname
    · exact ensures_refuse (fun _ => leaves_of_code hrefuses.code_ne_zero rfl) ⟨.unwritable, rfl⟩
  refine ⟨fun text => ?_, fun text code e₁ hread hcode => ?_, fun code e₁ => hexecute.of_ok,
    fun fault e₁ => hexecute.of_error, fun r h => ⟨h.code_ne_zero, fun hr => ?_, ?_⟩,
    fun htypes text e₁ => not_refuses_nameless htypes⟩
  · rw [interpret_eq]
    cases Line.read e.services.types.types e.setup.marks text with
    | ok line => exact ⟨rfl, rfl, rfl⟩
    | error fault => cases fault <;> exact ⟨rfl, rfl, rfl⟩
  · show (Run.ended (interpret text e)).andThen _ = _
    rw [hread]
    simp only [andThen_ended, executeUnless, if_neg hcode]
    rfl
  · rw [execute_of_refuses h, refuse_of_ne hr, fail_eq]
  · rintro rfl
    rw [execute_of_refuses h]
    rfl

/-- An engine with all the commands, a variable, and the line that removes it at hand. -/
def removing : Engine Unit :=
  { bundled with
    env := ({} : Environment).set "$x" ⟨TypeName.bool, .bool true, none⟩
    progress := { command := "DEL", args := [⟨TypeName.reference, .text "$x", none⟩] } }

theorem lines_are_atomic_removing :
    removing.env.has "$x" = true ∧
      ∃ e₁, (execute (carryOut 0) removing).EndsAmid Eq (.ok 0 e₁) ∧
        e₁.env.has "$x" = false := by
  have hconfined : Confined removing.services.commands :=
    Confined.install (e := { services := Tensors.extend .standard, host := () })
      (confined_standard.extend (registerAll_tensors "" .standard))
  have hothers : ∀ e e₁ : Engine Unit, e = e₁ → e₁.env = e.env := fun e e₁ h => by rw [h]
  obtain ⟨-, -, hcode, -⟩ := lines_are_atomic hconfined hothers (carryOut 0)
  have hends : (execute (carryOut 0) removing).result?.any (returns 0 fun _ => true) = true := by
    decide +kernel
  obtain ⟨r, hr, hreturns⟩ := (Option.any_eq_true _ _).mp hends
  obtain ⟨e₁, rfl, -⟩ := of_returns hreturns
  have hend : (execute (carryOut 0) removing).EndsAmid Eq (.ok 0 e₁) :=
    endsAmid_of_result? (fun _ => rfl) _ hr
  refine ⟨Environment.has_set .., e₁, hend, ?_⟩
  have hsettles := hcode 0 e₁ hend
  rw [if_pos rfl] at hsettles
  generalize e₁.env = env at hsettles
  cases hsettles with
  | stored hcommand => exact absurd hcommand (by decide +kernel)
  | removed _ hargs _ _ hafter =>
    cases hargs
    exact hafter
  | kept hcommand => exact absurd (by decide +kernel) hcommand

end Standard

end CommandBatch
