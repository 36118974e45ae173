import CommandBatch.Proofs.Command.Typing
import CommandBatch.Proofs.Decimal.Binary
import CommandBatch.Proofs.Run.Lasting
import CommandBatch.Proofs.Standard.Refinement
import CommandBatch.Proofs.Standard.Requests

/-!
# The variables of the language are typed

On an engine with the standard commands, arrays and their commands, and no others, every variable has a
proper name and a concrete value at every moment of every sequence of runs (`variables_typed`).  What sets
a variable are the handlers of `SET`, `TSUM`, `TSHAPE` and `TDOT`; each of them gets the name of a variable
first and stores a value that it was given, a number or an array that fills its shape (`keepsTypes_of_mem`).
The standard commands store nothing else, so the property lasts (`lasting_disciplined`).

Hooks, step rules and the function that is told the codes of runs may do what they like, as long as they
keep to typed variables themselves and add neither types nor commands.
-/

namespace CommandBatch

open Text Decimal Signature

variable {σ : Type}

/-- The request keeps variables typed, and adds neither types nor commands. -/
def Request.KeepsTypes : Request σ → Prop
  | .edit (.setVariable name type datum) => IsKey (normalizeName name) ∧ datum.OfType type
  | .edit (.registerType ..) => False
  | .registerCommand .. => False
  | _ => True

theorem Request.Plain.keepsTypes {request : Request σ} (h : request.Plain) : request.KeepsTypes := by
  cases request with
  | edit ed => cases ed <;> trivial
  | _ => exact h.elim

namespace Standard

open Engine Script

/-! ## Commands -/

section Arguments
variable {p : Parameter} {ps : List Parameter} {args : List Value}

theorem fits_nil (h : Fits [] args) : args = [] := by
  cases h
  rfl

theorem fits_target (h : Fits (required [TypeName.reference] :: ps) args) :
    args = [] ∨ ∃ target rest, args = target :: rest ∧ IsKey (normalizeName target.datum.plain) ∧
      Fits ps rest := by
  cases h with
  | nil => exact .inl rfl
  | cons haccepts hvalue hrest => exact .inr ⟨_, _, rfl, isKey_of_fits rfl haccepts hvalue, hrest⟩

theorem fits_value (hp : p.acceptsReference = false) (h : Fits (p :: ps) args) :
    args = [] ∨ ∃ v rest, args = v :: rest ∧ v.IsConcrete ∧ Fits ps rest := by
  cases h with
  | nil => exact .inl rfl
  | cons haccepts hvalue hrest => exact .inr ⟨_, _, rfl, concrete_of_fits hp hvalue, hrest⟩

end Arguments

theorem asks_set {args : List Value}
    (h : Fits [required [TypeName.reference], required [TypeName.any]] args) :
    (set args : Script σ).Asks Request.KeepsTypes := by
  rcases fits_target h with rfl | ⟨target, rest, rfl, hkey, h⟩
  · trivial
  rcases fits_value (by decide) h with rfl | ⟨value, rest, rfl, hvalue, h⟩
  · trivial
  obtain rfl := fits_nil h
  refine asks_converted fun name hname => ?_
  obtain ⟨-, rfl⟩ := Datum.toText_eq_ok_iff.mp hname
  have hed : Request.KeepsTypes (σ := σ)
      (.edit (.setVariable target.datum.plain value.type value.datum)) := ⟨hkey, hvalue⟩
  exact asks_andThen hed asks_silent

theorem asks_delete (args : List Value) : (delete args : Script σ).Asks Request.KeepsTypes := by
  unfold delete
  split
  · exact asks_converted fun _ _ => asks_andThen trivial asks_silent
  · trivial

namespace Tensors

theorem ofType_asNumber (x : Float) : (asNumber x).OfType TypeName.number := by
  unfold asNumber
  split
  · rename_i i _ htruncate
    exact .whole (length_toDigits_of_truncate? htruncate)
  · exact .float x

/-- What goes on with the name of a variable has one that stands for a proper key. -/
theorem asks_withName {target : Value} (hkey : IsKey (normalizeName target.datum.plain))
    {next : String → Script σ}
    (h : ∀ name, IsKey (normalizeName name) → (next name).Asks Request.KeepsTypes) :
    (withName target next).Asks Request.KeepsTypes := by
  refine asks_converted fun name hname => h name ?_
  obtain ⟨-, rfl⟩ := Datum.toText_eq_ok_iff.mp hname
  exact hkey

theorem asks_storeNumber {name : String} (hkey : IsKey (normalizeName name)) (x : Float) :
    (storeNumber name x : Script σ).Asks Request.KeepsTypes := by
  have hed : Request.KeepsTypes (σ := σ) (.edit (.setVariable name TypeName.number (asNumber x))) :=
    ⟨hkey, ofType_asNumber x⟩
  exact asks_andThen hed asks_silent

theorem asks_storeTensor {name : String} (hkey : IsKey (normalizeName name)) {t : Tensor}
    (ht : t.WellShaped) : (storeTensor name t : Script σ).Asks Request.KeepsTypes := by
  have hed : Request.KeepsTypes (σ := σ) (.edit (.setVariable name TypeName.tensor (.tensor t))) :=
    ⟨hkey, .tensor ht⟩
  exact asks_andThen hed asks_silent

/-- Only an array that fills its shape is at hand where an array is asked for. -/
theorem asks_withTensor {v : Value} (hv : v.IsConcrete) {member : String} {next : Tensor → Script σ}
    (h : ∀ t : Tensor, t.WellShaped → (next t).Asks Request.KeepsTypes) :
    (withTensor v.datum member next).Asks Request.KeepsTypes := by
  obtain ⟨type, datum, literal⟩ := v
  cases datum with
  | tensor t =>
    cases (hv : (Datum.tensor t).OfType type) with
    | tensor ht => exact h t ht
  | _ => trivial

theorem asks_sum {args : List Value}
    (h : Fits [required [TypeName.reference], required [TypeName.tensor]] args) :
    (sum args : Script σ).Asks Request.KeepsTypes := by
  rcases fits_target h with rfl | ⟨target, rest, rfl, hkey, h⟩
  · trivial
  rcases fits_value (by decide) h with rfl | ⟨value, rest, rfl, -, h⟩
  · trivial
  obtain rfl := fits_nil h
  refine asks_withName hkey fun name hname => ?_
  split
  · exact asks_storeNumber hname _
  · exact asks_converted fun x _ => asks_storeNumber hname x

theorem asks_shape {args : List Value}
    (h : Fits [required [TypeName.reference], required [TypeName.tensor]] args) :
    (shape args : Script σ).Asks Request.KeepsTypes := by
  rcases fits_target h with rfl | ⟨target, rest, rfl, hkey, h⟩
  · trivial
  rcases fits_value (by decide) h with rfl | ⟨value, rest, rfl, hvalue, h⟩
  · trivial
  obtain rfl := fits_nil h
  refine asks_withTensor hvalue fun t ht => asks_withName hkey fun name hname => ?_
  refine asks_storeTensor hname (Tensor.wellShaped_vector ?_)
  exact fun hnil => ht.axes (List.map_eq_nil_iff.mp hnil)

theorem asks_dot {args : List Value}
    (h : Fits [required [TypeName.reference], required [TypeName.tensor], required [TypeName.tensor]]
      args) : (dot args : Script σ).Asks Request.KeepsTypes := by
  rcases fits_target h with rfl | ⟨target, rest, rfl, hkey, h⟩
  · trivial
  rcases fits_value (by decide) h with rfl | ⟨left, rest, rfl, hleft, h⟩
  · trivial
  rcases fits_value (by decide) h with rfl | ⟨right, rest, rfl, hright, h⟩
  · trivial
  obtain rfl := fits_nil h
  refine asks_withTensor hleft fun a ha => asks_withTensor hright fun b hb => ?_
  -- A product without axes becomes a number; any other has an axis.
  split
  · trivial
  · exact asks_withName hkey fun name hname => asks_storeNumber hname _
  · rename_i product haxes hproduct
    refine asks_withName hkey fun name hname => asks_storeTensor hname ⟨ha.product hb hproduct, fun hnil => ?_⟩
    obtain ⟨shape, entries⟩ := product
    obtain rfl : shape = [] := hnil
    exact haxes entries rfl

end Tensors

/-- **Every command keeps variables typed** if its arguments fit. -/
theorem keepsTypes_of_mem {c : Command (Handler σ)} (hc : c ∈ commands ++ Tensors.commands)
    {args : List Value} (h : Fits c.signature.params args) :
    (c.handler args).Asks Request.KeepsTypes := by
  rcases plain_or_writes hc with ⟨-, hplain⟩ | hwrites
  · exact (hplain args).mono fun _ => Request.Plain.keepsTypes
  · generalize c.signature.name = name, c.signature.params = ps, c.handler = handler at hwrites h
    cases hwrites with
    | set => exact asks_set h
    | delete => exact asks_delete args
    | sum => exact Tensors.asks_sum h
    | shape => exact Tensors.asks_shape h
    | dot => exact Tensors.asks_dot h

/-! ## Engines -/

/-- Commands whose signatures say what their declarations do are registered one after the other. -/
theorem registerAll_commands (owner : String) (cs : List (Command (Handler σ))) (s : Services σ)
    (h : ∀ c ∈ cs, c.signature.declaration.signature true = .ok c.signature) :
    s.registerAll owner (cs.map fun c => .command c.signature.declaration (some c.handler)) =
      .ok { s with commands := cs.foldl (·.register ·) s.commands } := by
  induction cs generalizing s with
  | nil => rfl
  | cons c cs ih =>
    obtain ⟨hc, hcs⟩ := List.forall_mem_cons.mp h
    have hcommand : c.signature.declaration.command (some c.handler) = .ok c := by
      unfold Declaration.command
      rw [Option.isSome_some, hc]
    have hregister : s.register owner (.command c.signature.declaration (some c.handler)) =
        .ok { s with commands := s.commands.register c } := by
      simp only [Services.register, hcommand]
      rfl
    unfold Services.registerAll at ih ⊢
    rw [List.map_cons, List.foldlM_cons, hregister]
    exact ih _ hcs

/-- **What the extension for arrays registers** are its types and its commands. -/
theorem registerAll_tensors (owner : String) (s : Services σ) :
    s.registerAll owner Tensors.registrations = .ok (Tensors.extend s) := by
  have hdeclared : ∀ signature ∈ (Tensors.commands : List (Command (Handler Unit))).map (·.signature),
      signature.declaration.signature true = .ok signature := by decide +kernel
  have hcommands (s : Services σ) := registerAll_commands owner Tensors.commands s fun c hc =>
    hdeclared _ (List.mem_map_of_mem (f := fun c : Command (Handler σ) => c.signature) hc)
  exact hcommands _

/-- The engine has the types that every engine has and arrays, the standard commands and those for arrays,
and no others.  What else it calls keeps variables typed. -/
structure IsBundled (e : Engine σ) : Prop where
  types : ∀ type ∈ e.services.types.types, type ∈ Token.tensor :: Token.defaults
  commands : ∀ name c, e.services.commands.find? name = some c → c ∈ commands ++ Tensors.commands
  hooks : e.services.hooks.Asks Request.KeepsTypes
  callback : ∀ script code, e.setup.onCompletion = some script →
    (script code).Asks Request.KeepsTypes

/-- On such an engine the variables are typed, and the arguments of the line at hand are concrete or the
names of variables. -/
structure Disciplined (e : Engine σ) : Prop extends IsBundled e where
  env : e.env.Typed
  args : ∀ arg ∈ e.progress.args, arg.IsConcrete ∨ arg.IsName

/-- An engine on which the extension for arrays has registered itself and the standard commands are installed
is one. -/
theorem isBundled_install (setup : Setup σ) (host : σ) (owner : String) {services : Services σ}
    {e : Engine σ} (hservices : Services.standard.registerAll owner Tensors.registrations = .ok services)
    (hnew : Engine.new setup services host = .ok e)
    (hcallback : ∀ script code, setup.onCompletion = some script →
      (script code).Asks Request.KeepsTypes) :
    IsBundled (install e) ∧ (install e).env = {} ∧ (install e).progress = {} := by
  rw [registerAll_tensors] at hservices
  cases hservices
  have hcomplete : (Tensors.extend .standard : Services σ).types.complete Token.defaults =
      ⟨Token.tensor :: Token.defaults⟩ :=
    TypeRegistry.complete_of_has fun type htype =>
      List.any_eq_true.mpr ⟨type, List.mem_cons_of_mem _ htype, by simp⟩
  unfold Engine.new at hnew
  by_cases hempty : setup.marks.separators.isEmpty = true
  · rw [if_pos hempty] at hnew
    cases hnew
  · rw [if_neg hempty] at hnew
    cases hnew
    refine ⟨⟨fun type htype => ?_, fun name c hfind => ?_, ⟨nofun, nofun⟩, hcallback⟩, rfl, rfl⟩
    · have htype : type ∈ ((Tensors.extend .standard : Services σ).types.complete Token.defaults).types :=
        htype
      rwa [hcomplete] at htype
    · rcases CommandRegistry.find?_foldl_register hfind with ⟨hmem, -⟩ | hfind
      · exact List.mem_append_left _ hmem
      · rcases CommandRegistry.find?_foldl_register hfind with ⟨hmem, -⟩ | hnone
        · exact List.mem_append_right _ hmem
        · cases hnone

theorem IsBundled.of_eq {e e₁ : Engine σ} (h : IsBundled e) (hsetup : e₁.setup = e.setup)
    (hservices : e₁.services = e.services) : IsBundled e₁ :=
  ⟨hservices ▸ h.types, hservices ▸ h.commands, hservices ▸ h.hooks, hsetup ▸ h.callback⟩

/-- Only the services, the variables and the arguments matter. -/
theorem Disciplined.of_carried {e e₁ : Engine σ} (h : Disciplined e) (hsame : e₁.carried = e.carried) :
    Disciplined e₁ := by
  simp only [carried, Prod.mk.injEq] at hsame
  obtain ⟨hsetup, hservices, henv, hargs⟩ := hsame
  exact ⟨h.toIsBundled.of_eq hsetup hservices, henv ▸ h.env, hargs ▸ h.args⟩

theorem Disciplined.interpret (text : String) :
    (Engine.interpret text).Preserves (Disciplined (σ := σ)) :=
  preserves_interpret (fun _ h => ⟨h.toIsBundled.of_eq rfl rfl, h.env, nofun⟩)
    (fun _ _ h hread =>
      ⟨h.toIsBundled.of_eq rfl rfl, h.env, Line.concrete_or_name_of_read h.types hread⟩)
    fun _ _ h _ => ⟨h.toIsBundled.of_eq rfl rfl, h.env, nofun⟩

/-- What keeps variables typed keeps the discipline. -/
theorem Disciplined.edited {ed : Edit} (hed : Request.KeepsTypes (σ := σ) (.edit ed)) {e e₁ : Engine σ}
    (h : Disciplined e) (hedited : Edited e ed e₁) : Disciplined e₁ := by
  cases hedited with
  | refused => exact h
  | output | noted | moved => exact h.of_carried rfl
  | set name type datum => exact ⟨h.toIsBundled.of_eq rfl rfl, h.env.set hed.1 hed.2, h.args⟩
  | deleted hdelete => exact ⟨h.toIsBundled.of_eq rfl rfl, h.env.delete hdelete, h.args⟩
  | typed => exact hed.elim

/-- **The discipline lasts**, whatever lines fail for. -/
theorem lasting_disciplined : Lasting Request.KeepsTypes (fun _ => True) (Disciplined (σ := σ)) where
  host _ _ h := h.of_carried rfl
  edit _ hed := preserves_edit fun _ _ h hedited => h.edited hed hedited
  registerCommand _ _ hed := hed.elim
  interpret text _ := Disciplined.interpret text
  same _ _ h hsame _ := h.of_carried hsame
  cleared _ _ h hargs _ := ⟨h.toIsBundled.of_eq rfl rfl, h.env, by rw [hargs]; exact nofun⟩
  failing _ _ _ h _ := h.of_carried rfl
  reads := Disciplined.interpret
  hooks _ h := h.hooks
  callback _ script code h := h.callback script code
  refused _ _ _ _ := trivial
  answered _ _ := trivial
  calls e command args h hfind hbind :=
    ⟨keepsTypes_of_mem (h.commands _ command hfind) (fits_of_bind h.env h.args hbind),
      Script.raises_of_all (fun _ _ => trivial) _⟩

/-- **The variables are typed.**  A new engine has the types that every engine has and arrays, and the
standard commands and those for arrays.  Whatever runs are started on it and in whatever turns they go on,
each variable that it has at any moment is named by the sigil and capitals, digits or underscores, and holds
a number, a truth value, an operator, a string or an array that fills its shape.  So what a reference leads
to is never a reference itself. -/
theorem variables_typed {e : Engine σ} (h : IsBundled e) (henv : e.env = {})
    (hargs : e.progress.args = []) (fuel : Nat) (starts : List Start) (turns : List (Nat × Signal)) :
    let env := ((Scene.start e starts).after fuel turns).engine.env
    env.Typed ∧ ∀ reference v, env.resolve reference = .ok v →
      v.IsConcrete ∧ v.type ∉ [TypeName.reference, TypeName.any, TypeName.error] := by
  have hstart : Disciplined e :=
    ⟨h, henv ▸ Environment.typed_empty, by rw [hargs]; exact nofun⟩
  have hend := lasting_disciplined.after hstart fuel starts turns
  refine ⟨hend.env, fun reference v hresolve => ?_⟩
  have hconcrete : v.IsConcrete := hend.env.resolve hresolve
  exact ⟨hconcrete, hconcrete.type_not_mem⟩

/-- An engine with all the commands and a host without a state. -/
def bundled : Engine Unit := install { services := Tensors.extend .standard, host := () }

theorem variables_typed_shape :
    let env := ((Scene.start bundled [.batch ["SET $row [1 2]", "TSHAPE $size $row"]]).after 4
      [(0, .resume)]).engine.env
    env.values.keys = ["$ROW", "$SIZE"] ∧ env.Typed := by
  intro env
  have hkeys : env.values.keys = ["$ROW", "$SIZE"] := by decide +kernel
  obtain ⟨hbundled, henv, hprogress⟩ :=
    isBundled_install {} () "" (registerAll_tensors "" .standard) rfl nofun
  exact ⟨hkeys, (variables_typed hbundled henv (congrArg Progress.args hprogress) 4 _ _).1⟩

end Standard

end CommandBatch
