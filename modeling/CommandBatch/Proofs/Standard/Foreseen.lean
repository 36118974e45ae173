import CommandBatch.Proofs.Decimal.Sign
import CommandBatch.Proofs.Standard.Faults

/-!
# The failures of standard commands

Lines of standard commands do not fail for errors that their commands have met, but for reasons that the reader,
the binder or the commands give (`failures_foreseen`): what variables hold stays typed, and so every handler gets
arguments that it can convert.  In particular a negative pause is refused, and so are a jump and a code that are
not whole (`mismatches_wait`, `mismatches_whole`).

The exception is a pause that lies beyond the range of floating-point numbers, in either direction.  `WAIT`
converts it first, so that its line fails for the error of the conversion (`lineFails_of_beyond`), also where the
pause is negative (`carries_negativeWait`).
-/

namespace CommandBatch.Standard

open Text Decimal Signature Engine Script Process

variable {σ : Type}

/-! ## Reasons -/

/-- The line does not fail for an error that its command has met, but for a pause beyond the range of
floating-point numbers. -/
def Foreseen (r : Reason) : Prop :=
  ∀ command origin, r = .commandFailed command origin →
    upper command = "WAIT" ∧ origin = (Fault.ofConversion .beyondFloat).asOrigin

theorem foreseen_of_ne {r : Reason} (h : ∀ command origin, r ≠ .commandFailed command origin) : Foreseen r :=
  fun command origin hr => absurd hr (h command origin)

theorem foreseen_of_reading {r : Reason} (h : r.OfReading) : Foreseen r :=
  foreseen_of_ne fun _ _ hr => by
    rw [hr] at h
    exact h

theorem foreseen_of_binding {r : Reason} (h : r.OfBinding) : Foreseen r :=
  foreseen_of_ne fun _ _ hr => by
    rw [hr] at h
    exact h

theorem foreseen_of_refuses {e : Engine σ} {r : Reason} (h : e.Refuses r) : Foreseen r := by
  cases h with
  | unknown => exact foreseen_of_ne nofun
  | unbound _ _ hbind => exact foreseen_of_binding (ofBinding_of_bindFrom hbind)

theorem foreseen_of_answer (command : String) (answer : Datum) : Foreseen (answerReason command answer) :=
  foreseen_of_ne fun _ _ => by cases answer <;> exact nofun

theorem foreseen_of_raised {name command : String} {args : List Value} {fault : Fault}
    (hname : upper command = name) (h : Raised name args fault) (hcancelled : fault ≠ .cancelled) :
    Foreseen (faultReason command fault) := by
  cases h with
  | failure h => exact foreseen_of_ne h
  | cancelled => exact absurd rfl hcancelled
  | overflow hwait =>
    intro command' origin hr
    cases hr
    exact ⟨hname.trans hwait, rfl⟩

/-! ## Engines -/

/-- The engine has the types that every engine has and the standard commands, and no others.  What else it
calls keeps variables typed. -/
structure IsOrdinary (e : Engine σ) : Prop where
  types : ∀ type ∈ e.services.types.types, type ∈ Token.defaults
  separators : e.setup.marks.separators ≠ []
  commands : ∀ name c, e.services.commands.find? name = some c →
    c ∈ Standard.commands ∧ upper name = c.signature.name
  hooks : e.services.hooks.Asks Request.KeepsTypes
  callback : ∀ script code, e.setup.onCompletion = some script → (script code).Asks Request.KeepsTypes

theorem IsOrdinary.isBundled {e : Engine σ} (h : IsOrdinary e) : IsBundled e where
  types type htype := List.mem_cons_of_mem _ (h.types type htype)
  commands name c hfind := List.mem_append_left _ (h.commands name c hfind).1
  hooks := h.hooks
  callback := h.callback

theorem IsOrdinary.of_eq {e e₁ : Engine σ} (h : IsOrdinary e) (hsetup : e₁.setup = e.setup)
    (hservices : e₁.services = e.services) : IsOrdinary e₁ :=
  ⟨hservices ▸ h.types, hsetup ▸ h.separators, hservices ▸ h.commands, hservices ▸ h.hooks,
    hsetup ▸ h.callback⟩

theorem IsStandard.isOrdinary {e : Engine σ} (h : IsStandard e)
    (hcallback : ∀ script code, e.setup.onCompletion = some script → (script code).Asks Request.KeepsTypes) :
    IsOrdinary e where
  types type htype := by
    rw [h.types] at htype
    exact htype
  separators := h.separators
  commands name c hfind := by
    rw [h.commands] at hfind
    rcases CommandRegistry.find?_foldl_register hfind with ⟨hmem, hname⟩ | hnone
    · exact ⟨hmem, hname.trans (handles_of_mem hmem).1⟩
    · cases hnone
  hooks := by
    rw [h.hooks]
    exact ⟨nofun, nofun⟩
  callback := hcallback

/-- On such an engine variables are typed, and no failure quotes an error that a command has met. -/
structure Candid (e : Engine σ) : Prop where
  ordinary : IsOrdinary e
  disciplined : Disciplined e
  failures : ∀ f ∈ e.failures, Foreseen f.reason

variable {e e₁ : Engine σ}

theorem Candid.of_carried (h : Candid e) (hsame : e₁.carried = e.carried)
    (hfailures : e₁.failures ⊆ e.failures) : Candid e₁ := by
  have hdisciplined := h.disciplined.of_carried hsame
  simp only [carried, Prod.mk.injEq] at hsame
  exact ⟨h.ordinary.of_eq hsame.1 hsame.2.1, hdisciplined, fun f hf => h.failures f (hfailures hf)⟩

theorem Candid.failing (h : Candid e) {r : Reason} (hr : Foreseen r) (text : String) :
    Candid (failing r text e) := by
  refine ⟨h.ordinary.of_eq rfl rfl, h.disciplined.of_carried rfl, fun f hf => ?_⟩
  rcases List.mem_append.mp hf with hf | hf
  · exact h.failures f (List.mem_append_left _ hf)
  · obtain rfl := List.mem_singleton.mp hf
    exact hr

theorem Candid.faced (h : Candid e) (text : String) : Candid (faced text e) := by
  refine ⟨h.ordinary.of_eq rfl rfl, ?_, h.failures⟩
  exact ⟨h.disciplined.toIsBundled.of_eq rfl rfl, h.disciplined.env, nofun⟩

theorem Candid.interpret (text : String) : (Engine.interpret text).Preserves (Candid (σ := σ)) := by
  refine preserves_interpret (fun _ h => h.faced text) (fun e line h hread => ?_) fun e f h hread => ?_
  · have hargs := Line.concrete_or_name_of_read h.disciplined.types hread
    refine ⟨h.ordinary.of_eq rfl rfl, ?_, h.failures⟩
    exact ⟨h.disciplined.toIsBundled.of_eq rfl rfl, h.disciplined.env, hargs⟩
  · -- The predicates of these types raise nothing, so that the reader itself has refused the text.
    obtain ⟨r, hr, hreading⟩ := (Line.faults_of_read h.ordinary.separators hread).of_steady
      fun type htype => Token.defaults_steady type (h.ordinary.types type htype)
    cases hr
    exact (h.faced text).failing (foreseen_of_reading hreading) text

theorem Candid.edited {ed : Edit} (hed : Request.KeepsTypes (σ := σ) (.edit ed)) (h : Candid e)
    (hedited : Edited e ed e₁) : Candid e₁ := by
  have hdisciplined := h.disciplined.edited hed hedited
  cases hedited with
  | output | noted =>
    exact ⟨h.ordinary.of_eq rfl rfl, hdisciplined, fun f hf => h.failures f (failures_push rfl hf)⟩
  | typed => exact hed.elim
  | refused | set | deleted | moved => exact ⟨h.ordinary.of_eq rfl rfl, hdisciplined, h.failures⟩

/-- **Lines of standard commands fail for reasons of their own**, and it stays so. -/
theorem lasting_candid : Lasting Request.KeepsTypes Foreseen (Candid (σ := σ)) where
  host _ _ h := h.of_carried rfl (List.Subset.refl _)
  edit _ hed := preserves_edit fun _ _ h hedited => h.edited hed hedited
  registerCommand _ _ hed := hed.elim
  interpret text _ := Candid.interpret text
  same _ _ h hsame hfailures := h.of_carried hsame hfailures
  cleared e progress h hargs hfailure := by
    refine ⟨h.ordinary.of_eq rfl rfl, ?_, fun f hf => ?_⟩
    · exact ⟨h.disciplined.toIsBundled.of_eq rfl rfl, h.disciplined.env, by rw [hargs]; exact nofun⟩
    · rw [failures, hfailure, Option.toList_none, List.append_nil] at hf
      exact h.failures f (List.mem_append_left _ hf)
  failing _ _ text h hr := h.failing hr text
  reads := Candid.interpret
  hooks _ h := h.ordinary.hooks
  callback _ script code h := h.ordinary.callback script code
  refused _ _ _ := foreseen_of_refuses
  answered := foreseen_of_answer
  calls e c args h hfind hbind := by
    obtain ⟨hmem, hname⟩ := h.ordinary.commands _ c hfind
    have hfits := fits_of_bind h.disciplined.env h.disciplined.args hbind
    refine ⟨keepsTypes_of_mem (List.mem_append_left _ hmem) hfits, fun others go e₁ => ?_⟩
    exact (raises_of_mem hmem hfits others go e₁).mono (fun _ h => h) (fun _ _ h => h)
      fun _ _ hraised => foreseen_of_raised hname hraised

/-! ## Numbers that are refused -/

/-- The number is negative. -/
def IsNegative : Datum → Prop
  | .whole i => i < 0
  | .float x => x < 0.0
  | _ => False

/-- As a floating-point number a negative number is negative, unless it lies beyond their range. -/
theorem toFloat_of_negative {d : Datum} (hd : IsNegative d) :
    d.toFloat = .error .beyondFloat ∨ ∃ x, d.toFloat = .ok x ∧ x < 0.0 := by
  cases d with
  | whole i =>
    cases hx : ofWhole? i with
    | some x => exact .inr ⟨x, by simp [Datum.toFloat, hx], neg_of_ofWhole? hx hd⟩
    | none => exact .inl (by simp [Datum.toFloat, hx])
  | float x => exact .inr ⟨x, rfl, hd⟩
  | _ => exact hd.elim

/-- Within that range, it can be written. -/
theorem isWritable_of_negative {d : Datum} (hd : IsNegative d) (hrange : d.toFloat ≠ .error .beyondFloat) :
    d.isWritable = true := by
  cases d with
  | whole i =>
    cases hx : ofWhole? i with
    | some x => exact isWritable_of_ofWhole? hx
    | none => exact absurd (by simp [Datum.toFloat, hx]) hrange
  | float => rfl
  | _ => exact hd.elim

/-- The line at hand calls the command of a name with these arguments. -/
def Calls (e : Engine σ) (name : String) (args : List Value) : Prop :=
  ∃ c, e.services.commands.find? e.progress.command = some c ∧ c.signature.name = name ∧
    c.signature.bind e.env e.progress.args = .ok args

/-- Executed, the line at hand fails with the code of a mismatch and for this reason. -/
def Mismatches (e : Engine σ) (r : Reason) : Prop :=
  ∀ go, ∃ e₁, execute go e = .ended (.ok ErrorCode.typeMismatch.toInt e₁) ∧
    e₁.progress.failure = some ⟨r, e.progress.index, some e.progress.text⟩

theorem names_commands : (commands : List (Command (Handler σ))).map (fun c => c.signature.name) =
    ["PRINT", "SET", "DEL", "GOTO", "WAIT", "HELP", "EXIT", "ASSERT", "THROW"] := rfl

/-- The commands have different names. -/
theorem eq_of_name {c d : Command (Handler σ)} (hc : c ∈ commands) (hd : d ∈ commands)
    (hname : c.signature.name = d.signature.name) : c = d := by
  have hnodup : ((commands : List (Command (Handler σ))).map fun c => c.signature.name).Nodup := by
    rw [names_commands]
    decide
  exact List.inj_on_of_nodup_map hnodup hc hd hname

theorem handler_eq {c : Command (Handler σ)} (hc : c ∈ commands) {handler : Handler σ}
    (hhandler : ∃ d ∈ commands, d.signature.name = c.signature.name ∧ d.handler = handler) :
    c.handler = handler := by
  obtain ⟨d, hd, hname, rfl⟩ := hhandler
  rw [eq_of_name hd hc hname]

/-- Each command is found by its name. -/
theorem IsStandard.find?_eq (h : IsStandard e) {c : Command (Handler σ)} (hc : c ∈ Standard.commands) :
    e.services.commands.find? c.signature.name = some c := by
  rw [h.commands]
  obtain ⟨d, hfind⟩ := Option.isSome_iff_exists.mp
    (CommandRegistry.isSome_find?_foldl_register (r := {}) (.inr ⟨c, hc, rfl⟩))
  rcases CommandRegistry.find?_foldl_register hfind with ⟨hd, hname⟩ | hnone
  · rw [(handles_of_mem hc).1, (handles_of_mem hd).1] at hname
    rw [hfind, eq_of_name hc hd hname]
  · cases hnone

theorem IsOrdinary.command_ne_empty (h : IsOrdinary e) {name : String} {c : Command (Handler σ)}
    (hfind : e.services.commands.find? name = some c) : name ≠ "" := by
  rintro rfl
  obtain ⟨hmem, hname⟩ := h.commands _ c hfind
  have hmem := List.mem_map_of_mem (f := fun c => c.signature.name) hmem
  rw [names_commands, ← hname] at hmem
  exact absurd hmem (by decide)

/-- A line whose handler breaks off with such a failure fails for its reason. -/
theorem mismatches_of_playOut (h : IsOrdinary e) {name : String} (handler : Handler σ)
    (hhandler : ∃ d ∈ commands, d.signature.name = name ∧ d.handler = handler) {args : List Value}
    (hcalls : Calls e name args) {r : Reason} (hcode : r.code = ErrorCode.typeMismatch.toInt)
    (hplay : ∀ go, ∃ e₁ : Engine σ, playOut go (handler args) e = .ended (.error (.ofReason r) e₁) ∧
      e₁.progress.index = e.progress.index) : Mismatches e r := by
  obtain ⟨c, hfind, rfl, hbind⟩ := hcalls
  obtain rfl := handler_eq (h.commands _ c hfind).1 hhandler
  intro go
  obtain ⟨e₁, hplay, hindex⟩ := hplay go
  have hattempt : (playOut go (c.handler args)).attempt e = .ended (.ok (.error (.ofReason r)) e₁) := by
    unfold Process.attempt
    rw [hplay]
    rfl
  refine ⟨failing r e.progress.text e₁, ?_, by rw [← hindex]; rfl⟩
  simp only [execute, if_neg (h.command_ne_empty hfind), hfind, hbind]
  show ((playOut go (c.handler args)).attempt e).andThen _ = _
  rw [hattempt, ← hcode]
  rfl

/-- **A negative pause is refused**, unless it lies beyond the range of floating-point numbers. -/
theorem mismatches_wait (h : IsOrdinary e) {v : Value} (hcalls : Calls e "WAIT" [v]) (hneg : IsNegative v.datum)
    (hrange : v.datum.toFloat ≠ .error .beyondFloat) : Mismatches e (.negativeDelay "WAIT" v.datum.plain) := by
  obtain ⟨x, hx, hlt⟩ := (toFloat_of_negative hneg).resolve_left hrange
  have htext : v.datum.toText = .ok v.datum.plain :=
    Datum.toText_eq_ok_iff.mpr ⟨isWritable_of_negative hneg hrange, rfl⟩
  have hwait : (wait [v] : Script σ) = .raise (.ofReason (.negativeDelay "WAIT" v.datum.plain)) := by
    show Script.converted v.datum.toFloat _ = _
    rw [hx]
    refine (if_pos hlt).trans ?_
    rw [htext]
    rfl
  refine mismatches_of_playOut h wait (by simp [commands]) hcalls rfl fun go => ⟨e, ?_, rfl⟩
  rw [hwait]
  rfl

theorem wholeOf_of_not_isWhole {v : Value} {x : Float} (hdatum : v.datum = .float x) (hx : isWhole x = false)
    (name : String) : wholeOf name v = .error (.ofReason (.notWhole name (floatText x))) := by
  obtain ⟨type, datum, literal⟩ := v
  cases hdatum
  unfold wholeOf
  dsimp only
  rw [hx]

/-- **A jump or a code that is not whole is refused.** -/
theorem mismatches_whole (h : IsOrdinary e) {name : String} (hname : name ∈ ["GOTO", "EXIT"]) {v : Value}
    {x : Float} (hcalls : Calls e name [v]) (hdatum : v.datum = .float x) (hx : isWhole x = false) :
    Mismatches e (.notWhole name (floatText x)) := by
  have hwhole := wholeOf_of_not_isWhole hdatum hx
  simp only [List.mem_cons, List.not_mem_nil, or_false] at hname
  rcases hname with rfl | rfl
  · have hgoto : (goto [v] : Script σ) = .raise (.ofReason (.notWhole "GOTO" (floatText x))) := by
      show orRaise _ (wholeOf "GOTO" v) = _
      rw [hwhole]
      rfl
    refine mismatches_of_playOut h goto (by simp [commands]) hcalls rfl fun go => ⟨e, ?_, rfl⟩
    rw [hgoto]
    rfl
  · have hexit : (exit [v] : Script σ) = .look fun view =>
        andThen (.jump (.whole view.batchLength)) (.raise (.ofReason (.notWhole "EXIT" (floatText x)))) := by
      unfold exit
      simp only [hwhole]
      rfl
    -- The cursor stands behind the last line by the time that the code is looked at.
    refine mismatches_of_playOut h exit (by simp [commands]) hcalls rfl fun go =>
      ⟨moved e.progress.batch.length e, ?_, rfl⟩
    rw [hexit]
    rfl

/-! ## Runs -/

/-- Whatever line comes next, what the handler of its command gets can be written, and the handler raises only
failures that it gives the reason for, or the overflow of a pause. -/
def Answerable (e : Engine σ) : Prop :=
  ∀ text line c args, Line.read e.services.types.types e.setup.marks text = .ok line →
    e.services.commands.find? line.command = some c → c.signature.bind e.env line.args = .ok args →
      (∀ v ∈ args, v.datum.isWritable = true) ∧ (c.handler args).Raises (Raised c.signature.name args)

theorem Candid.answerable (h : Candid e) : Answerable e := by
  intro text line c args hread hfind hbind
  have hargs := Line.concrete_or_name_of_read h.disciplined.types hread
  have hfits := fits_of_bind h.disciplined.env hargs hbind
  exact ⟨isWritable_of_fits hfits, raises_of_mem (h.ordinary.commands _ c hfind).1 hfits⟩

/-- **Standard commands fail for reasons of their own**, but for a pause beyond the range of floating-point
numbers.  A new engine has the types that every engine has and the standard commands.  Whatever runs are
started on it and in whatever turns they go on, no failure that it has noted or announced at any moment quotes
an error that a command has met, unless it is the overflow of such a pause, and whatever line comes next, its
handler raises nothing else.  A negative pause within that range is refused with the code of a mismatch, and so
are a jump and a code that are not whole, whatever their size. -/
theorem failures_foreseen (h : IsOrdinary e) :
    (e.env = {} → e.progress.args = [] → e.failures = [] →
      ∀ fuel starts turns, let e₁ := ((Scene.start e starts).after fuel turns).engine
        (∀ f ∈ e₁.failures, Foreseen f.reason) ∧ Answerable e₁) ∧
    (∀ v, Calls e "WAIT" [v] → IsNegative v.datum → v.datum.toFloat ≠ .error .beyondFloat →
      Mismatches e (.negativeDelay "WAIT" v.datum.plain)) ∧
    ∀ name ∈ ["GOTO", "EXIT"], ∀ v x, Calls e name [v] → v.datum = .float x → isWhole x = false →
      Mismatches e (.notWhole name (floatText x)) := by
  refine ⟨fun henv hargs hfailures fuel starts turns => ?_, fun v hcalls hneg hrange => ?_, ?_⟩
  · have hstart : Candid e := by
      refine ⟨h, ⟨h.isBundled, henv ▸ Environment.typed_empty, ?_⟩, ?_⟩
      · rw [hargs]
        exact nofun
      · rw [hfailures]
        exact nofun
    have hend := lasting_candid.after hstart fuel starts turns
    exact ⟨hend.failures, hend.answerable⟩
  · exact mismatches_wait h hcalls hneg hrange
  · intro name hname v x hcalls hdatum hx
    exact mismatches_whole h hname hcalls hdatum hx

/-- A new engine that faces a line of a command with a number. -/
def facing (command : String) (number : Datum) : Engine Unit :=
  understood ⟨command, [⟨TypeName.number, number, none⟩]⟩ plain

theorem failures_foreseen_facing :
    let e := ((Scene.start plain [.batch ["SET $x 1", "DEL $y"]]).after 4 [(0, .resume)]).engine
    (e.failures.map Failure.reason = [.cannotDelete "$y", .cannotDelete "$y"] ∧
        ∀ f ∈ e.failures, Foreseen f.reason) ∧
      Mismatches (facing "WAIT" (.whole (-1))) (.negativeDelay "WAIT" "-1") ∧
      Mismatches (facing "GOTO" (.float 0.5)) (.notWhole "GOTO" "0.5") := by
  intro e
  have hstandard : IsStandard plain := isStandard_install {} () rfl
  have hplain : IsOrdinary plain := hstandard.isOrdinary nofun
  have hgoto := hstandard.find?_eq (c := commands[3]) (List.getElem_mem _)
  have hwait := hstandard.find?_eq (c := commands[4]) (List.getElem_mem _)
  refine ⟨?_, ?_, ?_⟩
  · obtain ⟨hfailures, -⟩ := (failures_foreseen hplain).1 rfl rfl rfl 4
      [.batch ["SET $x 1", "DEL $y"]] [(0, .resume)]
    exact ⟨by decide +kernel, hfailures⟩
  · have hfacing : IsOrdinary (facing "WAIT" (.whole (-1))) := hplain.of_eq rfl rfl
    obtain ⟨x, hx⟩ : ∃ x, ofWhole? (-1) = some x := Option.isSome_iff_exists.mp (by decide +kernel)
    refine (failures_foreseen hfacing).2.1 _ ⟨_, hwait, rfl, rfl⟩ (show (-1 : Int) < 0 by decide) ?_
    simp [Datum.toFloat, hx]
  · have hfacing : IsOrdinary (facing "GOTO" (.float 0.5)) := hplain.of_eq rfl rfl
    have htext : floatText 0.5 = "0.5" := by decide +kernel
    rw [← htext]
    exact (failures_foreseen hfacing).2.2 "GOTO" (by decide) _ 0.5 ⟨_, hgoto, rfl, rfl⟩ rfl (by decide +kernel)

/-! ## Pauses beyond the range -/

/-- **A pause beyond the range of floating-point numbers fails for the error of its conversion**, negative or
not. -/
theorem lineFails_of_beyond {text : String} {line : Line} {c : Command (Handler σ)} {v : Value}
    (h : IsOrdinary e) (hread : Line.read e.services.types.types e.setup.marks text = .ok line)
    (hfind : e.services.commands.find? line.command = some c) (hname : c.signature.name = "WAIT")
    (hbind : c.signature.bind e.env line.args = .ok [v]) (hbeyond : v.datum.toFloat = .error .beyondFloat) :
    LineFails text e (some (.commandFailed line.command (Fault.ofConversion .beyondFloat).asOrigin))
      (understood line e) := by
  have hhandler : c.handler = wait := handler_eq (h.commands _ c hfind).1 (by simp [commands, hname])
  have hwait : (wait [v] : Script σ) = .raise (.ofConversion .beyondFloat) := by
    show Script.converted v.datum.toFloat _ = _
    rw [hbeyond]
    rfl
  have hplay : Plays (c.handler [v]) (understood line e) (.error (.ofConversion .beyondFloat))
      (understood line e) := by
    rw [hhandler, hwait]
    exact ⟨0, rfl⟩
  exact .raised hread (h.command_ne_empty hfind) hfind hbind hplay fun h => by cases h

/-- What digits with a minus sign denote. -/
def negated (digits : List Char) : Value :=
  ⟨TypeName.number, .whole (signed true (Token.wholeOf digits)), some (.ofList ('-' :: digits))⟩

/-- A pause of so many seconds less than none. -/
def negativeWait (digits : List Char) : String := .ofList ("WAIT -".toList ++ digits)

theorem read_negativeWait {digits : List Char} (hdigits : (Token.Literal.whole true digits).WellFormed) :
    Line.read Token.defaults {} (negativeWait digits) = .ok ⟨"WAIT", [negated digits]⟩ := by
  have hword : Line.IsCommandWord "WAIT".toList :=
    Line.isCommandWord_of_isNameChar (by decide) (by decide)
  have hnumber : Line.Spaced.WellFormed ⟨[' '], .whole true digits⟩ := ⟨by simp, by simp, hdigits⟩
  have hpieces : ∀ p ∈ [Line.Piece.mk [' '] ('-' :: digits)], p.word ≠ [] ∧ trim p.word = p.word :=
    List.forall_mem_singleton.mpr ⟨List.cons_ne_nil _ _, hdigits.trim_text⟩
  obtain ⟨vs, harguments, hdenotes⟩ := Line.arguments_of_literals (List.forall_mem_singleton.mpr hnumber)
  have hread := Line.read_joined hword hpieces harguments
  cases hdenotes with
  | @cons _ v _ _ hv hrest =>
    cases hrest
    obtain ⟨type, datum, literal⟩ := v
    obtain ⟨rfl, rfl, rfl⟩ := hv
    rw [Line.joined_eq, List.append_nil, List.flatMap_singleton] at hread
    exact hread

/-- **A negative pause beyond the range of floating-point numbers is not refused**: its line fails for the error
that its command has met. -/
theorem carries_negativeWait {digits : List Char} (hdigits : (Token.Literal.whole true digits).WellFormed)
    (hbeyond : ofWhole? (signed true (Token.wholeOf digits)) = none) :
    ∃ e₁, Carries (.runBatch [negativeWait digits]) plain (.ok ErrorCode.thrownError.toInt e₁) ∧
      e₁.progress.failure.map Failure.reason =
        some (.commandFailed "WAIT" (Fault.ofConversion .beyondFloat).asOrigin) := by
  have hstandard : IsStandard plain := isStandard_install {} () rfl
  have hread : Line.read plain.services.types.types {} (negativeWait digits) =
      .ok ⟨"WAIT", [negated digits]⟩ := by
    rw [hstandard.types]
    exact read_negativeWait hdigits
  have hfind := hstandard.find?_eq (c := commands[4]) (List.getElem_mem _)
  have hbeyond : (negated digits).datum.toFloat = .error .beyondFloat := by
    simp [negated, Datum.toFloat, hbeyond]
  have hbegun : IsOrdinary (beginning 0 (negativeWait digits)
      (passing 0 (opened [negativeWait digits] (entered plain)))) := (hstandard.isOrdinary nofun).of_eq rfl rfl
  have hfails := lineFails_of_beyond hbegun hread hfind rfl rfl hbeyond
  exact carries_of_fails rfl hstandard.hooks rfl hfails nofun (Reason.code_ne_zero nofun nofun)

/-- The digits of a whole number that no floating-point number is near. -/
def longDigits : List Char := '1' :: List.replicate 400 '0'

theorem wellFormed_longDigits : (Token.Literal.whole true longDigits).WellFormed := by
  refine ⟨List.cons_ne_nil _ _, List.forall_mem_cons.mpr ⟨by decide, fun c hc => ?_⟩, ?_⟩
  · rw [List.eq_of_mem_replicate hc]
    decide
  · rw [longDigits, List.length_cons, List.length_replicate]
    decide

/-- Its line is read as a negative number of seconds, and yet fails for an error that no one foresaw. -/
theorem wait_overflows :
    IsNegative (negated longDigits).datum ∧
      Line.read Token.defaults {} (negativeWait longDigits) = .ok ⟨"WAIT", [negated longDigits]⟩ ∧
      ∃ e₁, Carries (.runBatch [negativeWait longDigits]) plain (.ok ErrorCode.thrownError.toInt e₁) ∧
        e₁.progress.failure.map Failure.reason =
          some (.commandFailed "WAIT" ⟨"OverflowError", "int too large to convert to float"⟩) := by
  have hnegative : signed true (Token.wholeOf longDigits) < 0 := by decide +kernel
  exact ⟨hnegative, read_negativeWait wellFormed_longDigits,
    carries_negativeWait wellFormed_longDigits (by decide +kernel)⟩

end CommandBatch.Standard
