import CommandBatch.Proofs.Run.Containment
import CommandBatch.Proofs.Run.Unhooked

/-!
# Whose failure a run reports

The last failure, the line that runs and the text that was interpreted last are there for everyone:
handlers that interpret and execute other texts overwrite them, and so do others while a handler waits.
All the same a run that returns a code other than 0 reports the failure of the line that it stopped at
(`blames_of_run`).

The reason is that a line never ends with such a code but by noting a failure of its own, with the text
that it had before its handler was called and the index that nobody can change while the run is active
(`Notes`).  Behind that come hooks and step rules only, and these cannot note another failure unless
they interpret something.
-/

namespace CommandBatch

variable {σ : Type}

/-- The code and the failure that an entry of the transcript announces. -/
def Record.error? : Record → Option (Int × Option Failure)
  | .announced (.onError code failure) => some (code, failure)
  | _ => none

/-- The request is not to interpret a text. -/
def Request.Quiet : Request σ → Prop
  | .interpret _ => False
  | _ => True

theorem Trace.last?_push {t : Trace} (hlimit : t.limit ≠ some 0) (entry : TraceEntry) :
    (t.push entry).last? = some entry := by
  unfold Trace.push Trace.last? Trace.keepLast
  split
  · exact List.getLast?_concat
  · next n hn =>
    have hpos : n ≠ 0 := fun h => hlimit (by rw [hn, h])
    rw [List.getLast?_drop, List.getLast?_concat, if_neg]
    rw [List.length_append, List.length_singleton]
    omega

namespace Engine

open Act Process

/-- The failures that were announced, in order. -/
def errors (e : Engine σ) : List (Int × Option Failure) :=
  e.transcript.toList.filterMap Record.error?

/-- What no request touches: the frame of the run, and the failures that were announced. -/
def standing (e : Engine σ) : (Held σ × Place) × List (Int × Option Failure) := (e.frame, e.errors)

/-- What no request touches but to interpret a text. -/
def account (e : Engine σ) :
    ((Held σ × Place) × List (Int × Option Failure)) × Option Failure × Int :=
  (e.standing, e.progress.failure, e.progress.code)

/-- Since `e₀` a line has failed with this code, and no other: its failure is the last one, it is the
last line of the trace, and nothing else has been announced as a failure. -/
def Blames (e₀ : Engine σ) (code : Int) (e : Engine σ) : Prop :=
  ∃ (index : Nat) (failure : Failure) (entry : TraceEntry),
    e.progress.failure = some failure ∧ failure.code = code ∧
    e.progress.trace.last? = some entry ∧ entry.code = code ∧
    failure.line = some index ∧ entry.line = some (index : Int) ∧ failure.text = some entry.text ∧
    e.errors = e₀.errors ++ [(code, some failure)]

/-! ## What requests leave alone -/

theorem errors_push {e : Engine σ} {r : Record} (h : r.error? = none) :
    errors { e with transcript := e.transcript.push r } = e.errors := by
  simp [errors, h]

theorem standing_push {e : Engine σ} {r : Record} (hb : r.begun? = none)
    (hc : r.completion? = none) (he : r.error? = none) :
    standing { e with transcript := e.transcript.push r } = e.standing :=
  Prod.ext (frame_record hb hc) (errors_push he)

theorem standing_faced (text : String) (e : Engine σ) : (faced text e).standing = e.standing :=
  Prod.ext (frame_faced text e) rfl

theorem standing_withstands (allowed : Request σ → Prop)
    (a : (Held σ × Place) × List (Int × Option Failure)) :
    Withstands allowed fun e : Engine σ => e.standing = a :=
  sifted_withstands (fun _ => rfl) (fun _ => rfl) allowed a

theorem account_push {e : Engine σ} {r : Record} (hb : r.begun? = none)
    (hc : r.completion? = none) (he : r.error? = none) :
    account { e with transcript := e.transcript.push r } = e.account :=
  congrArg (fun a => (a, e.progress.failure, e.progress.code)) (standing_push hb hc he)

theorem account_withstands
    (a : ((Held σ × Place) × List (Int × Option Failure)) × Option Failure × Int) :
    Withstands Request.Quiet fun e : Engine σ => e.account = a where
  host _ _ he := he
  edit _ _ := preserves_edit fun e e₁ he hedited => by
    cases hedited with
    | output | noted => exact (account_push rfl rfl rfl).trans he
    | refused | set | deleted | moved | typed => exact he
  registerCommand _ _ _ := preserves_registerCommand fun _ _ he _ => he
  interpret _ hquiet := hquiet.elim

theorem errors_announcing (n : Notice) (e : Engine σ) :
    (announcing n e).errors = e.errors ++ (Record.announced n).error?.toList := by
  simp only [announcing, errors, Array.toList_push, List.filterMap_append]
  cases n <;> rfl

theorem account_announcing (code : Int) (failure : Option Failure) (e : Engine σ) :
    (announcing (.onError code failure) e).account =
      ((e.frame, e.errors ++ [(code, failure)]), e.progress.failure, e.progress.code) := by
  have hframe : (announcing (.onError code failure) e).frame = e.frame := frame_record rfl rfl
  have herrors : (announcing (.onError code failure) e).errors = e.errors ++ [(code, failure)] :=
    errors_announcing _ e
  rw [account, standing, hframe, herrors]
  rfl

/-! ## A line -/

variable {others : Engine σ → Engine σ → Prop} {W : Engine σ → Prop}

/-- A failure with this code belongs to the line of an index. -/
def Notes (index : Nat) (text : String) (code : Int) (e : Engine σ) : Prop :=
  ∃ r : Reason, r.code = code ∧ e.progress.failure = some ⟨r, some index, some text⟩

/-- What nobody changes once the line of an index has been announced on an engine. -/
def opening (index : Nat) (text : String) (e : Engine σ) :
    (Held σ × Place) × List (Int × Option Failure) :=
  ((e.held, ⟨some index, e.progress.trace, e.begun ++ [(index, text)]⟩), e.errors)

/-- The line of an index, opened on `e₀`, has come to a code so far. -/
structure Underway (e₀ : Engine σ) (index : Nat) (text : String) (code : Int) (e : Engine σ) :
    Prop where
  standing : e.standing = opening index text e₀
  notes : code ≠ 0 → Notes index text code e

section

variable {e₀ e : Engine σ} {index : Nat} {text : String}

theorem busy_of_opening (hbusy : e₀.busy = true) (h : e.standing = opening index text e₀) :
    e.busy = true :=
  (congrArg (fun a => a.1.1.busy) h : e.busy = e₀.busy).trans hbusy

/-- Which line runs is part of what nobody changes. -/
theorem notes_failing (hbusy : e₀.busy = true) (h : e.standing = opening index text e₀) (r : Reason) :
    Notes index text r.code (failing r text e) := by
  have hindex : e.place.index = some index := congrArg (fun a => a.1.2.index) h
  rw [place, busy_of_opening hbusy h, if_pos rfl] at hindex
  refine ⟨r, rfl, ?_⟩
  rw [← hindex]
  rfl

theorem ensures_interpret (hbusy : e₀.busy = true) (h : e.standing = opening index text e₀) :
    (interpret text).Ensures
      (fun code e₁ => Underway e₀ index text code e₁ ∧ e₁.progress.text = text)
      (fun _ _ => True) e := by
  have hfaced : (faced text e).standing = opening index text e₀ := (standing_faced text e).trans h
  unfold Act.Ensures
  rw [interpret_eq]
  cases Line.read e.services.types.types e.setup.marks text with
  | ok line => exact ⟨⟨hfaced, fun hcode => absurd rfl hcode⟩, rfl⟩
  | error fault =>
    cases fault with
    | failure f => exact ⟨⟨hfaced, fun _ => notes_failing hbusy hfaced _⟩, rfl⟩
    | _ => trivial

theorem ensures_openLine (hbusy : e₀.busy = true) :
    (openLine index text).Ensures
      (fun code e₁ => Underway e₀ index text code e₁ ∧ e₁.progress.text = text)
      (fun _ _ => True) e₀ := by
  have hopening : (announcing (.beforeLine index text)
      { e₀ with progress := { e₀.progress with index := some index } }).standing =
        opening index text e₀ := by
    refine Prod.ext (Prod.ext (held_announcing _ _) ?_) ?_
    · simp [standing, frame, place, opening, announcing, begun, hbusy, Record.begun?]
    · exact (errors_announcing _ _).trans (List.append_nil _)
  have hannounce := (standing_withstands (fun _ => True) (opening index text e₀)).announce
    (fun e number n h => (standing_push rfl rfl rfl).trans h)
    (e := { e₀ with progress := { e₀.progress with index := some index } })
    (e₀.services.hooks.asks_of_all fun _ => trivial) hopening
  exact ensures_bind (ensures_bind (hannounce.mono
    (fun _ e₁ h => ensures_interpret hbusy h) fun _ _ _ => trivial))

/-- **A line that comes to a code other than 0 has noted a failure of its own**, whatever its handler
and others have noted before. -/
theorem ensures_executeUnless (hbusy : e₀.busy = true)
    (hothers : ∀ e e₁ : Engine σ, others e e₁ → e₁.standing = e.standing) {code : Int} (fuel : Nat)
    (h : Underway e₀ index text code e) (htext : e.progress.text = text) :
    (executeUnless (carryOut fuel) code e).Ensures others (fun _ => True)
      (fun code => Underway e₀ index text code) fun _ _ => True := by
  by_cases hcode : code = 0
  · have hsteadfast : Steadfast others (fun _ => True)
        fun e₁ => e₁.standing = opening index text e₀ :=
      { toWithstands := standing_withstands _ _
        busy := fun _ => busy_of_opening hbusy
        others := fun e e₁ he hmet => (hothers e e₁ hmet).trans he
        failing := fun _ _ _ he => he
        calls := fun _ _ command args _ _ => Script.asks_of_all (fun _ => trivial) (command.handler args) }
    simp only [executeUnless, if_pos hcode]
    -- The text that a failure is noted with was taken before the handler was called.
    refine ensures_execute h.standing (fun command args _ _ => ?_)
      (fun e₁ he => ⟨he, fun hzero => absurd rfl hzero⟩)
      (fun r e₁ he => ⟨he, fun _ => htext ▸ notes_failing hbusy he r⟩) fun _ _ _ _ => trivial
    exact (hsteadfast.playOut (hsteadfast.carryOut fuel) _
      (Script.asks_of_all (fun _ => trivial) (command.handler args)) e h.standing).mono
        (fun _ _ => trivial) (fun _ _ he => he) fun _ _ he => he
  · simp only [executeUnless, if_neg hcode]
    exact ensures_pure h

/-- Hooks and step rules that are quiet change nothing of what a line has come to. -/
theorem ensures_closeLine {code : Int} (hquiet : e.services.hooks.Asks Request.Quiet) :
    (closeLine index text code).Ensures
      (fun code₁ e₁ => code₁ = code ∧ e₁.account =
        (((logged index text code e).frame,
          e.errors ++ if code = 0 then [] else [(code, e.progress.failure)]),
          e.progress.failure, e.progress.code))
      (fun _ _ => True) e := by
  have hhooks (e₁ : Engine σ) (h : e₁.account = (logged index text code e).account) :
      e₁.services.hooks.Asks Request.Quiet := by
    have hsame : e₁.services.hooks = e.services.hooks := congrArg (fun a => a.1.1.1.hooks) h
    rwa [← hsame] at hquiet
  have hlog := (account_withstands (logged index text code e).account).logStep
    (fun _ _ h => (account_push rfl rfl rfl).trans h) hquiet rfl (fun _ _ => trivial) fun _ => trivial
  refine ensures_closing (F := fun _ => True) hlog fun e₁ h₁ => ?_
  have hafter := (account_withstands (logged index text code e).account).announce
    (fun _ _ _ h => (account_push rfl rfl rfl).trans h) (hhooks e₁ h₁)
    (n := .afterLine index text code) ((account_push rfl rfl rfl).trans h₁)
  refine hafter.mono (fun _ e₂ h₂ => ?_) fun _ _ _ => trivial
  by_cases hcode : code = 0
  · rw [if_pos hcode, if_pos hcode, List.append_nil]
    exact h₂
  · rw [if_neg hcode, if_neg hcode]
    have herror := (account_withstands
      (announcing (.onError code e₂.progress.failure) e₂).account).announce
        (fun _ _ _ h => (account_push rfl rfl rfl).trans h) (hhooks e₂ h₂) rfl
    refine herror.mono (fun _ e₃ h₃ => ?_) fun _ _ _ => trivial
    obtain ⟨hstanding, hnoted⟩ := Prod.mk.inj h₂
    obtain ⟨hframe, herrors⟩ := Prod.mk.inj hstanding
    obtain ⟨hfailure, hreported⟩ := Prod.mk.inj hnoted
    refine h₃.trans ?_
    rw [account_announcing, hframe, herrors, hfailure, hreported]
    rfl

end

/-! ## A run -/

/-- Since `e₀`, the lines of a run have come to a code. -/
structure Settled (e₀ : Engine σ) (code : Int) (e : Engine σ) : Prop where
  held : e.held = e₀.held
  limit : e.progress.trace.limit = e₀.progress.trace.limit
  clean : code = 0 → e.errors = e₀.errors
  blames : code ≠ 0 → Blames e₀ code e

theorem Blames.congr {e₀ e e₁ : Engine σ} {code : Int} (h : Blames e₀ code e)
    (hfailure : e₁.progress.failure = e.progress.failure)
    (htrace : e₁.progress.trace = e.progress.trace) (herrors : e₁.errors = e.errors) :
    Blames e₀ code e₁ := by
  unfold Blames at h ⊢
  rwa [hfailure, htrace, herrors]

theorem last?_logged {index : Nat} {text : String} {code : Int} {e : Engine σ}
    (hlimit : e.progress.trace.limit ≠ some 0) :
    (logged index text code e).progress.trace.last? = some (entryOf index text code e) :=
  Trace.last?_push hlimit _

/-- What a line comes to is what its batch has come to. -/
theorem settled_of_closed {e₀ e e₁ e₂ : Engine σ} {index : Nat} {text : String} {code : Int}
    (hlimit : e₀.progress.trace.limit ≠ some 0) (h : Settled e₀ 0 e)
    (hline : Underway e index text code e₁)
    (hclosed : e₂.account = (((logged index text code e₁).frame,
      e₁.errors ++ if code = 0 then [] else [(code, e₁.progress.failure)]),
      e₁.progress.failure, e₁.progress.code)) : Settled e₀ code e₂ := by
  have hheld₁ : e₁.held = e.held := congrArg (fun a => a.1.1) hline.standing
  have htrace₁ : e₁.progress.trace = e.progress.trace :=
    congrArg (fun a => a.1.2.trace) hline.standing
  have herrors₁ : e₁.errors = e₀.errors :=
    (congrArg Prod.snd hline.standing).trans (h.clean rfl)
  have htrace₂ : e₂.progress.trace = (logged index text code e₁).progress.trace :=
    congrArg (fun a => a.1.1.2.trace) hclosed
  have herrors₂ : e₂.errors = e₁.errors ++ if code = 0 then [] else [(code, e₁.progress.failure)] :=
    congrArg (fun a => a.1.2) hclosed
  have hlimit₁ : e₁.progress.trace.limit = e₀.progress.trace.limit := by
    rw [htrace₁]
    exact h.limit
  refine ⟨?_, ?_, fun hzero => ?_, fun hcode => ?_⟩
  · have hheld₂ : e₂.held = e₁.held := congrArg (fun a => a.1.1.1) hclosed
    exact (hheld₂.trans hheld₁).trans h.held
  · rw [htrace₂]
    exact hlimit₁
  · rw [herrors₂, if_pos hzero, List.append_nil, herrors₁]
  · obtain ⟨r, hr, hnoted⟩ := hline.notes hcode
    have hfailure₂ : e₂.progress.failure = e₁.progress.failure := congrArg (fun a => a.2.1) hclosed
    refine ⟨index, _, entryOf index text code e₁, hfailure₂.trans hnoted, hr, ?_, rfl, rfl, rfl, rfl, ?_⟩
    · -- The line is the last that was taken up, so a trace that keeps any keeps it.
      rw [htrace₂]
      exact last?_logged (by rwa [hlimit₁])
    · rw [herrors₂, if_neg hcode, herrors₁, hnoted]

theorem ensures_step (e₀ : Engine σ) {e : Engine σ} (hbusy : e₀.busy = true)
    (hlimit : e₀.progress.trace.limit ≠ some 0) (hquiet : e₀.services.hooks.Asks Request.Quiet)
    (hothers : ∀ e e₁ : Engine σ, others e e₁ → e₁.standing = e.standing) (fuel index : Nat)
    (text : String) (h : Settled e₀ 0 e) :
    (step (carryOut fuel) index text e).Ensures others (fun _ => True) (Settled e₀)
      fun _ _ => True := by
  have hhooks (e₁ : Engine σ) (h₁ : e₁.held = e₀.held) : e₁.services.hooks.Asks Request.Quiet := by
    rwa [hooks_of_held h₁]
  have hbusy' : e.busy = true := (busy_of_held h.held).trans hbusy
  have hopen : (openLine index text).Ensures _ _ e := ensures_openLine hbusy'
  refine ensures_bind (ensures_ofAct (hopen.mono (fun code e₁ h₁ => ?_) fun _ _ _ => trivial))
  have hexecute := ensures_executeUnless hbusy' hothers fuel h₁.1 h₁.2
  refine ensures_bind (hexecute.mono (fun _ h => h) (fun code₁ e₂ h₂ => ?_) fun _ _ _ => trivial)
  have hheld₂ : e₂.held = e.held := congrArg (fun a => a.1.1) h₂.standing
  have hclose : (closeLine index text code₁).Ensures _ _ e₂ :=
    ensures_closeLine (hhooks e₂ (hheld₂.trans h.held))
  refine ensures_ofAct (hclose.mono (fun code₂ e₃ h₃ => ?_) fun _ _ _ => trivial)
  obtain ⟨rfl, hclosed⟩ := h₃
  exact settled_of_closed hlimit h h₂ hclosed

/-- How a run stands that returns a code other than 0: it has been reported, and the host has been told
on such an engine. -/
def Returns (e₀ : Engine σ) (code : Int) (e₂ : Engine σ) : Prop :=
  ∃ e₁ : Engine σ, Blames e₀ code e₁ ∧ e₁.progress.code = code ∧ callBack code e₁ = .ok code e₂ ∧
    ((∀ script, e₀.setup.onCompletion = some script → (script code).Asks Request.Quiet) →
      Blames e₀ code e₂ ∧ e₂.progress.code = code)

theorem ensures_complete {e₀ e : Engine σ} {code : Int}
    (hquiet : e₀.services.hooks.Asks Request.Quiet) (h : Settled e₀ code e) :
    (complete code).Ensures (fun code₁ e₂ => code₁ ≠ 0 → Returns e₀ code₁ e₂) (fun _ _ => True)
      (freed e) := by
  have hhooks : (freed e).services.hooks.Asks Request.Quiet := by
    have hsame : e.services.hooks = e₀.services.hooks := hooks_of_held h.held
    rwa [← hsame] at hquiet
  have hannounce := (account_withstands
    (announcing (.batchEnd code) { freed e with progress := { e.progress with code } }).account).announce
      (fun _ _ _ h => (account_push rfl rfl rfl).trans h)
      (e := { freed e with progress := { e.progress with code } })
      hhooks rfl
  refine ensures_bind (ensures_bind (hannounce.mono (fun _ e₁ h₁ => ?_) fun _ _ _ => trivial))
  have h₁ : e₁.account = { freed e with progress := { e.progress with code } : Engine σ }.account :=
    h₁.trans (account_push rfl rfl rfl)
  have hcode₁ : (completing code e₁).progress.code = code := congrArg (fun a => a.2.2) h₁
  have hsetup₁ : (completing code e₁).setup = e₀.setup :=
    (congrArg (fun a => a.1.1.1.setup) h₁ : e₁.setup = e.setup).trans (congrArg Held.setup h.held)
  show (callBack code).Ensures _ _ (completing code e₁)
  unfold Act.Ensures
  cases hcall : callBack code (completing code e₁) with
  | error => trivial
  | ok code₁ e₂ =>
    obtain ⟨rfl, -⟩ := callBack_eq_ok hcall
    intro hcode
    have hblames₁ : Blames e₀ code₁ (completing code₁ e₁) :=
      (h.blames hcode).congr (congrArg (fun a => a.2.1) h₁) (congrArg (fun a => a.1.1.2.trace) h₁)
        ((errors_push rfl).trans (congrArg (fun a => a.1.2) h₁))
    refine ⟨_, hblames₁, hcode₁, hcall, fun hscript => ?_⟩
    have h₂ := (account_withstands _).callBack (e := completing code₁ e₁) (by rwa [hsetup₁]) rfl
    unfold Act.Ensures at h₂
    rw [hcall] at h₂
    refine ⟨hblames₁.congr (congrArg (fun a => a.2.1) h₂) (congrArg (fun a => a.1.1.2.trace) h₂)
      (congrArg (fun a => a.1.2) h₂), ?_⟩
    exact (congrArg (fun a => a.2.2) h₂).trans hcode₁

theorem ensures_openBatch (e₀ : Engine σ) (hquiet : e₀.services.hooks.Asks Request.Quiet)
    (lines : List String) (cursor : Int) :
    (openBatch lines cursor).Ensures (fun _ => Settled e₀ 0) (fun _ _ => True) e₀ := by
  have hannounce := (account_withstands e₀.account).announce
    (fun _ _ _ h => (account_push rfl rfl rfl).trans h) (n := .batchStart lines)
    (e := { e₀ with progress := { e₀.progress with batch := lines, cursor } }) hquiet
    (account_push (e := e₀) (r := .announced (.batchStart lines)) rfl rfl rfl)
  refine ensures_bind (hannounce.mono (fun _ e₁ h₁ => ?_) fun _ _ _ => trivial)
  exact ⟨congrArg (fun a => a.1.1.1) h₁, congrArg (fun a => a.1.1.2.trace.limit) h₁,
    fun _ => congrArg (fun a => a.1.2) h₁, fun h => absurd rfl h⟩

/-- **The failure that a run reports belongs to the line it stopped at.**  Whatever the handlers did,
and others while a handler waited, a run that returns a code other than 0 has noted the failure of the
last line of its trace, with this code, and announced it as the only one.  So it stands when the host
is told the code, and still behind that if the host does not interpret a text then.  A trace that keeps
no entries at all, which a new engine never has, would have no last line. -/
theorem blames_of_run {t : Task} {e e₂ : Engine σ} {code : Int} (hrun : t ≠ .execute)
    (hidle : e.busy = false) (hlimit : e.progress.trace.limit ≠ some 0)
    (hquiet : e.services.hooks.Asks Request.Quiet) (hcode : code ≠ 0)
    (h : CarriesAmid (Meddled fun _ => True) t e (.ok code e₂)) : Returns e code e₂ := by
  have hothers (e e₁ : Engine σ) (hmet : Meddled (fun _ => True) e e₁) :
      e₁.standing = e.standing :=
    (standing_withstands _ e.standing).meddled (fun _ _ _ h => h) rfl hmet
  obtain ⟨_ | fuel, h⟩ := h
  · cases h
  have hensures : (carryOut (fuel + 1) t e).Ensures (Meddled fun _ => True) (fun _ => True)
      (fun code₁ e₂ => code₁ ≠ 0 → Returns (entered e) code₁ e₂) fun _ _ => True := by
    refine ensures_run (L := Settled (entered e)) (G := fun _ _ => True) hrun hidle
      (ensures_openBatch (entered e) hquiet) (fun _ _ h₁ => ⟨h₁.held, h₁.limit, h₁.clean, h₁.blames⟩)
      (fun index text e₁ h₁ => ?_) (fun _ _ => trivial) (fun _ _ h₁ => ensures_complete hquiet h₁)
      fun _ _ _ => trivial
    exact ensures_step (entered e) rfl hlimit hquiet hothers fuel index text h₁
  exact hensures.of_ok h hcode

/-- A command that has a text interpreted which cannot be read, waits, and gives up for a reason of its
own. -/
def stumbling : Command (Handler Unit) where
  signature := { name := "FAIL", params := [] }
  handler := fun _ => .interpret "C 1x" fun _ => .wait .block (.failWith (.thrown "stop" 5 none))

theorem blames_of_run_stumbling :
    ∃ e₂, CarriesAmid (Meddled fun _ => True) (.runBatch ["FAIL", "FAIL"]) (hosted [] [stumbling])
      (.ok 5 e₂) ∧ Returns (hosted [] [stumbling]) 5 e₂ := by
  obtain ⟨r, hcarries, hreturns⟩ := carries_of_any (t := .runBatch ["FAIL", "FAIL"])
    (e := hosted [] [stumbling]) 3 (returns 5 fun _ => true) (by decide +kernel)
  obtain ⟨e₂, rfl, -⟩ := of_returns hreturns
  have hamid : CarriesAmid (Meddled fun _ => True) _ _ _ := carriesAmid_of_carries .refl hcarries
  exact ⟨e₂, hamid, blames_of_run (by simp) rfl (by simp [hosted])
    ⟨fun _ h => (nomatch h), fun _ h => (nomatch h)⟩ (by simp) hamid⟩

end Engine

end CommandBatch
