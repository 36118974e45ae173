import CommandBatch.Proofs.Standard.Splitting
import Mathlib.Data.List.Perm.Subperm

/-!
# Batches that only jump forward

A batch may run for ever, since a `GOTO` may lead back.  Where none does, the batch ends.  Behind a line that
succeeds the cursor stands behind that line or has left the batch, so the lines that are left (`remaining`)
become fewer with every line: a batch cannot run more lines than it has, and runs them in the order in which
they stand.

What counts is only the jumps that are made.  The target of a `GOTO` may come from a variable that the batch
has set, so `LeadsForward` speaks of the lines that the batch comes to, with the variables as they are then.
-/

namespace CommandBatch

open Text Engine Process

/-- How many lines of the batch stand from the cursor on; none if it stands in front of the first one. -/
def Progress.remaining (p : Progress) : Nat := if p.cursor < 0 then 0 else p.batch.length - p.cursor.toNat

namespace Standard

variable {σ : Type}

/-- With these variables, the line is a `GOTO` with this whole number for its target. -/
def Language.GoesTo (l : Language) (env : Environment) (text : String) (goal : Int) : Prop :=
  ∃ line signature target, Line.read l.types l.marks text = .ok line ∧
    l.commands.get? (upper line.command) = some signature ∧ signature.name = "GOTO" ∧
    signature.bind env line.args = .ok [target] ∧ wholeOf "GOTO" target = .ok goal

/-- Every `GOTO` with a whole number that the engine comes to, as it goes on with its batch, leads behind its
own line or in front of the first one. -/
def LeadsForward (l : Language) (e : Engine σ) : Prop :=
  ∀ ran e₁ index text goal, Runs e ran e₁ → nextLine? e₁.progress = some (index, text) →
    l.GoesTo e₁.env text goal → (index : Int) < goal ∨ goal < 0

/-- Lines of a batch in the order in which they stand, from an index on. -/
structure InOrder (lines : List String) (start : Int) (executed : List (Nat × String)) : Prop where
  ascending : executed.Pairwise (·.1 < ·.1)
  behind : ∀ v ∈ executed, 0 ≤ start ∧ start ≤ v.1
  texts : ∀ v ∈ executed, lines[v.1]? = some v.2

/-! ## Jumps -/

theorem goto_of_jump {commands : OrderedMap Signature} {env : Environment} {name : String}
    {args : List Value} {eff : Effect} {goal : Int} (h : effect commands env name args = .ok eff)
    (hflow : eff.flow = .jump goal) :
    name = "GOTO" ∧ ∃ target, args = [target] ∧ wholeOf "GOTO" target = .ok goal := by
  by_cases hgoto : name = "GOTO"
  · subst hgoto
    refine ⟨rfl, ?_⟩
    match args with
    | [target] =>
      obtain ⟨goal₁, hwhole, hok⟩ := bind_eq_ok_iff.mp h
      cases hok
      cases hflow
      cases hwhole₁ : wholeOf "GOTO" target with
      | ok goal₂ =>
        rw [hwhole₁] at hwhole
        cases hwhole
        exact ⟨target, rfl, hwhole₁⟩
      | error fault =>
        rw [hwhole₁] at hwhole
        cases hwhole
    | [] | _ :: _ :: _ =>
      cases h
      cases hflow
  · by_cases hexit : name = "EXIT"
    · subst hexit
      match args with
      | [] =>
        cases h
        cases hflow
      | code :: _ =>
        obtain ⟨n, -, hn⟩ := bind_eq_ok_iff.mp h
        split at hn <;> cases hn
        cases hflow
    · rw [(effect_cases h).2 hgoto hexit] at hflow
      cases hflow

/-- Only a `GOTO` jumps, and to its target. -/
theorem Language.goesTo_of_run {l : Language} {env : Environment} {text : String} {eff : Effect} {goal : Int}
    (hrun : l.run env text = .ok eff) (hflow : eff.flow = .jump goal) : l.GoesTo env text goal := by
  obtain ⟨line, hread, ⟨-, rfl⟩ | ⟨signature, args, hfound, hbound, heffect⟩⟩ := Language.run_eq_ok hrun
  · cases hflow
  · obtain ⟨hname, target, rfl, hwhole⟩ := goto_of_jump heffect hflow
    exact ⟨line, signature, target, hread, hfound, hname, hbound, hwhole⟩

/-! ## The lines that are left -/

/-- A cursor that has moved behind the line that it stood at, or out of the batch, leaves fewer lines. -/
theorem remaining_lt {p p₁ : Progress} {index : Nat} {text : String}
    (hnext : nextLine? p = some (index, text)) (hbatch : p₁.batch = p.batch)
    (hcursor : (index : Int) < p₁.cursor ∨ p₁.cursor < 0) : p₁.remaining < p.remaining := by
  obtain ⟨hindex, htext⟩ := nextLine?_eq_some_iff.mp hnext
  obtain ⟨hlt, -⟩ := List.getElem?_eq_some_iff.mp htext
  unfold Progress.remaining
  rw [hbatch]
  split <;> split <;> omega

variable {e e₁ : Engine σ} {l : Language} {lines : List String} {index : Nat} {text : String}

theorem LeadsForward.step (h : LeadsForward l e) (hnext : nextLine? e.progress = some (index, text))
    (hends : LineEnds index text (passing index e) (.ok 0 e₁)) : LeadsForward l e₁ :=
  fun ran e₂ index₂ text₂ goal hruns =>
    h ((index, text) :: ran) e₂ index₂ text₂ goal (.line hnext hends hruns)

/-- **A line moves the cursor forward**, or out of the batch, unless it fails. -/
theorem Standing.moves_forward (h : Standing l lines e) (hforward : LeadsForward l e)
    (hnext : nextLine? e.progress = some (index, text))
    (hends : LineEnds index text (passing index e) (.ok 0 e₁)) :
    (index : Int) < e₁.progress.cursor ∨ e₁.progress.cursor < 0 := by
  obtain ⟨-, -, hfollows, -⟩ := h.of_line hends
  generalize hrun : l.run e.env text = meaning at hfollows
  cases hfollows with
  | failure _ _ _ hcode => exact absurd rfl hcode
  | @success eff _ _ _ hcursor =>
    rw [hcursor, cursor_passing]
    cases hflow : eff.flow with
    | next => exact .inl (by simp [Flow.target])
    | leave =>
      obtain ⟨-, htext⟩ := nextLine?_eq_some_iff.mp hnext
      obtain ⟨hlt, -⟩ := List.getElem?_eq_some_iff.mp htext
      exact .inl (by simpa [Flow.target] using hlt)
    | jump goal =>
      exact hforward [] e index text goal (.refl e) hnext (Language.goesTo_of_run hrun hflow)

/-! ## Batches -/

namespace InOrder

variable {start : Int} {executed : List (Nat × String)}

theorem nil : InOrder lines start [] := ⟨.nil, nofun, nofun⟩

/-- One more line in front, of which the others leave the cursor behind. -/
theorem cons {next : Int} (h : InOrder lines next executed) (hnext : (index : Int) < next ∨ next < 0)
    (htext : lines[index]? = some text) : InOrder lines index ((index, text) :: executed) where
  ascending := by
    refine List.pairwise_cons.mpr ⟨fun v hv => ?_, h.ascending⟩
    have hv := h.behind v hv
    show index < v.1
    omega
  behind := by
    refine List.forall_mem_cons.mpr ⟨⟨Int.natCast_nonneg index, Int.le_refl _⟩, fun v hv => ?_⟩
    have hv := h.behind v hv
    omega
  texts := List.forall_mem_cons.mpr ⟨htext, h.texts⟩

/-- There are no more of them than lines. -/
theorem length_le (h : InOrder lines start executed) : executed.length ≤ lines.length := by
  have hnodup : (executed.map Prod.fst).Nodup := (List.pairwise_map.mpr h.ascending).imp Nat.ne_of_lt
  have hsubset : executed.map Prod.fst ⊆ List.range lines.length := by
    intro index hindex
    obtain ⟨v, hv, rfl⟩ := List.mem_map.mp hindex
    exact List.mem_range.mpr (List.getElem?_eq_some_iff.mp (h.texts v hv)).1
  calc executed.length = (executed.map Prod.fst).length := (List.length_map ..).symm
    _ ≤ (List.range lines.length).length := (hnodup.subperm hsubset).length_le
    _ = lines.length := List.length_range

end InOrder

/-- A batch that stops has come to a code, unless it has broken off over variables of a verbose engine that
cannot be written. -/
def HasEnded (e : Engine σ) (r : EStateM.Result Fault (Engine σ) Int) : Prop :=
  (∃ code e₁, r = .ok code e₁) ∨ ¬e.Recordable ∧ ∃ e₁, r = .error (.ofConversion .unwritable) e₁

/-- From where it stands, the batch runs lines in the order in which they stand, and stops.  The induction is on
the lines that are left. -/
theorem Standing.stops_forward (h : Standing l lines e) (hforward : LeadsForward l e) :
    ∃ ran e₁ last r, Runs e ran e₁ ∧ Stops e₁ last r ∧ HasEnded e r ∧
      InOrder lines e.progress.cursor (ran ++ last.toList) := by
  induction hremaining : e.progress.remaining using Nat.strong_induction_on generalizing e with
  | _ remaining ih =>
    cases hnext : nextLine? e.progress with
    | none => exact ⟨[], e, none, .ok 0 e, .refl e, .behind hnext, .inl ⟨0, e, rfl⟩, .nil⟩
    | some next =>
      obtain ⟨index, text⟩ := next
      obtain ⟨hcursor, htext⟩ := nextLine?_eq_some_iff.mp hnext
      rw [h.batch] at htext
      have hlast : InOrder lines index [(index, text)] :=
        InOrder.nil.cons (.inr (by decide : (-1 : Int) < 0)) htext
      rw [hcursor]
      by_cases hrecords : Records e text
      case neg =>
        obtain ⟨-, e₁, hends, -⟩ := h.unrecorded hrecords index
        exact ⟨[], e, some (index, text), _, .refl e, .broken hnext hends,
          .inr ⟨fun hrecordable => hrecords (h.standard.records hrecordable text), e₁, rfl⟩, hlast⟩
      obtain ⟨code, e₁, hends⟩ := h.line hrecords index
      obtain ⟨hstanding, hrecordable, -⟩ := h.of_line hends
      by_cases hcode : code = 0
      · subst hcode
        have hmoved := h.moves_forward hforward hnext hends
        have hfewer : e₁.progress.remaining < remaining :=
          hremaining ▸ remaining_lt hnext (hstanding.batch.trans h.batch.symm) hmoved
        obtain ⟨ran, e₂, last, r, hruns, hstops, hcomes, horder⟩ :=
          ih _ hfewer hstanding (hforward.step hnext hends) rfl
        -- Behind a line that was recorded, all variables can be written.
        exact ⟨(index, text) :: ran, e₂, last, r, .line hnext hends hruns, hstops,
          .inl (hcomes.resolve_right fun hbroken => hbroken.1 hrecordable), horder.cons hmoved htext⟩
      · exact ⟨[], e, some (index, text), _, .refl e, .failed hnext hends hcode, .inl ⟨code, e₁, rfl⟩, hlast⟩

/-- **A batch that only jumps forward ends.**  Whatever its lines hold, it comes to a code, of which the host
is told; only for variables that a verbose engine cannot write, and that must have been there before, it breaks
off.  Up to then it has begun lines in the order in which they stand, each at most once, and no more of them
than it has. -/
theorem forward_batch_ends {e : Engine σ} (hstandard : IsStandard e) (hidle : e.busy = false)
    (lines : List String) (hforward : LeadsForward (language e) (opened lines (entered e))) :
    ∃ (executed : List (Nat × String)) (r : EStateM.Result Fault (Engine σ) Int) (e₁ : Engine σ),
      Carries (.runBatch lines) e r ∧
      ((∃ code, r = callBack code e₁) ∨ ¬e.Recordable ∧ r = .error (.ofConversion .unwritable) e₁) ∧
      e₁.begun = e.begun ++ executed ∧ executed.Pairwise (·.1 < ·.1) ∧
      (∀ v ∈ executed, lines[v.1]? = some v.2) ∧ executed.length ≤ lines.length := by
  obtain ⟨ran, e₁, last, r, hruns, hstops, hcomes, horder⟩ :=
    (hstandard.standing lines).stops_forward hforward
  rcases hcomes with ⟨code, e₂, rfl⟩ | ⟨hrecordable, e₂, rfl⟩
  · obtain ⟨-, hbegun, hcarries⟩ := batch_of_stops hidle hstandard.hooks hruns hstops
    rw [List.append_assoc] at hbegun
    exact ⟨ran ++ last.toList, _, completed code (freed e₂), (hcarries _).mpr rfl, .inl ⟨code, rfl⟩, hbegun,
      horder.ascending, horder.texts, horder.length_le⟩
  · obtain ⟨-, hbegun, hcarries⟩ := batch_of_breaks hidle hstandard.hooks hruns hstops
    rw [List.append_assoc] at hbegun
    exact ⟨ran ++ last.toList, _, freed e₂, (hcarries _).mpr rfl, .inr ⟨hrecordable, rfl⟩, hbegun,
      horder.ascending, horder.texts, horder.length_le⟩

theorem forward_batch_ends_skipping :
    LeadsForward (language plain) (opened ["GOTO 2", "PRINT 1", "EXIT 4"] (entered plain)) ∧
      ∃ executed code e₁,
        Carries (.runBatch ["GOTO 2", "PRINT 1", "EXIT 4"]) plain (callBack code e₁) ∧
          e₁.begun = plain.begun ++ executed ∧ executed.length ≤ 3 := by
  have hstandard : IsStandard plain := isStandard_install {} () rfl
  have hforward : LeadsForward (language plain) (opened ["GOTO 2", "PRINT 1", "EXIT 4"] (entered plain)) := by
    rintro ran e₁ index text goal hruns hnext ⟨line, signature, target, hread, hfound, hname, hbound, hwhole⟩
    obtain ⟨-, htext⟩ := nextLine?_eq_some_iff.mp hnext
    rw [((hstandard.standing _).runs hruns).batch] at htext
    match index with
    | 0 =>
      cases htext
      cases hread
      cases hfound
      cases hbound
      cases hwhole
      exact .inl (by decide)
    | 1 | 2 =>
      cases htext
      cases hread
      cases hfound
      exact absurd hname (by decide)
    | _ + 3 => cases htext
  obtain ⟨executed, r, e₁, hcarries, hended, hbegun, -, -, hlength⟩ :=
    forward_batch_ends hstandard rfl _ hforward
  obtain ⟨code, rfl⟩ := hended.resolve_right fun hbroken => hbroken.1 nofun
  exact ⟨hforward, executed, code, e₁, hcarries, hbegun, hlength⟩

end Standard

end CommandBatch
