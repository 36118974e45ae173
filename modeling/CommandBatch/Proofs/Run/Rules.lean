import CommandBatch.Proofs.Registry.StepRules
import CommandBatch.Proofs.Run.Lasting
import CommandBatch.Proofs.Run.Lines
import CommandBatch.Proofs.Run.Trace

/-!
# When step rules are called

Of each line that a run carries out to its end the transcript has the beats in this order: the line is
opened, the rules that are due at its step are called one after the other, and then the hooks behind it
(`Step.beats`).  The step of a line is the number of lines before it in the same run.  The trace counts
them, however few of its entries it keeps, and every run begins with none, whatever became of the runs
before it; the lines may be in any order, since jumps change only which of them come next.

`Timed` says so of a run up to any moment.  It is kept by what a line does while it is opened and
executed, none of which has a beat (`Timed.rest`), and by the end of a line (`Timed.close`).  A rule for every
`n` steps is thereby called at the multiples of `n` among the steps of the run (`calls_course`).
-/

namespace CommandBatch

open RuleRequest

variable {σ H R : Type}

/-! ## Beats -/

/-- What an entry of the transcript says about the time of step rules: a line was opened, a rule was
called, or a hook was told that a line is over. -/
inductive Beat where
  | opened (index : Nat) (text : String)
  | fired (number : Nat) (context : StepContext)
  | heard (number index : Nat) (text : String) (code : Int)
  deriving DecidableEq, Repr

def Record.beat? : Record → Option Beat
  | .announced (.beforeLine index text) => some (.opened index text)
  | .ruleFired number context => some (.fired number context)
  | .hookCalled number (.afterLine index text code) => some (.heard number index text code)
  | _ => none

/-- What the rule of a number was told. -/
def Beat.call? (number : Nat) : Beat → Option StepContext
  | .fired other context => if other = number then some context else none
  | _ => none

/-- A line that was run, with the command that its step was logged with and the numbers of the hooks
that were told behind it. -/
structure Step extends Visit where
  command : String
  heard : List Nat

namespace Step

/-- What rules are told of the step of a number. -/
def context (s : Step) (i : Nat) : StepContext := ⟨i, s.index, s.command, s.code⟩

/-- The beats of a line whose step has this number, with the rules that are due at it. -/
def beats (s : Step) (rules : List (StepRule R)) (i : Nat) : List Beat :=
  .opened s.index s.text :: rules.map (fun rule => .fired rule.number (s.context i)) ++
    s.heard.map fun number => .heard number s.index s.text s.code

end Step

/-- The beats of the steps of a run. -/
def HookRegistry.course (r : HookRegistry H R) (steps : List Step) : List Beat :=
  (steps.mapIdx fun i s => s.beats (r.rulesAt i) i).flatten

theorem course_concat (r : HookRegistry H R) (steps : List Step) (s : Step) :
    r.course (steps ++ [s]) = r.course steps ++ s.beats (r.rulesAt steps.length) steps.length := by
  simp [HookRegistry.course, List.mapIdx_concat]

theorem filterMap_beats (rules : List (StepRule R)) (s : Step) (i j : Nat) :
    (s.beats rules i).filterMap (Beat.call? j) =
      rules.filterMap fun rule => if rule.number = j then some (s.context i) else none := by
  have hheard : (s.heard.map fun number => Beat.heard number s.index s.text s.code).filterMap
      (Beat.call? j) = [] := by
    rw [List.filterMap_map]
    exact List.filterMap_eq_nil_iff.mpr fun _ _ => rfl
  rw [Step.beats, List.filterMap_append, hheard, List.append_nil, List.filterMap_cons, List.filterMap_map]
  rfl

/-- **A rule for every `n` steps is called at the multiples of `n`**, and is told of the line of that
step. -/
theorem calls_course {r : HookRegistry H R} {requests : List (RuleRequest R)} {j : Nat}
    {q : RuleRequest R} (hrules : r.rules = grantedRules requests) (hq : (granted requests)[j]? = some q)
    (steps : List Step) :
    ((r.course steps).filterMap (Beat.call? j)).map some =
      (multiples q.every.toNat steps.length).map fun i => steps[i]?.map (·.context i) := by
  have hpos : 0 < q.every.toNat := by
    have hevery := (List.mem_filter.mp (List.mem_of_getElem? hq)).2
    exact Int.lt_toNat.mpr (of_decide_eq_true hevery)
  induction steps using List.reverseRecOn with
  | nil => simp [HookRegistry.course, multiples_zero hpos]
  | append_singleton steps s ih =>
    have hbefore : (multiples q.every.toNat steps.length).map
        (fun i => (steps ++ [s])[i]?.map (·.context i)) =
          (multiples q.every.toNat steps.length).map fun i => steps[i]?.map (·.context i) :=
      List.map_congr_left fun i hi => by rw [List.getElem?_append_left ((mem_multiples_iff hpos).mp hi).1]
    rw [course_concat, List.filterMap_append, List.map_append, ih, filterMap_beats,
      HookRegistry.filterMap_rulesAt hrules hq, List.length_append, List.length_singleton,
      multiples_succ hpos, List.map_append, hbefore]
    congr 1
    split <;> simp

/-- The rule breaks off at nothing that it is told. -/
def StepRule.Calm (rule : StepRule (StepContext → Script σ)) : Prop :=
  ∀ c e, ∃ a e₁, Engine.play (rule.handler c) e = .ok a e₁

namespace Engine

open Act Process Run

/-- The beats of an engine, in order. -/
def beats (e : Engine σ) : List Beat := e.transcript.toList.filterMap Record.beat?

/-- What the rule of a number was told, in order. -/
def calls (number : Nat) (e : Engine σ) : List StepContext := e.beats.filterMap (Beat.call? number)

/-- What has become of an engine that has beaten these beats, with its run where it was. -/
structure Adds (bs : List Beat) (e e₁ : Engine σ) : Prop where
  hooks : e₁.services.hooks = e.services.hooks
  busy : e₁.busy = e.busy
  trace : e₁.progress.trace = e.progress.trace
  beats : e₁.beats = e.beats ++ bs

variable {e e₁ e₂ : Engine σ} {bs bs' : List Beat} {others : Engine σ → Engine σ → Prop}

theorem Adds.trans (h : Adds bs e e₁) (h' : Adds bs' e₁ e₂) : Adds (bs ++ bs') e e₂ :=
  ⟨h'.hooks.trans h.hooks, h'.busy.trans h.busy, h'.trace.trans h.trace, by
    rw [h'.beats, h.beats, List.append_assoc]⟩

theorem Adds.of_same (h : (e₁.frame, e₁.beats) = (e.frame, e.beats)) : Adds [] e e₁ :=
  ⟨congrArg (fun s => s.1.1.hooks) h, congrArg (fun s => s.1.1.busy) h, congrArg (fun s => s.1.2.trace) h,
    (congrArg Prod.snd h).trans (List.append_nil _).symm⟩

theorem adds_push (r : Record) (e : Engine σ) :
    Adds r.beat?.toList e { e with transcript := e.transcript.push r } := by
  refine ⟨rfl, rfl, rfl, ?_⟩
  cases h : r.beat? <;> simp [beats, h]

theorem adds_play (script : Script σ) (e : Engine σ) :
    (play script).Ensures (fun _ => Adds [] e) (fun _ => Adds [] e) e :=
  ((sifted_withstands (fun _ => rfl) (fun _ => rfl) (fun _ => True) (e.frame, e.beats)).play script
    (Script.asks_of_all (fun _ => trivial) script) e rfl).mono (fun _ _ => .of_same) fun _ _ => .of_same

/-! ## Announcements and rules -/

/-- Some hooks are told, up to the first that breaks off. -/
theorem adds_callHooks (n : Notice) (hooks : List (Hook (Notice → Script σ))) (e : Engine σ) :
    let Told (e₁ : Engine σ) : Prop := ∃ called, called <+: hooks ∧
      Adds (called.filterMap fun hook => (Record.hookCalled hook.number n).beat?) e e₁
    (callHooks n hooks).Ensures (fun _ => Told) (fun _ => Told) e := by
  intro Told
  induction hooks generalizing e with
  | nil => exact ⟨[], List.prefix_rfl, rfl, rfl, rfl, (List.append_nil _).symm⟩
  | cons hook hooks ih =>
    have hbeat (shown : Notice) (p : Progress) (hshown : shown = asShown n p) :
        (Record.hookCalled hook.number shown).beat?.toList =
          [hook].filterMap fun hook => (Record.hookCalled hook.number n).beat? := by
      subst hshown
      cases n <;> rfl
    have htell (called : List (Hook (Notice → Script σ))) (e₁ : Engine σ) (hcalled : called <+: hooks)
        (h : Adds ((Record.hookCalled hook.number (asShown n e.progress)).beat?.toList ++
          called.filterMap fun hook => (Record.hookCalled hook.number n).beat?) e e₁) : Told e₁ := by
      rw [hbeat _ _ rfl, ← List.filterMap_append] at h
      exact ⟨hook :: called, (List.prefix_cons_inj hook).mpr hcalled, h⟩
    show (record (.hookCalled hook.number (asShown n e.progress)) >>= fun _ =>
      discard (play (hook.handler (asShown n e.progress))) >>= fun _ => callHooks n hooks).Ensures _ _ e
    have hpush := adds_push (.hookCalled hook.number (asShown n e.progress)) e
    refine ensures_bind (ensures_bind ((ensures_discard (adds_play _ _)).mono (fun _ e₁ h₁ => ?_)
      fun _ e₁ h₁ => ?_))
    · refine (ih e₁).mono (fun _ e₂ h₂ => ?_) fun _ e₂ h₂ => ?_ <;>
      · obtain ⟨called, hcalled, h₂⟩ := h₂
        exact htell called e₂ hcalled (hpush.trans (h₁.trans h₂))
    · exact htell [] e₁ (List.nil_prefix ..) (hpush.trans h₁)

/-- An announcement is a beat or none, and so is each hook that is told of it. -/
theorem adds_announce (n : Notice) (e : Engine σ) :
    let Told (e₁ : Engine σ) : Prop := ∃ called, called <+: e.services.hooks.hooksFor n.event ∧
      Adds ((Record.announced n).beat?.toList ++
        called.filterMap fun hook => (Record.hookCalled hook.number n).beat?) e e₁
    (announce n).Ensures (fun _ => Told) (fun _ => Told) e := by
  intro Told
  have hannounced : Adds (Record.announced n).beat?.toList e (announcing n e) := by
    have hpush := adds_push (.announced n) e
    exact ⟨rfl, rfl, by cases n <;> rfl, hpush.beats⟩
  unfold Act.Ensures
  rw [announce_eq]
  refine (ensures_guarded (adds_callHooks n _ (announcing n e)) _).mono (fun _ e₁ h₁ => ?_) fun _ e₁ h₁ => ?_ <;>
  · obtain ⟨called, hcalled, h₁⟩ := h₁
    exact ⟨called, hcalled, hannounced.trans h₁⟩

/-- Where hooks that are told have no beats, the announcement may have one. -/
theorem adds_announce_unheard {n : Notice} (hn : ∀ number, (Record.hookCalled number n).beat? = none)
    (e : Engine σ) :
    (announce n).Ensures (fun _ => Adds (Record.announced n).beat?.toList e)
      (fun _ => Adds (Record.announced n).beat?.toList e) e := by
  refine (adds_announce n e).mono (fun _ e₁ h₁ => ?_) fun _ e₁ h₁ => ?_ <;>
  · obtain ⟨called, -, h₁⟩ := h₁
    rwa [List.filterMap_eq_nil_iff.mpr fun hook _ => hn hook.number, List.append_nil] at h₁

theorem adds_play_of_calm {rule : StepRule (StepContext → Script σ)} (hcalm : rule.Calm) (c : StepContext)
    (e : Engine σ) : (play (rule.handler c)).Ensures (fun _ => Adds [] e) (fun _ _ => False) e := by
  obtain ⟨a, e₁, hplay⟩ := hcalm c e
  have hadds := adds_play (rule.handler c) e
  unfold Act.Ensures at hadds ⊢
  rw [hplay] at hadds ⊢
  exact hadds

/-- Rules that never break off are all called, one after the other. -/
theorem adds_fireRules {rules : List (StepRule (StepContext → Script σ))} (hcalm : ∀ rule ∈ rules, rule.Calm)
    (c : StepContext) (e : Engine σ) :
    (fireRules c rules).Ensures (fun _ => Adds (rules.map fun rule => .fired rule.number c) e)
      (fun _ _ => False) e := by
  induction rules generalizing e with
  | nil => exact ⟨rfl, rfl, rfl, (List.append_nil _).symm⟩
  | cons rule rules ih =>
    obtain ⟨hrule, hrules⟩ := List.forall_mem_cons.mp hcalm
    have hpush := adds_push (.ruleFired rule.number c) e
    refine ensures_bind (ensures_bind ((ensures_discard (adds_play_of_calm hrule c _)).mono
      (fun _ e₁ h₁ => ?_) fun _ _ h => h))
    exact (ih hrules e₁).mono (fun _ e₂ h₂ => hpush.trans (h₁.trans h₂)) fun _ _ h => h

/-- The rules that are due are called when the step has been logged; a step that cannot be logged is
followed by none. -/
theorem adds_logStep (hcalm : ∀ rule ∈ e.services.hooks.rules, rule.Calm) (index : Nat) (text : String)
    (code : Int) :
    (logStep index text code).Ensures
      (fun _ => Adds ((e.services.hooks.rulesAt e.progress.trace.next).map fun rule =>
        .fired rule.number (contextOf index code e)) (logged index text code e))
      (fun _ e₁ => e₁ = e) e := by
  unfold Act.Ensures
  by_cases hrecordable : e.Recordable
  · rw [logStep_of_recordable hrecordable]
    have hdue : ∀ rule ∈ e.services.hooks.rulesAt e.progress.trace.next, rule.Calm :=
      fun rule hmem => hcalm rule (List.mem_filter.mp hmem).1
    exact Act.Ensures.mono (ensures_guarded (adds_fireRules hdue _ _) _) (fun _ _ h => h) fun _ _ h => h.elim
  · rw [logStep_of_not_recordable hrecordable]

/-! ## The steps of a run -/

/-- The handler of a line has come back, with the code of the line, and left the engine like this. -/
def Answered (others : Engine σ → Engine σ → Prop) (v : Visit) (e : Engine σ) : Prop :=
  ∃ fuel code e₀ e₁, openLine v.index v.text e₀ = .ok code e₁ ∧
    (executeUnless (carryOut fuel) code e₁).EndsAmid others (.ok v.code e)

/-- Since `e₀`, a run has done these steps, and may have opened one more line.  Rules were called at each of
them when the handler had come back, and hooks were told of it behind them. -/
structure Timed (others : Engine σ → Engine σ → Prop) (e₀ : Engine σ) (steps : List Step)
    (line : Option (Nat × String)) (e : Engine σ) : Prop where
  hooks : e.services.hooks = e₀.services.hooks
  counted : e.progress.trace.next = steps.length
  beats : e.beats = e₀.beats ++ e₀.services.hooks.course steps ++ line.toList.map fun l => .opened l.1 l.2
  answered : ∀ i s, steps[i]? = some s → ∃ e₁ : Engine σ, Answered others s.toVisit e₁ ∧
    e₁.progress.command = s.command ∧ e₁.beats =
      e₀.beats ++ e₀.services.hooks.course (steps.take i) ++ [.opened s.index s.text]
  heard : ∀ s ∈ steps, s.heard <+: (e₀.services.hooks.hooksFor .afterLine).map Hook.number

variable {e₀ : Engine σ} {steps : List Step} {line : Option (Nat × String)} {index : Nat} {text : String}

theorem Timed.rest (h : Timed others e₀ steps line e) (hadds : Adds [] e e₁) :
    Timed others e₀ steps line e₁ where
  hooks := hadds.hooks.trans h.hooks
  counted := by rw [hadds.trace, h.counted]
  beats := by rw [hadds.beats, List.append_nil, h.beats]
  answered := h.answered
  heard := h.heard

theorem Timed.begin (h : Timed others e₀ steps none e) (hadds : Adds [.opened index text] e e₁) :
    Timed others e₀ steps (some (index, text)) e₁ where
  hooks := hadds.hooks.trans h.hooks
  counted := by rw [hadds.trace, h.counted]
  beats := by
    rw [hadds.beats, h.beats]
    simp
  answered := h.answered
  heard := h.heard

theorem contextOf_eq {s : Step} (hcommand : e.progress.command = s.command)
    (hcounted : e.progress.trace.next = steps.length) :
    contextOf s.index s.code e = s.context steps.length := by
  rw [contextOf, Step.context, hcommand, hcounted]

/-- A line that is over is one more step. -/
theorem Timed.close {s : Step} (h : Timed others e₀ steps (some (s.index, s.text)) e)
    (hanswered : Answered others s.toVisit e) (hcommand : e.progress.command = s.command)
    (hheard : s.heard <+: (e₀.services.hooks.hooksFor .afterLine).map Hook.number)
    (hadds : Adds ((e.services.hooks.rulesAt e.progress.trace.next).map (fun rule =>
        .fired rule.number (contextOf s.index s.code e)) ++
      s.heard.map fun number => .heard number s.index s.text s.code) (logged s.index s.text s.code e) e₁) :
    Timed others e₀ (steps ++ [s]) none e₁ where
  hooks := hadds.hooks.trans h.hooks
  counted := by
    have hpushed : (logged s.index s.text s.code e).progress.trace.next = e.progress.trace.next + 1 := rfl
    rw [hadds.trace, hpushed, h.counted, List.length_append, List.length_singleton]
  beats := by
    have hlogged : (logged s.index s.text s.code e).beats = e.beats := rfl
    rw [hadds.beats, hlogged, h.beats, contextOf_eq hcommand h.counted, h.counted, h.hooks, course_concat]
    simp [Step.beats]
  answered i other hother := by
    rcases Nat.lt_or_ge i steps.length with hi | hi
    · rw [List.getElem?_append_left hi] at hother
      rw [List.take_append_of_le_length (Nat.le_of_lt hi)]
      exact h.answered i other hother
    · rw [List.getElem?_append_right hi, List.getElem?_singleton] at hother
      split at hother
      · cases hother
        have hlast : i = steps.length := by omega
        subst hlast
        rw [List.take_left]
        exact ⟨e, hanswered, hcommand, h.beats⟩
      · cases hother
  heard other hmem := by
    rcases List.mem_append.mp hmem with hmem | hmem
    · exact h.heard other hmem
    · rwa [List.mem_singleton.mp hmem]

/-- Since `e₀`, all rules were called in time. -/
def InTime (others : Engine σ → Engine σ → Prop) (e₀ e : Engine σ) : Prop :=
  ∃ steps line, Timed others e₀ steps line e

/-- The end of a line is a step, also if one of the hooks behind it breaks off; a line whose step cannot be
logged is none, and stays open. -/
theorem Timed.closeLine {v : Visit} (h : Timed others e₀ steps (some (v.index, v.text)) e)
    (hcalm : ∀ rule ∈ e₀.services.hooks.rules, rule.Calm) (hanswered : Answered others v e) :
    let Closed (e₁ : Engine σ) : Prop := e₁.busy = e.busy ∧ ∃ steps, Timed others e₀ steps none e₁
    (closeLine v.index v.text v.code).Ensures (fun code e₁ => code = v.code ∧ Closed e₁)
      (fun _ => InTime others e₀) e := by
  intro Closed
  have hlog := adds_logStep (h.hooks.symm ▸ hcalm) v.index v.text v.code
  refine ensures_closing (P := Closed) (hlog.mono (fun _ _ h₁ => h₁) fun _ e₁ h₁ => ⟨_, _, h₁ ▸ h⟩)
    fun e₁ h₁ => ?_
  have hclosed (e₂ : Engine σ) (h₂ : ∃ called, called <+: e₁.services.hooks.hooksFor .afterLine ∧
      Adds (called.filterMap fun hook =>
        (Record.hookCalled hook.number (.afterLine v.index v.text v.code)).beat?) e₁ e₂) : Closed e₂ := by
    obtain ⟨called, hcalled, h₂⟩ := h₂
    have hhooks₁ : e₁.services.hooks = e₀.services.hooks := h₁.hooks.trans h.hooks
    refine ⟨h₂.busy.trans h₁.busy, steps ++ [⟨v, e.progress.command, called.map Hook.number⟩], ?_⟩
    refine h.close hanswered rfl ?_ ?_
    · rw [← hhooks₁]
      exact hcalled.map Hook.number
    · have hheard : called.filterMap (fun hook =>
          (Record.hookCalled hook.number (.afterLine v.index v.text v.code)).beat?) =
            (called.map Hook.number).map fun number => .heard number v.index v.text v.code := by
        rw [List.map_map, ← List.filterMap_eq_map]
        rfl
      exact hheard ▸ h₁.trans h₂
  refine (adds_announce (.afterLine v.index v.text v.code) e₁).mono (fun _ e₂ h₂ => ?_) fun _ e₂ h₂ => ?_ <;>
    obtain ⟨hbusy, steps', htimed⟩ := hclosed e₂ h₂
  · split
    · exact ⟨hbusy, steps', htimed⟩
    · refine (adds_announce_unheard (n := .onError v.code e₂.progress.failure) (fun _ => rfl) e₂).mono
        (fun _ e₃ h₃ => ?_) fun _ e₃ h₃ => ?_
      · exact ⟨h₃.busy.trans hbusy, steps', htimed.rest h₃⟩
      · exact ⟨steps', none, htimed.rest h₃⟩
  · exact ⟨steps', none, htimed⟩

theorem adds_interpret (text : String) (e : Engine σ) :
    (interpret text).Ensures (fun _ => Adds [] e) (fun _ => Adds [] e) e :=
  ((sifted_withstands (fun _ => rfl) (fun _ => rfl) (fun _ => True) (e.frame, e.beats)).interpret text trivial
    e rfl).mono (fun _ _ => .of_same) fun _ _ => .of_same

theorem adds_openLine (index : Nat) (text : String) (e : Engine σ) :
    (openLine index text).Ensures (fun _ => Adds [.opened index text] e) (fun _ => Adds [.opened index text] e)
      e := by
  have hannounce := adds_announce_unheard (n := .beforeLine index text) (fun _ => rfl)
    { e with progress := { e.progress with index := some index } }
  have hsame {bs : List Beat} {e₁ : Engine σ}
      (h : Adds bs { e with progress := { e.progress with index := some index } } e₁) : Adds bs e e₁ :=
    ⟨h.hooks, h.busy, h.trace, h.beats⟩
  refine ensures_bind (ensures_bind (hannounce.mono (fun _ e₁ h₁ => ?_) fun _ e₁ h₁ => hsame h₁))
  exact (adds_interpret text e₁).mono (fun _ e₂ h₂ => hsame (h₁.trans h₂)) fun _ e₂ h₂ => hsame (h₁.trans h₂)

/-- Since `e₀`, a run that is under way has called all rules in time, and is between two lines. -/
def BetweenLines (others : Engine σ → Engine σ → Prop) (e₀ e : Engine σ) : Prop :=
  e.busy = true ∧ ∃ steps, Timed others e₀ steps none e

/-- **A line is a step of the run**, or the last thing that it does. -/
theorem BetweenLines.step (h : BetweenLines others e₀ e) (hcalm : ∀ rule ∈ e₀.services.hooks.rules, rule.Calm)
    (hothers : ∀ e e₁ : Engine σ, others e e₁ → (e₁.frame, e₁.beats) = (e.frame, e.beats)) (fuel index : Nat)
    (text : String) :
    (step (carryOut fuel) index text e).Ensures others (InTime others e₀) (fun _ => BetweenLines others e₀)
      fun _ => InTime others e₀ := by
  obtain ⟨hbusy, steps, h⟩ := h
  refine ensures_bind (ensures_ofAct (((adds_openLine index text e).and (ensures_eq _ e)).mono
    (fun code e₁ h₁ => ?_) fun fault e₁ h₁ => ⟨_, _, h.begin h₁.1⟩))
  obtain ⟨hadds₁, hopen⟩ := h₁
  have hline := h.begin hadds₁
  have hexecute := (ensures_executeUnless_sifted (fun _ => rfl) (fun _ => rfl) (hadds₁.busy.trans hbusy) hothers
    code fuel).and (ensures_endsAmid others (executeUnless (carryOut fuel) code e₁))
  refine ensures_bind (hexecute.mono (fun e₂ h₂ => ?_) (fun code₁ e₂ h₂ => ?_) fun fault e₂ h₂ => ?_)
  · exact ⟨_, _, hline.rest (.of_same h₂.1)⟩
  · have hadds₂ : Adds [] e₁ e₂ := .of_same h₂.1
    have hclose := (hline.rest hadds₂).closeLine (v := ⟨index, text, code₁⟩) hcalm ⟨fuel, code, e, e₁, hopen, h₂.2⟩
    refine ensures_ofAct (hclose.mono (fun _ e₃ h₃ => ?_) fun _ _ h₃ => h₃)
    exact ⟨h₃.2.1.trans (hadds₂.busy.trans (hadds₁.busy.trans hbusy)), h₃.2.2⟩
  · exact ⟨_, _, hline.rest (.of_same h₂.1.1)⟩

/-! ## A run -/

theorem timed_entered (others : Engine σ → Engine σ → Prop) (e : Engine σ) :
    Timed others e [] none (entered e) where
  hooks := rfl
  counted := rfl
  beats := by simp [HookRegistry.course, entered, beats]
  answered := nofun
  heard := nofun

/-- The end of a run has no beats. -/
theorem adds_complete (code : Int) (e : Engine σ) :
    (complete code).Ensures (fun _ => Adds [] e) (fun _ => Adds [] e) e := by
  have hannounce := adds_announce_unheard (n := .batchEnd code) (fun _ => rfl)
    { e with progress := { e.progress with code } }
  have hsame {e₁ : Engine σ} (h : Adds [] { e with progress := { e.progress with code } } e₁) : Adds [] e e₁ :=
    ⟨h.hooks, h.busy, h.trace, h.beats⟩
  refine ensures_bind (ensures_bind (hannounce.mono (fun _ e₁ h₁ => ?_) fun _ e₁ h₁ => hsame h₁))
  have hcompleting : Adds [] e₁ (completing code e₁) := adds_push (.completed code) e₁
  have hcall : (callBack code).Ensures _ _ (completing code e₁) :=
    (sifted_withstands (fun _ => rfl) (fun _ => rfl) (fun _ => True)
      ((completing code e₁).frame, (completing code e₁).beats)).callBack
        (fun script _ => Script.asks_of_all (fun _ => trivial) (script code)) rfl
  exact ensures_bind (hcall.mono (fun _ e₂ h₂ => hsame (h₁.trans (hcompleting.trans (.of_same h₂))))
    fun _ e₂ h₂ => hsame (h₁.trans (hcompleting.trans (.of_same h₂))))

/-- **Rules that never break off are called in time**, whatever lines a run has and however it ends. -/
theorem ensures_timed {t : Task} (hrun : t ≠ .execute) (hidle : e.busy = false)
    (hcalm : ∀ rule ∈ e.services.hooks.rules, rule.Calm)
    (hothers : ∀ e e₁ : Engine σ, others e e₁ → (e₁.frame, e₁.beats) = (e.frame, e.beats)) (fuel : Nat) :
    (carryOut (fuel + 1) t e).Ensures others (InTime others e) (fun _ e₁ => ∃ steps, Timed others e steps none e₁)
      fun _ => InTime others e := by
  have hfreed {steps : List Step} {line : Option (Nat × String)} {e₁ : Engine σ}
      (h : Timed others e steps line e₁) : Timed others e steps line (freed e₁) :=
    ⟨h.hooks, h.counted, h.beats, h.answered, h.heard⟩
  refine ensures_run (L := fun _ => BetweenLines others e) (G := fun _ => InTime others e) hrun hidle
    (fun lines cursor => ?_) (fun index e₁ h₁ => ?_) (fun index text e₁ h₁ => h₁.step hcalm hothers fuel index text)
    (fun e₁ h₁ => ?_) (fun code e₁ h₁ => ?_) fun fault e₁ h₁ => ?_
  · have hannounce := adds_announce_unheard (n := .batchStart lines) (fun _ => rfl)
      { entered e with progress := { (entered e).progress with batch := lines, cursor } }
    have hopened (e₁ : Engine σ) (h₁ : Adds [] { entered e with
        progress := { (entered e).progress with batch := lines, cursor } } e₁) :
        Timed others e [] none e₁ := (timed_entered others e).rest ⟨h₁.hooks, h₁.busy, h₁.trace, h₁.beats⟩
    refine ensures_bind (hannounce.mono (fun _ e₁ h₁ => ?_) fun _ e₁ h₁ => ?_)
    · exact ⟨h₁.busy, [], hopened e₁ h₁⟩
    · exact ⟨[], none, hopened e₁ h₁⟩
  · obtain ⟨hbusy, steps, h₁⟩ := h₁
    exact ⟨hbusy, steps, h₁.rest ⟨rfl, rfl, rfl, (List.append_nil _).symm⟩⟩
  · obtain ⟨-, steps, h₁⟩ := h₁
    exact ⟨steps, none, h₁⟩
  · obtain ⟨-, steps, h₁⟩ := h₁
    refine (adds_complete code (freed e₁)).mono (fun _ e₂ h₂ => ?_) fun _ e₂ h₂ => ?_
    · exact ⟨steps, (hfreed h₁).rest h₂⟩
    · exact ⟨steps, none, (hfreed h₁).rest h₂⟩
  · obtain ⟨steps, line, h₁⟩ := h₁
    exact ⟨steps, line, hfreed h₁⟩

/-! ## What a host has done before -/

theorem engineOf_register (owner : String) (r : Registration σ) (e : Engine σ) :
    engineOf (register owner r e) =
      (e.services.register owner r).toOption.elim e fun services => { e with services } := by
  simp only [register, bind_apply, get_apply, orThrow]
  cases e.services.register owner r <;> rfl

end Engine

/-- The step rule that a registration asks for. -/
def Registration.ruleRequest? (owner : String) : Registration σ → Option (RuleRequest (StepContext → Script σ))
  | .stepRule every name handler => some ⟨every, handler, owner, name⟩
  | _ => none

namespace Engine

open Act Process Run

/-- A host has made an engine on services in which step rules were asked for, and has then called it, one call
after the other: it has had runs carried out and lines executed, which returned or broke off, and has
registered things, step rules among them.  All rules that were asked for are listed. -/
inductive Scheduled : List (RuleRequest (StepContext → Script σ)) → Engine σ → Prop
  | new {setup : Setup σ} {services : Services σ} {host : σ} {e : Engine σ}
      {requests : List (RuleRequest (StepContext → Script σ))}
      (h : Engine.new setup services host = .ok e)
      (hrules : services.hooks.rules =
        (requests.foldl HookRegistry.ask ({} : HookRegistry (Notice → Script σ) _)).rules) :
      Scheduled requests e
  | registered {requests : List (RuleRequest (StepContext → Script σ))} {e : Engine σ}
      (h : Scheduled requests e) (owner : String) (r : Registration σ) :
      Scheduled (requests ++ (r.ruleRequest? owner).toList) (engineOf (register owner r e))
  | carried {requests : List (RuleRequest (StepContext → Script σ))} {e : Engine σ} {t : Task}
      {r : EStateM.Result Fault (Engine σ) Int} (h : Scheduled requests e)
      (hends : CarriesAmid (Meddled fun _ => True) t e r) : Scheduled requests (engineOf r)

/-- Nothing that a run does changes the step rules. -/
theorem lasting_rules (rules : List (StepRule (StepContext → Script σ))) :
    Lasting (fun _ => True) (fun _ => True) fun e : Engine σ => e.services.hooks.rules = rules where
  host _ _ h := h
  edit _ _ := preserves_edit fun _ _ h hedited => by cases hedited <;> exact h
  registerCommand _ _ _ := preserves_registerCommand fun _ _ h _ => h
  interpret _ _ := preserves_interpret (fun _ h => h) (fun _ _ h _ => h) fun _ _ h _ => h
  same _ _ h hsame _ := (congrArg (fun c => c.2.1.hooks.rules) hsame).trans h
  cleared _ _ h _ _ := h
  failing _ _ _ h _ := h
  reads _ := preserves_interpret (fun _ h => h) (fun _ _ h _ => h) fun _ _ h _ => h
  hooks e _ := e.services.hooks.asks_of_all fun _ => trivial
  callback _ script code _ _ := Script.asks_of_all (fun _ => trivial) (script code)
  refused _ _ _ _ := trivial
  answered _ _ := trivial
  calls _ command args _ _ _ :=
    ⟨Script.asks_of_all (fun _ => trivial) (command.handler args), Script.raises_of_all (fun _ _ => trivial) _⟩

variable {requests : List (RuleRequest (StepContext → Script σ))}

theorem rules_of_register {owner : String} {r : Registration σ} {services services' : Services σ}
    (h : services.register owner r = .ok services') (hnone : r.ruleRequest? owner = none) :
    services'.hooks.rules = services.hooks.rules := by
  cases r with
  | metadata m =>
    cases h
    rfl
  | type name lexis priority =>
    obtain ⟨types, -, rfl⟩ := map_eq_ok_iff.mp h
    rfl
  | command d handler =>
    obtain ⟨c, -, rfl⟩ := map_eq_ok_iff.mp h
    rfl
  | hook event priority handler =>
    obtain ⟨hooks, hhooks, rfl⟩ := map_eq_ok_iff.mp h
    unfold HookRegistry.onEvent at hhooks
    split at hhooks <;> cases hhooks
    rfl
  | stepRule every name handler => cases hnone

/-- **Whatever a host has done**, the rules of its engine are those that it has asked for with a positive number
of steps. -/
theorem Scheduled.rules_eq {e : Engine σ} (h : Scheduled requests e) :
    e.services.hooks.rules = grantedRules requests := by
  induction h with
  | @new setup services host e requests h hrules =>
    unfold Engine.new at h
    split at h <;> cases h
    exact hrules.trans (HookRegistry.rules_foldl_ask rfl requests)
  | @registered requests e _ owner r ih =>
    rw [engineOf_register]
    cases hrequest : r.ruleRequest? owner with
    | none =>
      rw [Option.toList_none, List.append_nil]
      cases hr : e.services.register owner r with
      | ok services => exact (rules_of_register hr hrequest).trans ih
      | error reason => exact ih
    | some q =>
      cases r with
      | stepRule every name handler =>
        cases hrequest
        have hask := HookRegistry.rules_ask ih ⟨every, handler, owner, name⟩
        rw [Option.toList_some, ← hask, HookRegistry.ask, Services.register]
        cases e.services.hooks.everySteps every handler owner name <;> rfl
      | _ => cases hrequest
  | @carried requests e t r _ hends ih =>
    obtain ⟨fuel, hends⟩ := hends
    have hlasting := lasting_rules (σ := σ) (grantedRules requests)
    have hupholds : (carryOut fuel t).Upholds (Meddled fun _ => True)
        fun e : Engine σ => e.services.hooks.rules = grantedRules requests := fun e he =>
      (hlasting.carryOut fuel t e he).among fun e₁ e₂ he₁ hmet =>
        hlasting.toWithstands.meddled (fun _ _ _ h => h) he₁ hmet
    exact hupholds.of_endsAmid ih hends

/-! ## The calls of each rule -/

/-- Since `e₀`, a run has done these steps, and each rule was called for its share of them. -/
structure KeepsTime (requests : List (RuleRequest (StepContext → Script σ))) (e₀ : Engine σ) (steps : List Step)
    (line : Option (Nat × String)) (e : Engine σ) : Prop
    extends Timed (Meddled fun _ => True) e₀ steps line e where
  calls : ∀ j q, (granted requests)[j]? = some q → ∃ since, e.calls j = e₀.calls j ++ since ∧
    since.map some = (multiples q.every.toNat steps.length).map fun i => steps[i]?.map (·.context i)

theorem Timed.keepsTime {steps : List Step} {line : Option (Nat × String)} {e₀ e : Engine σ}
    (h : Timed (Meddled fun _ => True) e₀ steps line e)
    (hrules : e₀.services.hooks.rules = grantedRules requests) : KeepsTime requests e₀ steps line e where
  toTimed := h
  calls j q hq := by
    have hline : (line.toList.map fun l => Beat.opened l.1 l.2).filterMap (Beat.call? j) = [] := by
      rw [List.filterMap_map]
      exact List.filterMap_eq_nil_iff.mpr fun _ _ => rfl
    refine ⟨_, ?_, calls_course hrules hq steps⟩
    rw [Engine.calls, h.beats, List.filterMap_append, List.filterMap_append, hline, List.append_nil]
    rfl

/-- **Step rules fire at exact steps.**  An engine has been asked for any step rules and has done anything since,
and none of the rules with a positive number of steps ever breaks off.  A run on it, of any number of lines in any
order, however long its trace may grow, has at any moment done some steps and may have opened one more line.  The
rule that is asked for with `n` was called for the steps `0`, `n`, `2 * n` and so on below their number, once for
each; the rules of one step one after the other in the order in which they were asked for; behind the handler of the
line and in front of the hooks that are told of its end; and with the number of the step and the index and the code of
the line.  A rule that is asked for with any other number of steps is refused, and is not there. -/
theorem rules_keep_time {e : Engine σ} {t : Task} (hscheduled : Scheduled requests e) (hrun : t ≠ .execute)
    (hidle : e.busy = false)
    (hcalm : ∀ q ∈ requests, 0 < q.every → ∀ c e, ∃ a e₁, play (q.handler c) e = .ok a e₁) (fuel : Nat) :
    (carryOut (fuel + 1) t e).Ensures (Meddled fun _ => True)
        (fun e₁ => ∃ steps line, KeepsTime requests e steps line e₁)
        (fun _ e₁ => ∃ steps, KeepsTime requests e steps none e₁)
        (fun _ e₁ => ∃ steps line, KeepsTime requests e steps line e₁) ∧
      ∀ owner every name handler, every ≤ 0 → ∀ e₁ : Engine σ,
        register owner (.stepRule every name handler) e₁ = .error (.extension .stepInterval) e₁ := by
  have hrules := hscheduled.rules_eq
  constructor
  · have hcalm' (rule : StepRule (StepContext → Script σ)) (hmem : rule ∈ e.services.hooks.rules) : rule.Calm := by
      rw [hrules] at hmem
      obtain ⟨q, hq, hevery, hhandler⟩ := mem_grantedRules hmem
      intro c e₁
      rw [hhandler]
      exact hcalm q hq hevery c e₁
    have hothers (e₁ e₂ : Engine σ) (hmet : Meddled (fun _ => True) e₁ e₂) :
        (e₂.frame, e₂.beats) = (e₁.frame, e₁.beats) :=
      (sifted_withstands (fun _ => rfl) (fun _ => rfl) _ (e₁.frame, e₁.beats)).meddled (fun _ _ _ h => h) rfl hmet
    refine (ensures_timed hrun hidle hcalm' hothers fuel).mono (fun e₁ h₁ => ?_) (fun _ e₁ h₁ => ?_) fun _ e₁ h₁ => ?_
    · obtain ⟨steps, line, h₁⟩ := h₁
      exact ⟨steps, line, h₁.keepsTime hrules⟩
    · obtain ⟨steps, h₁⟩ := h₁
      exact ⟨steps, h₁.keepsTime hrules⟩
    · obtain ⟨steps, line, h₁⟩ := h₁
      exact ⟨steps, line, h₁.keepsTime hrules⟩
  · intro owner every name handler hevery e₁
    have hrefused : e₁.services.register owner (.stepRule every name handler) = .error .stepInterval := by
      rw [Services.register, HookRegistry.everySteps_of_nonpos hevery]
      rfl
    simp only [register, bind_apply, get_apply, hrefused]
    rfl

/-- What is asked for is a rule for every other step, and one for no step at all. -/
def metering : List (RuleRequest (StepContext → Script Unit)) :=
  [⟨2, fun _ => .silent, "host", "other"⟩, ⟨0, fun _ => .silent, "host", "never"⟩]

/-- An engine that both rules were asked of. -/
def metered : Engine Unit :=
  metering.foldl (fun e q => engineOf (register q.owner (.stepRule q.every q.name q.handler) e))
    { services := .standard, host := () }

theorem scheduled_metered : Scheduled metering metered := by
  have hnew : Engine.new {} .standard () = .ok ({ services := .standard, host := () } : Engine Unit) := rfl
  have hfirst : Scheduled [] ({ services := .standard, host := () } : Engine Unit) := .new hnew rfl
  exact (hfirst.registered "host" (.stepRule 2 "other" fun _ => .silent)).registered "host"
    (.stepRule 0 "never" fun _ => .silent)

/-- In the second run of an engine the steps are counted from zero again. -/
theorem rules_keep_time_again :
    ∃ e e₁ : Engine Unit, Scheduled metering e ∧ (e.calls 0).map (·.step) = [0] ∧
      Carries (.runBatch ["", "", ""]) e (.ok 0 e₁) ∧
      ∃ steps, steps.length = 3 ∧ KeepsTime metering e steps none e₁ := by
  have hcalm (q : RuleRequest (StepContext → Script Unit)) (hq : q ∈ metering) (_ : 0 < q.every) (c : StepContext)
      (e : Engine Unit) : ∃ a e₁, play (q.handler c) e = .ok a e₁ := by
    have hsilent : q.handler = fun _ => .silent := by
      rcases List.mem_cons.mp hq with rfl | hq
      · rfl
      · rw [List.mem_singleton.mp hq]
    rw [hsilent]
    exact ⟨_, _, rfl⟩
  obtain ⟨r, hfirst, hreturns⟩ := carries_of_any (t := .runBatch ["", ""]) (e := metered) 4
    (returns 0 fun e => !e.busy && (e.calls 0).map (·.step) == [0] &&
      (carryOut 5 (.runBatch ["", "", ""]) e).result?.any (returns 0 fun e₁ => e₁.progress.trace.next == 3))
    (by decide +kernel)
  obtain ⟨e, rfl, htest⟩ := of_returns hreturns
  simp only [Bool.and_eq_true, Bool.not_eq_true', beq_iff_eq] at htest
  obtain ⟨⟨hidle, hcalls⟩, htest⟩ := htest
  have hscheduled : Scheduled metering e := scheduled_metered.carried (carriesAmid_of_carries .refl hfirst)
  cases hr : (carryOut 5 (.runBatch ["", "", ""]) e).result? with
  | none => rw [hr] at htest; cases htest
  | some r =>
    rw [hr] at htest
    obtain ⟨e₁, rfl, hnext⟩ := of_returns htest
    obtain ⟨steps, hsteps⟩ := (rules_keep_time hscheduled (t := .runBatch ["", "", ""]) (by simp) hidle hcalm 4).1.of_ok
      (endsAmid_of_result? .refl _ hr)
    exact ⟨e, e₁, hscheduled, hcalls, ⟨5, hr⟩, steps, hsteps.counted.symm.trans (beq_iff_eq.mp hnext), hsteps⟩

end Engine

end CommandBatch
