import CommandBatch.Proofs.Standard.Refinement

/-!
# What a batch prints

A path of the reference machine settles what its lines print as well as the code that it stops with.  The
machine goes only one way, so a batch of standard commands comes to a code with some output exactly if the
machine does (`prints_of_runBatch`).

One thing makes no difference: a blank line at the end of the batch (`prints_concat_blank`).  Whoever gets to
it, by running the line in front of it or by a jump, is done behind it.  A command that leaves the batch goes to
the end of it, which is one line further away then.
-/

namespace CommandBatch.Standard

open Text Engine

variable {σ : Type} {l : Language} {lines : List String} {env env₁ env₂ : Environment} {visits : List Visit}
  {index code : Int} {texts : List String}

/-- What the lines of a path print. -/
def Language.printed (l : Language) (env : Environment) : List Visit → List String
  | [] => []
  | v :: visits =>
    match l.run env v.text with
    | .ok eff => eff.output ++ l.printed eff.env visits
    | .error _ => []

/-- The machine comes from the line of an index to a stop with this code and has printed these texts by then. -/
def Prints (l : Language) (lines : List String) (env : Environment) (index code : Int) (texts : List String) :
    Prop :=
  ∃ visits env₁, Path l lines env index visits code env₁ ∧ l.printed env visits = texts

/-! ## The machine goes one way -/

/-- Outside the batch there is nothing to run. -/
theorem Path.outside (houtside : ¬(0 ≤ index ∧ index < lines.length))
    (h : Path l lines env index visits code env₁) : visits = [] ∧ code = 0 ∧ env₁ = env := by
  cases h with
  | stop => exact ⟨rfl, rfl, rfl⟩
  | @fail _ index text reason htext hrun =>
    have hinside := (List.getElem?_eq_some_iff.mp htext).1
    exact absurd ⟨Int.natCast_nonneg _, Int.ofNat_lt.mpr hinside⟩ houtside
  | @go _ _ index text eff visits code htext hrun hrest =>
    have hinside := (List.getElem?_eq_some_iff.mp htext).1
    exact absurd ⟨Int.natCast_nonneg _, Int.ofNat_lt.mpr hinside⟩ houtside

/-- From a line on, the path is what that line does, and then the rest. -/
theorem Path.inside {index : Nat} {text : String} (htext : lines[index]? = some text)
    (h : Path l lines env index visits code env₁) :
    (∃ reason, l.run env text = .error reason ∧ visits = [⟨index, text, reason.code⟩] ∧ code = reason.code ∧
      env₁ = env) ∨
    ∃ eff rest, l.run env text = .ok eff ∧ visits = ⟨index, text, 0⟩ :: rest ∧
      Path l lines eff.env (eff.flow.target index lines.length) rest code env₁ := by
  generalize hindex : (index : Int) = i at h
  cases h with
  | stop houtside =>
    have hinside := (List.getElem?_eq_some_iff.mp htext).1
    omega
  | fail htext' hrun =>
    obtain rfl := Int.ofNat.inj hindex
    cases htext.symm.trans htext'
    exact .inl ⟨_, hrun, rfl, rfl, rfl⟩
  | go htext' hrun hrest =>
    obtain rfl := Int.ofNat.inj hindex
    cases htext.symm.trans htext'
    exact .inr ⟨_, _, hrun, rfl, hrest⟩

theorem Path.unique {visits' : List Visit} {code' : Int} (h : Path l lines env index visits code env₁)
    (h' : Path l lines env index visits' code' env₂) : visits = visits' ∧ code = code' ∧ env₁ = env₂ := by
  induction h generalizing visits' with
  | stop houtside =>
    obtain ⟨rfl, rfl, rfl⟩ := h'.outside houtside
    exact ⟨rfl, rfl, rfl⟩
  | fail htext hrun =>
    rcases h'.inside htext with ⟨reason, hrun', rfl, rfl, rfl⟩ | ⟨eff, rest, hrun', -⟩
    · cases hrun.symm.trans hrun'
      exact ⟨rfl, rfl, rfl⟩
    · cases hrun.symm.trans hrun'
  | go htext hrun _ ih =>
    rcases h'.inside htext with ⟨reason, hrun', -⟩ | ⟨eff, rest, hrun', rfl, hrest⟩
    · cases hrun.symm.trans hrun'
    · cases hrun.symm.trans hrun'
      obtain ⟨rfl, rfl, rfl⟩ := ih hrest
      exact ⟨rfl, rfl, rfl⟩

theorem Prints.unique {code' : Int} {texts' : List String} (h : Prints l lines env index code texts)
    (h' : Prints l lines env index code' texts') : code = code' ∧ texts = texts' := by
  obtain ⟨visits, env₁, hpath, rfl⟩ := h
  obtain ⟨visits', env₂, hpath', rfl⟩ := h'
  obtain ⟨rfl, rfl, -⟩ := hpath.unique hpath'
  exact ⟨rfl, rfl⟩

theorem prints_stop (houtside : ¬(0 ≤ index ∧ index < lines.length)) : Prints l lines env index 0 [] :=
  ⟨[], env, .stop houtside, rfl⟩

theorem Prints.go {index : Nat} {text : String} {eff : Effect} (htext : lines[index]? = some text)
    (hrun : l.run env text = .ok eff)
    (h : Prints l lines eff.env (eff.flow.target index lines.length) code texts) :
    Prints l lines env index code (eff.output ++ texts) := by
  obtain ⟨visits, env₁, hpath, rfl⟩ := h
  exact ⟨_, env₁, .go htext hrun hpath, by rw [Language.printed, hrun]⟩

theorem prints_fail {index : Nat} {text : String} {reason : Reason} (htext : lines[index]? = some text)
    (hrun : l.run env text = .error reason) : Prints l lines env index reason.code [] :=
  ⟨_, env, .fail htext hrun, by rw [Language.printed, hrun]⟩

theorem Prints.outside (houtside : ¬(0 ≤ index ∧ index < lines.length))
    (h : Prints l lines env index code texts) : code = 0 ∧ texts = [] :=
  h.unique (prints_stop houtside)

/-- An induction over what the machine prints: from a stop, a line that fails, and a line that goes on. -/
theorem Prints.induct {motive : Environment → Int → Int → List String → Prop}
    (stop : ∀ env index, ¬(0 ≤ index ∧ index < (lines.length : Int)) → motive env index 0 [])
    (fail : ∀ env (index : Nat) text reason, lines[index]? = some text → l.run env text = .error reason →
      motive env index reason.code [])
    (go : ∀ env (index : Nat) text eff code texts, lines[index]? = some text → l.run env text = .ok eff →
      Prints l lines eff.env (eff.flow.target index lines.length) code texts →
      motive eff.env (eff.flow.target index lines.length) code texts →
      motive env index code (eff.output ++ texts))
    (h : Prints l lines env index code texts) : motive env index code texts := by
  obtain ⟨visits, env₁, hpath, rfl⟩ := h
  induction hpath with
  | stop houtside => exact stop _ _ houtside
  | fail htext hrun =>
    rw [Language.printed, hrun]
    exact fail _ _ _ _ htext hrun
  | go htext hrun hrest ih =>
    rw [Language.printed, hrun]
    exact go _ _ _ _ _ _ htext hrun ⟨_, _, hrest, rfl⟩ ih

/-! ## A blank line at the end -/

theorem run_blank (l : Language) (env : Environment) : l.run env "" = .ok { env } := by
  rfl

/-- Where a line of a batch goes on does not depend on the length of the batch, unless it leaves it. -/
theorem target_cases (flow : Flow) (index : Nat) (length length' : Int) :
    (flow = .leave ∧ flow.target index length = length) ∨ flow.target index length = flow.target index length' := by
  cases flow with
  | leave => exact .inl ⟨rfl, rfl⟩
  | next | jump => exact .inr rfl

theorem getElem?_concat_cases {index : Nat} {text : String} (h : (lines ++ [""])[index]? = some text) :
    lines[index]? = some text ∨ index = lines.length ∧ text = "" := by
  rcases Nat.lt_or_ge index lines.length with hlt | hge
  · exact .inl (by rwa [List.getElem?_append_left hlt] at h)
  · rw [List.getElem?_append_right hge, List.getElem?_singleton] at h
    split at h
    · cases h
      exact .inr ⟨by omega, rfl⟩
    · cases h

/-- **A blank line at the end of a batch makes no difference.** -/
theorem prints_concat_blank :
    Prints l (lines ++ [""]) env index code texts ↔ Prints l lines env index code texts := by
  have hlength : ((lines ++ [""]).length : Int) = lines.length + 1 := by simp
  constructor
  · refine Prints.induct (fun env index houtside => ?_) (fun env index text reason htext hrun => ?_)
      fun env index text eff code texts htext hrun _ ih => ?_
    · exact prints_stop (by omega)
    · rcases getElem?_concat_cases htext with htext | ⟨-, rfl⟩
      · exact prints_fail htext hrun
      · cases hrun
    · rcases getElem?_concat_cases htext with htext | ⟨rfl, rfl⟩
      · refine .go htext hrun ?_
        rcases target_cases eff.flow index (lines ++ [""]).length lines.length with ⟨hleave, htarget⟩ | htarget
        · obtain ⟨rfl, rfl⟩ := ih.outside (by omega)
          rw [hleave]
          exact prints_stop (by simp [Flow.target])
        · rwa [htarget] at ih
      · cases hrun
        obtain ⟨rfl, rfl⟩ := ih.outside (by simp [Flow.target])
        exact prints_stop (by omega)
  · refine Prints.induct (fun env index houtside => ?_) (fun env index text reason htext hrun => ?_)
      fun env index text eff code texts htext hrun hrest ih => ?_
    · by_cases hlast : index = lines.length
      · subst hlast
        have hrest : Prints l (lines ++ [""]) env (Flow.next.target lines.length (lines ++ [""]).length) 0 [] :=
          prints_stop (by simp [Flow.target])
        exact hrest.go List.getElem?_concat_length (run_blank l env)
      · exact prints_stop (by omega)
    · exact prints_fail (by rw [List.getElem?_append_left (List.getElem?_eq_some_iff.mp htext).1, htext]) hrun
    · refine .go (by rw [List.getElem?_append_left (List.getElem?_eq_some_iff.mp htext).1, htext]) hrun ?_
      rcases target_cases eff.flow index lines.length (lines ++ [""]).length with ⟨hleave, htarget⟩ | htarget
      · obtain ⟨rfl, rfl⟩ := hrest.outside (by omega)
        rw [hleave]
        exact prints_stop (by simp [Flow.target])
      · rwa [htarget] at ih

/-! ## Batches -/

variable {e e₁ : Engine σ}

theorem prints_of_runs {ran : List (Nat × String)} (h : Standing l lines e) (hruns : Runs e ran e₁)
    (hrest : Prints l lines e₁.env e₁.progress.cursor code texts) :
    ∃ before, e₁.outputs = e.outputs ++ before ∧
      Prints l lines e.env e.progress.cursor code (before ++ texts) := by
  induction hruns with
  | refl => exact ⟨[], (List.append_nil _).symm, hrest⟩
  | @line e e₁ e₂ index text ran hnext hline _ ih =>
    obtain ⟨hstanding, -, hfollows, -⟩ := h.of_line hline
    obtain ⟨hcursor, htext⟩ := nextLine?_eq_some_iff.mp hnext
    obtain ⟨before, hbefore, hprints⟩ := ih hstanding hrest
    rw [hcursor]
    generalize hrun : l.run e.env text = meaning at hfollows
    cases hfollows with
    | @success eff _ _ henv hgoal houtputs =>
      rw [henv, hgoal, cursor_passing, h.batch] at hprints
      refine ⟨eff.output ++ before, ?_, ?_⟩
      · rw [hbefore, houtputs, List.append_assoc]
        rfl
      · rw [List.append_assoc]
        exact .go (h.batch ▸ htext) hrun hprints
    | failure _ _ _ hcode => exact absurd rfl hcode

theorem prints_of_stops {last : Option (Nat × String)} (h : Standing l lines e)
    (hstops : Stops e last (.ok code e₁)) :
    e₁.outputs = e.outputs ∧ Prints l lines e.env e.progress.cursor code [] := by
  cases hstops with
  | behind hnext => exact ⟨rfl, prints_stop (h.batch ▸ nextLine?_eq_none_iff.mp hnext)⟩
  | @failed index text _ _ hnext hline hcode =>
    obtain ⟨-, -, hfollows, -⟩ := h.of_line hline
    obtain ⟨hcursor, htext⟩ := nextLine?_eq_some_iff.mp hnext
    rw [hcursor]
    generalize hrun : l.run e.env text = meaning at hfollows
    cases hfollows with
    | success => exact absurd rfl hcode
    | failure _ _ hreason _ _ houtputs => exact ⟨houtputs, hreason ▸ prints_fail (h.batch ▸ htext) hrun⟩

section Runs

variable (hstandard : IsStandard e) (hidle : e.busy = false) (hrecordable : e.Recordable)
  (hnone : e.setup.onCompletion = none)
include hstandard hidle hrecordable hnone

/-- A batch that ends does so with a code, and has printed what the machine prints. -/
theorem prints_of_runBatch {r : EStateM.Result Fault (Engine σ) Int} (h : Carries (.runBatch lines) e r) :
    ∃ code e₁ texts, r = .ok code e₁ ∧ e₁.outputs = e.outputs ++ texts ∧
      Prints (language e) lines e.env 0 code texts := by
  obtain ⟨r₁, hproceeds, rfl⟩ := (runBatch_iff hstandard.hooks hidle).mp h
  obtain ⟨ran, e₁, last, hruns, hstops⟩ := proceeds_iff.mp hproceeds
  have hopened := hstandard.standing lines
  have hstanding := hopened.runs hruns
  obtain ⟨code, e₂, rfl⟩ :=
    hstanding.code_of_stops (hopened.recordable_of_runs hrecordable hruns) hstops
  obtain ⟨houtputs, hprints⟩ := prints_of_stops hstanding hstops
  obtain ⟨before, hbefore, hprints⟩ := prints_of_runs hopened hruns hprints
  obtain ⟨hheld, -, hcarries⟩ := batch_of_stops hidle hstandard.hooks hruns hstops
  have hsetup : (completed code (Process.freed e₂)).setup = e.setup := congrArg Held.setup hheld
  have hr := (hcarries _).mp h
  rw [callBack_of_none (by rw [hsetup]; exact hnone)] at hr
  refine ⟨code, _, before, hr, ?_, by rwa [List.append_nil] at hprints⟩
  have hopenedOutputs : (opened lines (entered e)).outputs = e.outputs :=
    outputs_announcing (e := { entered e with
      progress := { (entered e).progress with batch := lines, cursor := 0 } }) (.batchStart lines)
  rw [outputs_completed, show (Process.freed e₂).outputs = e₂.outputs from rfl, houtputs, hbefore, hopenedOutputs]

/-- **A batch of standard commands comes to a code with some output exactly if the machine does.** -/
theorem runBatch_prints_iff :
    (∃ e₁, Carries (.runBatch lines) e (.ok code e₁) ∧ e₁.outputs = e.outputs ++ texts) ↔
      Prints (language e) lines e.env 0 code texts := by
  constructor
  · rintro ⟨e₁, hcarries, houtputs⟩
    obtain ⟨code₁, e₂, texts₁, hr, houtputs₁, hprints⟩ := prints_of_runBatch hstandard hidle hrecordable hnone hcarries
    cases hr
    rw [houtputs, List.append_cancel_left_eq] at houtputs₁
    rwa [houtputs₁]
  · intro h
    obtain ⟨visits, env₁, hpath, -⟩ := id h
    obtain ⟨r, hcarries⟩ := (runBatch_ends_iff hstandard hidle hrecordable lines).mpr ⟨visits, code, env₁, hpath⟩
    obtain ⟨code₁, e₁, texts₁, rfl, houtputs, hprints⟩ := prints_of_runBatch hstandard hidle hrecordable hnone hcarries
    obtain ⟨rfl, rfl⟩ := h.unique hprints
    exact ⟨e₁, hcarries, houtputs⟩

end Runs

end CommandBatch.Standard
