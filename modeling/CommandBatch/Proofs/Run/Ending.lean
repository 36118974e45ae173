import CommandBatch.Engine.Run

/-!
# How operations end

An operation `Ends` on an engine with a result or a fault if it comes to that end when every wait
passes and nothing else happens meanwhile.  An operation that is exhausted does not end; one that
ends does so in one way (`Ends.unique`).  Each combinator of operations has one lemma that says when
it ends, and everything about runs is read off these.

`Below` orders operations by what they come to: whatever the first ends with, the second ends with
too.  Operations that are put together from others are monotone in them, which is why more fuel
never changes an end (`carryOut_below`).
-/

namespace CommandBatch

variable {σ α β : Type}

/-- The engine that an operation leaves behind. -/
def engineOf : EStateM.Result Fault (Engine σ) α → Engine σ
  | .ok _ e => e
  | .error _ e => e

@[simp] theorem engineOf_ok (a : α) (e : Engine σ) : engineOf (.ok a e) = e := rfl

@[simp] theorem engineOf_error (f : Fault) (e : Engine σ) :
    engineOf (.error f e : EStateM.Result Fault (Engine σ) α) = e := rfl

/-! ## Operations that do not wait -/

namespace Act

@[simp] theorem pure_apply (a : α) (e : Engine σ) : (pure a : Act σ α) e = .ok a e := rfl

@[simp] theorem bind_apply (x : Act σ α) (f : α → Act σ β) (e : Engine σ) :
    (x >>= f) e =
      match x e with
      | .ok a e => f a e
      | .error fault e => .error fault e := by
  show EStateM.bind x f e = _
  rw [EStateM.bind.eq_def]
  cases x e <;> rfl

theorem bind_eq_ok {x : Act σ α} {f : α → Act σ β} {e e₂ : Engine σ} {b : β}
    (h : (x >>= f) e = .ok b e₂) : ∃ a e₁, x e = .ok a e₁ ∧ f a e₁ = .ok b e₂ := by
  rw [bind_apply] at h
  cases hx : x e <;> rw [hx] at h
  · exact ⟨_, _, rfl, h⟩
  · cases h

theorem bind_eq_error {x : Act σ α} {f : α → Act σ β} {e e₂ : Engine σ} {fault : Fault}
    (h : (x >>= f) e = .error fault e₂) :
    x e = .error fault e₂ ∨ ∃ a e₁, x e = .ok a e₁ ∧ f a e₁ = .error fault e₂ := by
  rw [bind_apply] at h
  cases hx : x e <;> rw [hx] at h
  · exact .inr ⟨_, _, rfl, h⟩
  · cases h
    exact .inl rfl

@[simp] theorem get_apply (e : Engine σ) : (get : Act σ (Engine σ)) e = .ok e e := rfl

@[simp] theorem modify_apply (f : Engine σ → Engine σ) (e : Engine σ) :
    (modify f : Act σ Unit) e = .ok () (f e) := rfl

@[simp] theorem throw_apply (fault : Fault) (e : Engine σ) :
    (throw fault : Act σ α) e = .error fault e := rfl

@[simp] theorem map_apply (f : α → β) (x : Act σ α) (e : Engine σ) :
    (f <$> x) e =
      match x e with
      | .ok a e => .ok (f a) e
      | .error fault e => .error fault e := by
  show EStateM.map f x e = _
  rw [EStateM.map.eq_def]
  cases x e <;> rfl

@[simp] theorem discard_apply (x : Act σ α) (e : Engine σ) :
    (discard x : Act σ Unit) e =
      match x e with
      | .ok _ e => .ok () e
      | .error fault e => .error fault e :=
  map_apply _ x e

end Act

/-! ## Operations that may wait -/

theorem Run.result?_andThen (r : Run σ α)
    (next : EStateM.Result Fault (Engine σ) α → Run σ β) :
    (r.andThen next).result? = r.result?.bind fun x => (next x).result? := by
  induction r with
  | ended r => rfl
  | waiting e w resume ih => exact ih .resume e
  | exhausted e => rfl

namespace Process

/-- The operation ends, started on an engine, in this way. -/
def Ends (p : Process σ α) (e : Engine σ) (r : EStateM.Result Fault (Engine σ) α) : Prop :=
  (p e).result? = some r

theorem Ends.unique {p : Process σ α} {e : Engine σ} {r r' : EStateM.Result Fault (Engine σ) α}
    (h : p.Ends e r) (h' : p.Ends e r') : r = r' :=
  Option.some.inj (h.symm.trans h')

theorem not_ends_exhausted {e : Engine σ} {r : EStateM.Result Fault (Engine σ) α} :
    ¬Ends (.exhausted : Process σ α) e r := by
  intro h
  cases h

theorem ends_ofAct {act : Act σ α} {e : Engine σ} {r : EStateM.Result Fault (Engine σ) α} :
    (ofAct act).Ends e r ↔ act e = r := by
  simp [Ends, ofAct, Run.result?]

theorem ends_pure {a : α} {e : Engine σ} {r : EStateM.Result Fault (Engine σ) α} :
    (pure a : Process σ α).Ends e r ↔ .ok a e = r := by
  show (Run.ended (.ok a e)).result? = some r ↔ _
  simp [Run.result?]

theorem ends_bind {x : Process σ α} {f : α → Process σ β} {e : Engine σ}
    {r : EStateM.Result Fault (Engine σ) β} :
    (x >>= f).Ends e r ↔
      (∃ a e₁, x.Ends e (.ok a e₁) ∧ (f a).Ends e₁ r) ∨
        ∃ fault e₁, x.Ends e (.error fault e₁) ∧ .error fault e₁ = r := by
  show ((x e).andThen _).result? = some r ↔ _
  rw [Run.result?_andThen, Option.bind_eq_some_iff]
  constructor
  · rintro ⟨a | fault, hx, hr⟩
    · exact .inl ⟨_, _, hx, hr⟩
    · exact .inr ⟨_, _, hx, by simpa [Run.result?] using hr⟩
  · rintro (⟨a, e₁, hx, hr⟩ | ⟨fault, e₁, hx, hr⟩)
    · exact ⟨_, hx, hr⟩
    · exact ⟨_, hx, by simpa [Run.result?] using hr⟩

theorem ends_attempt {x : Process σ α} {e : Engine σ}
    {r : EStateM.Result Fault (Engine σ) (Except Fault α)} :
    x.attempt.Ends e r ↔
      (∃ a e₁, x.Ends e (.ok a e₁) ∧ .ok (.ok a) e₁ = r) ∨
        ∃ fault e₁, x.Ends e (.error fault e₁) ∧ .ok (.error fault) e₁ = r := by
  show ((x e).andThen _).result? = some r ↔ _
  rw [Run.result?_andThen, Option.bind_eq_some_iff]
  constructor
  · rintro ⟨a | fault, hx, hr⟩
    · exact .inl ⟨_, _, hx, by simpa [Run.result?] using hr⟩
    · exact .inr ⟨_, _, hx, by simpa [Run.result?] using hr⟩
  · rintro (⟨a, e₁, hx, hr⟩ | ⟨fault, e₁, hx, hr⟩) <;>
      exact ⟨_, hx, by simpa [Run.result?] using hr⟩

/-- An engine that is free. -/
def freed (e : Engine σ) : Engine σ := { e with busy := false }

theorem ends_releasing {x : Process σ α} {e : Engine σ}
    {r : EStateM.Result Fault (Engine σ) α} :
    x.releasing.Ends e r ↔
      (∃ a e₁, x.Ends e (.ok a e₁) ∧ .ok a (freed e₁) = r) ∨
        ∃ fault e₁, x.Ends e (.error fault e₁) ∧ .error fault (freed e₁) = r := by
  show ((x e).andThen _).result? = some r ↔ _
  rw [Run.result?_andThen, Option.bind_eq_some_iff]
  constructor
  · rintro ⟨a | fault, hx, hr⟩
    · exact .inl ⟨_, _, hx, by simpa [Run.result?, freed] using hr⟩
    · exact .inr ⟨_, _, hx, by simpa [Run.result?, freed] using hr⟩
  · rintro (⟨a, e₁, hx, hr⟩ | ⟨fault, e₁, hx, hr⟩) <;>
      exact ⟨_, hx, by simpa [Run.result?, freed] using hr⟩

theorem ends_wait {w : Wait} {e : Engine σ} {r : EStateM.Result Fault (Engine σ) Unit} :
    (wait w : Process σ Unit).Ends e r ↔ .ok () e = r := by
  show (Run.ended (.ok () e)).result? = some r ↔ _
  simp [Run.result?]

/-- Whatever the first operation ends with, the second ends with too. -/
def Below (p q : Process σ α) : Prop :=
  ∀ ⦃e r⦄, p.Ends e r → q.Ends e r

theorem Below.refl (p : Process σ α) : Below p p := fun _ _ h => h

theorem exhausted_below (p : Process σ α) : Below .exhausted p :=
  fun _ _ h => absurd h not_ends_exhausted

theorem Below.bind {x y : Process σ α} {f g : α → Process σ β} (h : Below x y)
    (hf : ∀ a, Below (f a) (g a)) : Below (x >>= f) (y >>= g) := by
  intro e r hx
  rw [ends_bind] at hx ⊢
  rcases hx with ⟨a, e₁, hx, hr⟩ | ⟨fault, e₁, hx, hr⟩
  · exact .inl ⟨a, e₁, h hx, hf a hr⟩
  · exact .inr ⟨fault, e₁, h hx, hr⟩

theorem Below.attempt {x y : Process σ α} (h : Below x y) : Below x.attempt y.attempt := by
  intro e r hx
  rw [ends_attempt] at hx ⊢
  rcases hx with ⟨a, e₁, hx, hr⟩ | ⟨fault, e₁, hx, hr⟩
  · exact .inl ⟨a, e₁, h hx, hr⟩
  · exact .inr ⟨fault, e₁, h hx, hr⟩

theorem Below.releasing {x y : Process σ α} (h : Below x y) : Below x.releasing y.releasing := by
  intro e r hx
  rw [ends_releasing] at hx ⊢
  rcases hx with ⟨a, e₁, hx, hr⟩ | ⟨fault, e₁, hx, hr⟩
  · exact .inl ⟨a, e₁, h hx, hr⟩
  · exact .inr ⟨fault, e₁, h hx, hr⟩

end Process

/-- A fault that is not noted as the failure of a line, but comes through its execution: the run is called off,
or something that the failure would tell of cannot be written. -/
inductive Fault.ComesThrough : Fault → Prop
  | cancelled : ComesThrough .cancelled
  | unwritable : ComesThrough (.ofConversion .unwritable)

namespace Engine

open Process

/-! ## The execution of a line -/

theorem refuse_of_ne {r : Reason} (h : r ≠ .nameless) (text : String) (e : Engine σ) :
    refuse r text e = fail r text e := by
  cases r with
  | nameless => exact absurd rfl h
  | _ => rfl

theorem refuse_nameless (text : String) (e : Engine σ) :
    refuse .nameless text e = .error (.ofConversion .unwritable) e := rfl

/-- Other data than nothing and whole numbers are quoted in a failure, if they can be written. -/
theorem answerCode_eq {answer : Datum} (hnothing : answer ≠ .nothing) (hwhole : ∀ i, answer ≠ .whole i)
    (command text : String) (e : Engine σ) :
    answerCode command text answer e =
      if answer.isWritable then fail (.answeredData command answer.quoted) text e
      else .error (.ofConversion .unwritable) e := by
  have hanswer : (answerCode command text answer : Act σ Int) =
      (orThrow .ofConversion answer.toQuoted >>= fun shown => fail (.answeredData command shown) text) := by
    cases answer with
    | nothing => exact absurd rfl hnothing
    | whole i => exact absurd rfl (hwhole i)
    | _ => rfl
  rw [hanswer, Act.bind_apply, Datum.toQuoted]
  cases answer.isWritable <;> rfl

/-- How the execution of the line that was interpreted last comes out.  A command that is there and
gets its arguments is called; what becomes of its answer or its fault is settled by `outcomeCode`. -/
inductive Executes (go : Task → Process σ Int) (e : Engine σ) :
    EStateM.Result Fault (Engine σ) Int → Prop
  | nothing (hname : e.progress.command = "") : Executes go e (.ok 0 e)
  | unknown (hname : e.progress.command ≠ "")
      (hfind : e.services.commands.find? e.progress.command = none) :
      Executes go e (fail (.unknownCommand e.progress.command) e.progress.text e)
  | unbound {command : Command (Handler σ)} {reason : Reason} (hname : e.progress.command ≠ "")
      (hfind : e.services.commands.find? e.progress.command = some command)
      (hbind : command.signature.bind e.env e.progress.args = .error reason) :
      Executes go e (refuse reason e.progress.text e)
  | called {command : Command (Handler σ)} {args : List Value} {outcome : Except Fault Datum}
      {e₁ : Engine σ} (hname : e.progress.command ≠ "")
      (hfind : e.services.commands.find? e.progress.command = some command)
      (hbind : command.signature.bind e.env e.progress.args = .ok args)
      (hplay : (playOut go (command.handler args)).attempt.Ends e (.ok outcome e₁)) :
      Executes go e (outcomeCode e.progress.command e.progress.text outcome e₁)

variable {go go' : Task → Process σ Int}

/-- What is left of the execution of a command that is called. -/
theorem ends_call {script : Script σ} {name text : String} {e : Engine σ}
    {r : EStateM.Result Fault (Engine σ) Int} :
    ((do
        let outcome ← (playOut go script).attempt
        .ofAct (outcomeCode name text outcome) : Process σ Int)).Ends e r ↔
      ∃ outcome e₁, (playOut go script).attempt.Ends e (.ok outcome e₁) ∧
        outcomeCode name text outcome e₁ = r := by
  rw [ends_bind]
  constructor
  · rintro (⟨outcome, e₁, hplay, hr⟩ | ⟨fault, e₁, hplay, -⟩)
    · exact ⟨outcome, e₁, hplay, ends_ofAct.mp hr⟩
    · simp [ends_attempt] at hplay
  · rintro ⟨outcome, e₁, hplay, hr⟩
    exact .inl ⟨outcome, e₁, hplay, ends_ofAct.mpr hr⟩

theorem ends_execute {e : Engine σ} {r : EStateM.Result Fault (Engine σ) Int} :
    (execute go).Ends e r ↔ Executes go e r := by
  constructor
  · intro h
    simp only [Ends, execute] at h
    split at h
    · cases h
      exact .nothing ‹_›
    · split at h
      · cases h
        exact .unknown ‹_› ‹_›
      · split at h
        · cases h
          exact .unbound ‹_› ‹_› ‹_›
        · obtain ⟨outcome, e₁, hplay, rfl⟩ := ends_call.mp h
          exact .called ‹_› ‹_› ‹_› hplay
  · intro h
    cases h with
    | nothing hname => simp [Ends, execute, hname, Run.result?]
    | unknown hname hfind => simp [Ends, execute, hname, hfind, Run.result?]
    | unbound hname hfind hbind => simp [Ends, execute, hname, hfind, hbind, Run.result?]
    | called hname hfind hbind hplay =>
      simp only [Ends, execute, hname, hfind, hbind, if_false]
      exact ends_call.mpr ⟨_, _, hplay, rfl⟩

theorem playOut_below (h : ∀ t, Below (go t) (go' t)) :
    (script : Script σ) → Below (playOut go script) (playOut go' script)
  | .done _ => .refl _
  | .raise _ => .refl _
  | .look next => fun e => playOut_below h (next e.view) (e := e)
  | .recall change next =>
    fun e => playOut_below h (next e.host) (e := { e with host := change e.host })
  | .edit _ next => (Below.refl _).bind fun reply => playOut_below h (next reply)
  | .registerCommand _ _ next => (Below.refl _).bind fun reply => playOut_below h (next reply)
  | .interpret _ next => (Below.refl _).bind fun reply => playOut_below h (next reply)
  | .await t next => (h t).attempt.bind fun reply => playOut_below h (next reply)
  | .wait _ next => (Below.refl _).bind fun _ => playOut_below h next

theorem execute_below (h : ∀ t, Below (go t) (go' t)) : Below (execute go) (execute go') := by
  intro e r hr
  rw [ends_execute] at hr ⊢
  cases hr with
  | nothing hname => exact .nothing hname
  | unknown hname hfind => exact .unknown hname hfind
  | unbound hname hfind hbind => exact .unbound hname hfind hbind
  | called hname hfind hbind hplay =>
    exact .called hname hfind hbind ((playOut_below h _).attempt hplay)

theorem step_below (h : ∀ t, Below (go t) (go' t)) (index : Nat) (text : String) :
    Below (step go index text) (step go' index text) := by
  refine (Below.refl _).bind fun code => Below.bind ?_ fun code => .refl _
  by_cases hcode : code = 0
  · simp only [executeUnless, if_pos hcode]
    exact execute_below h
  · simp only [executeUnless, if_neg hcode]
    exact .refl _

theorem proceed_below (h : ∀ t, Below (go t) (go' t)) {n n' : Nat} (hn : n ≤ n') :
    Below (proceed go n) (proceed go' n') := by
  induction n generalizing n' with
  | zero => exact exhausted_below _
  | succ n ih =>
    obtain ⟨n', rfl⟩ : ∃ m, n' = m + 1 := ⟨n' - 1, by omega⟩
    intro e r hr
    simp only [Ends, proceed] at hr ⊢
    split at hr
    · exact hr
    · refine (Below.refl _).bind (fun _ => (step_below h _ _).bind fun code => ?_) hr
      split
      · exact ih (by omega)
      · exact .refl _

theorem during_below {x y : Process σ Int} (h : Below x y) : Below (during x) (during y) :=
  (Below.refl _).bind fun _ => h.releasing.bind fun _ => .refl _

theorem carryOutWith_below (h : ∀ t, Below (go t) (go' t)) {n n' : Nat} (hn : n ≤ n') (t : Task) :
    Below (carryOutWith go n t) (carryOutWith go' n' t) := by
  cases t with
  | execute => exact execute_below h
  | runLine line => exact during_below ((Below.refl _).bind fun _ => step_below h 0 line)
  | runBatch lines => exact during_below ((Below.refl _).bind fun _ => proceed_below h hn)

/-- **More fuel never changes how a task ends.** -/
theorem carryOut_below {n n' : Nat} (hn : n ≤ n') (t : Task) :
    Below (carryOut n t : Process σ Int) (carryOut n' t) := by
  induction n generalizing n' t with
  | zero => exact exhausted_below _
  | succ n ih =>
    obtain ⟨n', rfl⟩ : ∃ m, n' = m + 1 := ⟨n' - 1, by omega⟩
    exact carryOutWith_below (fun t => ih (by omega) t) (by omega) t

end Engine

end CommandBatch
