import CommandBatch.Proofs.Run.Abreast
import CommandBatch.Proofs.Run.Naming
import CommandBatch.Proofs.Run.Sharing

/-!
# A line run by itself

A line can be run by itself or as a batch that has no other line.  The first begins with the cursor behind
the line, the second with the cursor at it, and moves it on once the start of the batch has been announced.
So hooks that are told of the start can tell the two runs apart by the cursor, and nothing else can: from
then on the engines are equal (`abreast_proceed`), and the batch ends behind its line as long as nobody
moves the cursor or adds to the batch (`OneLine`).  Therefore both runs come to the same
(`runBatch_singleton`).
-/

namespace CommandBatch

variable {σ : Type}

/-- The request moves neither the cursor nor the batch, and registers only handlers of a class. -/
def Request.Unmoving (calls : Handler σ → Prop) : Request σ → Prop
  | .edit (.jump _) | .edit (.moveCursor _) | .edit (.appendLine _) => False
  | .registerCommand _ handler => ∀ h, handler = some h → calls h
  | _ => True

/-- The views are the same but for the cursor. -/
def View.SameButCursor (v v' : View) : Prop := ∃ cursor, v = { v' with cursor }

namespace Engine

open Act Process Run

/-- Nobody moves the cursor or the batch: neither handlers, which belong to a class, nor hooks and step
rules.  Those that are told of the start of a batch do not look at the cursor either. -/
structure Unmoving (calls : Handler σ → Prop) (e : Engine σ) : Prop where
  equipped : e.Equipped calls
  closed : ∀ h, calls h → ∀ args, (h args).Asks (Request.Unmoving calls)
  hooks : e.services.hooks.Asks (Request.Unmoving calls)
  unseen : ∀ hook ∈ e.services.hooks.hooksFor .batchStart, ∀ n, (hook.handler n).Heeds View.SameButCursor

/-- The engine runs a batch of one line, with the cursor behind it, and with the hooks of `e₀`. -/
structure OneLine (calls : Handler σ → Prop) (e₀ : Engine σ) (line : String) (e : Engine σ) : Prop where
  busy : e.busy = true
  hooks : e.services.hooks = e₀.services.hooks
  equipped : e.Equipped calls
  cursor : e.progress.cursor = 1
  batch : e.progress.batch = [line]

/-- The first engine is the second with its cursor at another line. -/
def SameButCursor (cursor : Int) (e e' : Engine σ) : Prop :=
  e = { e' with progress := { e'.progress with cursor } }

variable {calls : Handler σ → Prop} {e₀ e e₁ : Engine σ} {line : String}

/-! ## What the line leaves alone -/

theorem OneLine.congr (h : OneLine calls e₀ line e) (hbusy : e₁.busy = e.busy)
    (hhooks : e₁.services.hooks = e.services.hooks) (hcursor : e₁.progress.cursor = e.progress.cursor)
    (hbatch : e₁.progress.batch = e.progress.batch) (hequipped : e₁.Equipped calls) :
    OneLine calls e₀ line e₁ :=
  ⟨hbusy.trans h.busy, hhooks.trans h.hooks, hequipped, hcursor.trans h.cursor, hbatch.trans h.batch⟩

theorem OneLine.edit {ed : Edit} (h : OneLine calls e₀ line e) (hask : Request.Unmoving calls (.edit ed)) :
    OneLine calls e₀ line (engineOf (edit ed e)) := by
  cases ed with
  | jump | moveCursor | appendLine => exact hask.elim
  | output | note | setVariable | clearShownLines => exact h.congr rfl rfl rfl rfl h.equipped
  | deleteVariable name =>
    simp only [Engine.edit, deleteVariable, bind_apply, get_apply]
    cases e.env.delete name <;> exact h.congr rfl rfl rfl rfl h.equipped
  | registerType name lexis priority =>
    simp only [Engine.edit, register, Services.register, bind_apply, get_apply]
    cases e.services.types.register name lexis priority <;> exact h.congr rfl rfl rfl rfl h.equipped

theorem oneLine_withstands : Withstands (Request.Unmoving calls) (OneLine calls e₀ line) where
  host _ _ h := h.congr rfl rfl rfl rfl h.equipped
  edit _ hask := preserves_iff.mpr fun _ h => h.edit hask
  registerCommand _ _ hask := preserves_registerCommand fun _ _ h hc =>
    h.congr rfl rfl rfl rfl (h.equipped.equip hask hc)
  interpret _ _ := preserves_interpret (fun _ h => h.congr rfl rfl rfl rfl h.equipped)
    (fun _ _ h _ => h.congr rfl rfl rfl rfl h.equipped)
    fun _ _ h _ => h.congr rfl rfl rfl rfl h.equipped

/-- Others leave the line alone as well. -/
theorem oneLine_steadfast (hclosed : ∀ h, calls h → ∀ args, (h args).Asks (Request.Unmoving calls)) :
    Steadfast (fun _ => OneLine calls e₀ line) (Request.Unmoving calls) (OneLine calls e₀ line) :=
  { toWithstands := oneLine_withstands
    busy := fun _ h => h.busy
    others := fun _ _ _ h => h
    failing := fun _ _ _ h => h.congr rfl rfl rfl rfl h.equipped
    calls := fun _ name command args h hfind => hclosed _ (h.equipped name command hfind) args }

theorem OneLine.asks (h : OneLine calls e₀ line e) (hunmoving : Unmoving calls e₀) :
    e.services.hooks.Asks (Request.Unmoving calls) := by
  rw [h.hooks]
  exact hunmoving.hooks

theorem OneLine.announcing (h : OneLine calls e₀ line e) (n : Notice) :
    OneLine calls e₀ line (announcing n e) := by
  cases n <;> exact h.congr rfl rfl rfl rfl h.equipped

theorem preserves_announce (hunmoving : Unmoving calls e₀) (n : Notice) :
    (announce n).Preserves (OneLine calls e₀ line) := fun _ h =>
  oneLine_withstands.announce (fun _ _ _ h => h.congr rfl rfl rfl rfl h.equipped) (h.asks hunmoving)
    (h.announcing n)

theorem preserves_openLine (hunmoving : Unmoving calls e₀) (index : Nat) (text : String) :
    (openLine index text).Preserves (OneLine calls e₀ line) :=
  Preserves.bind (f := fun _ => _) (fun _ h => h.congr rfl rfl rfl rfl h.equipped) fun _ =>
    (preserves_announce hunmoving _).bind fun _ => oneLine_withstands.interpret text trivial

theorem preserves_closeLine (hunmoving : Unmoving calls e₀) (index : Nat) (text : String) (code : Int) :
    (closeLine index text code).Preserves (OneLine calls e₀ line) := by
  have hlog : (logStep index text code).Preserves (OneLine calls e₀ line) := fun e h =>
    oneLine_withstands.logStep (fun _ _ h => h.congr rfl rfl rfl rfl h.equipped) (h.asks hunmoving)
      (h.congr rfl rfl rfl rfl h.equipped) (fun _ h => h) fun _ => h
  refine hlog.bind fun _ => (preserves_announce hunmoving _).bind fun _ => ?_
  by_cases hcode : code ≠ 0
  · simp only [if_pos hcode]
    exact Preserves.bind (fun _ h => h) fun _ => (preserves_announce hunmoving _).bind fun _ =>
      preserves_pure code
  · simp only [if_neg hcode]
    exact preserves_pure code

theorem upholds_oneLine_step (hunmoving : Unmoving calls e₀) (fuel index : Nat) (text : String) :
    (step (carryOut fuel) index text).Upholds (fun _ => OneLine calls e₀ line)
      (OneLine calls e₀ line) :=
  have hsteadfast := oneLine_steadfast hunmoving.closed
  upholds_step (preserves_openLine hunmoving index text) (hsteadfast.execute (hsteadfast.carryOut fuel))
    (preserves_closeLine hunmoving index text)

/-! ## Before the line -/

theorem sameButCursor_uniform (cursor : Int) : Uniform False (SameButCursor (σ := σ) cursor) where
  env _ _ h := h ▸ rfl
  services _ _ h := h ▸ rfl
  setEnv _ _ _ h := h ▸ rfl
  setServices _ _ _ h := h ▸ rfl
  record _ := respects_modify fun _ _ h => h ▸ rfl
  shownLines := respects_modify fun _ _ h => h ▸ rfl
  cursor := False.elim
  batch := False.elim

theorem sameButCursor_veils (cursor : Int) :
    Veils (Request.Unmoving calls) View.SameButCursor (SameButCursor (σ := σ) cursor) where
  view := fun _ _ h => ⟨cursor, h ▸ rfl⟩
  host := fun _ _ h => ⟨h ▸ rfl, fun _ => h ▸ rfl⟩
  edit ed hask := (sameButCursor_uniform cursor).edit fun hmoves => by
    cases ed <;> first | exact hask | exact hmoves
  registerCommand _ _ _ := (sameButCursor_uniform cursor).register "" _
  interpret text _ := by
    rintro _ e rfl
    rw [interpret_eq, interpret_eq]
    cases Line.read e.services.types.types e.setup.marks text with
    | ok l => exact .ok rfl
    | error fault =>
      cases fault with
      | failure f => exact .ok rfl
      | _ => exact .error rfl

/-- The start of the batch is announced alike, and leaves the engine with its line. -/
theorem Unmoving.openBatch (h : Unmoving calls e) (line : String) :
    Alike (fun _ e₁ e₁' => SameButCursor 0 e₁ e₁' ∧ OneLine calls e line e₁')
      (fun _ e₁ e₁' => SameButCursor 0 e₁ e₁' ∧ OneLine calls e line e₁')
      (openBatch [line] 0 (entered e)) (openBatch [line] 1 (entered e)) := by
  rw [openBatch_eq, openBatch_eq]
  have hkept : (announce (.batchStart [line])).Ensures (fun _ => OneLine calls e line)
      (fun _ => OneLine calls e line) (batched [line] 1 (entered e)) :=
    preserves_announce h _ _ ⟨rfl, rfl, h.equipped, rfl, rfl⟩
  refine Alike.and_ensures ?_ hkept
  exact (sameButCursor_veils 0).announce (sameButCursor_uniform 0).record (fun _ _ h => h ▸ rfl) rfl
    (fun hook hmem => h.hooks.hooks hook (List.mem_filter.mp hmem).1) h.unseen rfl

/-! ## The line, and behind it -/

/-- The batch runs its line on the engine that the line is run on by itself, and ends behind it. -/
theorem abreast_proceed {e e' : Engine σ} (hunmoving : Unmoving calls e₀) (h : SameButCursor 0 e e')
    (hline : OneLine calls e₀ line e') (fuel lines : Nat) :
    (proceed (carryOut fuel) (lines + 2) e).Abreast (fun e₁ e₁' => e₁ = e₁' ∧ OneLine calls e₀ line e₁)
      (fun _ => Eq) (fun _ => Eq) (step (carryOut fuel) 0 line e') := by
  have hnext : nextLine? e.progress = some (0, line) := by
    rw [h, nextLine?_eq_some_iff]
    exact ⟨rfl, by simp [hline.batch]⟩
  have hpassing : passing 0 e = e' := by
    rw [h]
    simp [passing, ← hline.cursor]
  have hproceed : proceed (carryOut fuel) (lines + 2) e =
      (step (carryOut fuel) 0 line >>= fun code =>
        if code = 0 then proceed (carryOut fuel) (lines + 1) else pure code : Process σ Int)
        (passing 0 e) := by
    conv_lhs => unfold proceed
    simp only [hnext]
    rfl
  rw [hproceed, hpassing]
  refine (upholds_oneLine_step hunmoving fuel 0 line e' hline).abreast.andThen_left fun r r' hr => ?_
  cases hr with
  | error h => exact .ended (.error h.1)
  | @ok code e₁ _ h =>
    obtain ⟨rfl, h⟩ := h
    show ((if code = 0 then proceed (carryOut fuel) (lines + 1) else pure code : Process σ Int) e₁).Abreast
      _ _ _ (.ended (.ok code e₁))
    by_cases hcode : code = 0
    · have hend : nextLine? e₁.progress = none := by
        rw [nextLine?_eq_none_iff, h.cursor, h.batch]
        simp
      rw [if_pos hcode, hcode]
      unfold proceed
      rw [hend]
      exact .ended (.ok rfl)
    · rw [if_neg hcode]
      exact .ended (.ok rfl)

/-- Both runs open their batch, run the line and are completed. -/
theorem Unmoving.abreast (h : Unmoving calls e) (line : String) (fuel : Nat) :
    (carryOut (fuel + 3) (.runBatch [line]) e).Abreast (fun e₁ e₁' => e₁ = e₁' ∧ OneLine calls e line e₁)
      (fun _ => Eq) (fun _ e₁ e₁' => ∃ cursor, SameButCursor cursor e₁ e₁')
      (carryOut (fuel + 3) (.runLine line) e) := by
  have hsame (e₁ : Engine σ) : ∃ cursor, SameButCursor cursor e₁ e₁ := ⟨e₁.progress.cursor, rfl⟩
  cases hbusy : e.busy with
  | true =>
    have hrefused (x : Process σ Int) := during_apply_of_busy x hbusy
    show (during _ e).Abreast _ _ _ (during _ e)
    rw [hrefused, hrefused]
    exact .ended (.error (hsame e))
  | false =>
    have henter : (ofAct enter e).Abreast (fun e₁ e₁' => e₁ = e₁' ∧ OneLine calls e line e₁)
        (fun _ e₁ e₁' => e₁ = entered e ∧ e₁' = entered e)
        (fun _ e₁ e₁' => ∃ cursor, SameButCursor cursor e₁ e₁') (ofAct enter e) := by
      refine .ended ?_
      rw [enter_of_idle hbusy]
      exact .ok ⟨rfl, rfl⟩
    refine abreast_bind henter fun _ e₁ e₁' he => ?_
    obtain ⟨rfl, rfl⟩ := he
    refine abreast_bind (Q := fun _ => Eq) (abreast_releasing ?_) fun code e₂ e₂' h₂ => ?_
    · refine abreast_bind (.ended ((h.openBatch line).mono (fun _ _ _ h => h) fun _ _ _ h₁ =>
        ⟨0, by rw [h₁.1]; rfl⟩)) fun _ e₁ e₁' h₁ => ?_
      exact (abreast_proceed h h₁.1 h₁.2 (fuel + 2) fuel).mono (fun _ _ _ h₂ => congrArg freed h₂)
        fun _ _ e₂ h₂ => by
          rw [h₂]
          exact hsame (freed e₂)
    · subst h₂
      refine .ended ?_
      cases complete code e₂ with
      | ok => exact .ok rfl
      | error => exact .error (hsame _)

/-- **A line run by itself comes to the same as a batch of that line.**  Nobody moves the cursor or the
batch, and hooks that are told of the start of a batch do not look at the cursor.  Then the two runs go
abreast, on engines that are equal wherever they wait.  If one ends, so does the other: with the same code,
on equal engines, or with the same fault, on engines that are equal but for the cursor. -/
theorem runBatch_singleton (h : Unmoving calls e) (line : String) :
    (∀ fuel, (carryOut (fuel + 3) (.runBatch [line]) e).Abreast
        (fun e₁ e₁' => e₁ = e₁' ∧ OneLine calls e line e₁) (fun _ => Eq)
        (fun _ e₁ e₁' => ∃ cursor, SameButCursor cursor e₁ e₁')
        (carryOut (fuel + 3) (.runLine line) e)) ∧
      (∀ r, Carries (.runBatch [line]) e r → ∃ r', Carries (.runLine line) e r' ∧
        Alike (fun _ => Eq) (fun _ e₁ e₁' => ∃ cursor, SameButCursor cursor e₁ e₁') r r') ∧
      ∀ r', Carries (.runLine line) e r' → ∃ r, Carries (.runBatch [line]) e r ∧
        Alike (fun _ => Eq) (fun _ e₁ e₁' => ∃ cursor, SameButCursor cursor e₁ e₁') r r' :=
  ⟨h.abreast line, carries_of_abreast 3 (h.abreast line)⟩

/-- A host whose command breaks off, and whose hook says that a batch starts. -/
def heralding : Engine Unit :=
  { hosted [] [booming] with
    services :=
      { (hosted [] [booming]).services with
        hooks := { hooks := [⟨0, .batchStart, 0, fun _ => .andThen (.output "start") .silent, "host"⟩] } } }

theorem runBatch_singleton_heralding :
    ∃ e₁, Carries (.runBatch ["BOOM"]) heralding (.ok 1 e₁) ∧
      Carries (.runLine "BOOM") heralding (.ok 1 e₁) := by
  have hasks : ∀ hook ∈ heralding.services.hooks.hooks, ∀ n,
      (hook.handler n).Asks (Request.Unmoving (· = booming.handler)) := by
    intro hook hmem n
    rw [List.mem_singleton.mp hmem]
    exact Script.asks_andThen trivial Script.asks_silent
  have hunmoving : Unmoving (· = booming.handler) heralding := by
    refine ⟨fun name command hfind => ?_, fun _ hcalls args => ?_, ⟨hasks, nofun⟩, fun hook hmem n => ?_⟩
    · have hfind : (({} : CommandRegistry (Handler Unit)).register booming).find? name = some command := hfind
      rw [CommandRegistry.find?_register] at hfind
      split at hfind <;> cases hfind
      rfl
    · subst hcalls
      trivial
    · rw [List.mem_singleton.mp (List.mem_filter.mp hmem).1]
      intro reply
      cases reply <;> trivial
  obtain ⟨r, hcarries, hreturns⟩ := carries_of_any (t := .runBatch ["BOOM"]) (e := heralding) 3
    (returns 1 fun _ => true) (by decide +kernel)
  obtain ⟨e₁, rfl, -⟩ := of_returns hreturns
  obtain ⟨r', hcarries', halike⟩ := (runBatch_singleton hunmoving "BOOM").2.1 _ hcarries
  cases halike with
  | ok h =>
    obtain rfl := h
    exact ⟨e₁, hcarries, hcarries'⟩

end Engine

end CommandBatch
