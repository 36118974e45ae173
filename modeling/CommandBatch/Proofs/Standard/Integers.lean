import CommandBatch.Proofs.Command.Binding
import CommandBatch.Proofs.Line.Integers
import CommandBatch.Proofs.Standard.Foreseen
import CommandBatch.Proofs.Standard.Splitting

/-!
# Whole numbers in variables

Stored in a variable and printed, a whole number comes out as it was written, unless it has more digits than
the limit.  What two lines do to an engine is what they come to (`Language.yield`), so this is read off the
effects of `SET` and `PRINT` on the arguments that the lines are read as (`IsStandard.run_eq`).
-/

namespace CommandBatch.Standard

open Text Token Decimal Engine Process

variable {σ : Type} {e : Engine σ} {env : Environment} {n : Int}

theorem IsStandard.language_eq (h : IsStandard e) :
    language e = ⟨Token.defaults, e.setup.marks, e.services.commands.signatures⟩ := by
  rw [language, h.types]

/-- **What a line of a standard command does**: its arguments are bound, and the command has its effect on
them. -/
theorem IsStandard.run_eq (h : IsStandard e) {text : String} {line : Line}
    (hread : Line.read Token.defaults e.setup.marks text = .ok line) {c : Command (Handler σ)}
    (hc : c ∈ Standard.commands) (hname : c.signature.name = line.command) :
    (language e).run env text = (c.signature.bind env line.args).bind
      (effect e.services.commands.signatures env c.signature.name) := by
  have hne : line.command ≠ "" := by
    have hmem := List.mem_map_of_mem (f := fun c => c.signature.name) hc
    rw [names_commands, hname] at hmem
    intro hempty
    rw [hempty] at hmem
    exact absurd hmem (by decide)
  rw [Language.run, h.language_eq]
  dsimp only
  rw [hread]
  dsimp only
  rw [if_neg hne, CommandRegistry.get?_signatures, ← hname, h.find?_eq hc]
  rfl

/-! ## The two lines -/

/-- The value that the number is stored as. -/
def stored (n : Int) : Value := ⟨TypeName.number, .whole n, none⟩

theorem get?_stored : (env.set "$x" (stored n)).get? "$x" = some (stored n) := by
  rw [Environment.get?, Environment.set, OrderedMap.get?_set, if_pos rfl]

theorem run_storing (h : IsStandard e) (hmarks : e.setup.marks = {})
    (hlimit : (Nat.toDigits 10 n.natAbs).length ≤ digitLimit) :
    (language e).run env (Line.storing n) = .ok { env := env.set "$x" (stored n) } := by
  have hread := (Line.read_storing n).1 hlimit
  rw [← hmarks] at hread
  rw [h.run_eq hread (List.mem_of_getElem? (i := 1) rfl) rfl]
  rfl

theorem format_stored (hlimit : (Nat.toDigits 10 n.natAbs).length ≤ digitLimit) :
    (stored n).format = .ok (.ofList (canonical n)) := by
  have htext : (Datum.whole n).plain = .ofList (canonical n) := by
    rw [← String.ofList_toList (s := (Datum.whole n).plain)]
    exact congrArg String.ofList (toList_wholeText n)
  exact Datum.toText_eq_ok_iff.mpr ⟨decide_eq_true hlimit, htext⟩

theorem run_printing (h : IsStandard e) (hmarks : e.setup.marks = {})
    (hlimit : (Nat.toDigits 10 n.natAbs).length ≤ digitLimit) (hget : env.get? "$x" = some (stored n)) :
    (language e).run env "PRINT $x" = .ok { env, output := [.ofList (canonical n)] } := by
  have hread := Line.read_printing
  rw [← hmarks] at hread
  have hformat : [stored n].mapM Value.format = .ok [.ofList (canonical n)] := by
    rw [List.mapM_cons, format_stored hlimit]
    rfl
  rw [h.run_eq hread (List.mem_of_getElem? (i := 0) rfl) rfl]
  -- the parameter takes any type, so the handler gets what stands under the variable
  refine bind_eq_ok_iff.mpr ⟨[stored n], Signature.bindFrom_cons_eq_ok_iff.mpr
    ⟨stored n, [], ⟨.stored rfl rfl rfl hget, rfl⟩, rfl, rfl⟩, ?_⟩
  show (converted "PRINT" ([stored n].mapM Value.format)).bind _ = _
  rw [hformat]
  rfl

theorem run_oversized (env : Environment) (h : IsStandard e) (hmarks : e.setup.marks = {})
    (hlimit : digitLimit < (Nat.toDigits 10 n.natAbs).length) :
    ∃ origin, (language e).run env (Line.storing n) =
      .error (.parserFailed TypeName.number (.ofList (canonical n)) origin 7) := by
  obtain ⟨origin, hread⟩ := (Line.read_storing n).2 hlimit
  refine ⟨origin, ?_⟩
  rw [Language.run, h.language_eq, hmarks]
  dsimp only
  rw [hread]
  rfl

/-! ## What they come to -/

/-- Storing the number and printing the variable. -/
def roundTrip (n : Int) : List String := [Line.storing n, "PRINT $x"]

/-- What they come to if the number is stored. -/
def printed (env : Environment) (n : Int) : Yield :=
  { env := env.set "$x" (stored n), output := [.ofList (canonical n)] }

theorem yield_printed (h : IsStandard e) (hmarks : e.setup.marks = {})
    (hlimit : (Nat.toDigits 10 n.natAbs).length ≤ digitLimit) :
    (language e).yield 0 env (roundTrip n) = printed env n := by
  simp only [roundTrip, Language.yield, Language.yieldLine, run_storing h hmarks hlimit, Yield.andThen,
    run_printing h hmarks hlimit get?_stored]
  rfl

theorem yield_oversized (env : Environment) (h : IsStandard e) (hmarks : e.setup.marks = {})
    (hlimit : digitLimit < (Nat.toDigits 10 n.natAbs).length) :
    ∃ origin, ∀ rest, (language e).yield 0 env (Line.storing n :: rest) =
      { env, failure := some ⟨.parserFailed TypeName.number (.ofList (canonical n)) origin 7, some 0,
        some (Line.storing n)⟩ } := by
  obtain ⟨origin, hrun⟩ := run_oversized env h hmarks hlimit
  exact ⟨origin, fun rest => by simp only [Language.yield, Language.yieldLine, hrun, Yield.andThen]⟩

theorem yield_first (h : IsStandard e) (hmarks : e.setup.marks = {})
    (hlimit : (Nat.toDigits 10 n.natAbs).length ≤ digitLimit) :
    (language e).yield 0 env [Line.storing n] = { env := env.set "$x" (stored n) } := by
  simp only [Language.yield, Language.yieldLine, run_storing h hmarks hlimit, Yield.andThen]
  rfl

theorem straight_roundTrip (h : IsStandard e) (hmarks : e.setup.marks = {}) :
    ∀ text ∈ roundTrip n, (language e).Straight text := by
  intro text htext
  rw [Language.Straight, Language.command, h.language_eq, hmarks]
  dsimp only
  rcases List.mem_pair.mp htext with rfl | rfl
  · by_cases hlimit : (Nat.toDigits 10 n.natAbs).length ≤ digitLimit
    · rw [(Line.read_storing n).1 hlimit]
      exact ⟨by simp, by simp⟩
    · obtain ⟨origin, hread⟩ := (Line.read_storing n).2 (by omega)
      rw [hread]
      exact ⟨by simp, by simp⟩
  · rw [Line.read_printing]
    exact ⟨by simp, by simp⟩

/-- What comes of storing the number and printing the variable: in one batch and line by line this code and
this, or the batch breaks off behind the first line, which comes to that, because its step cannot be recorded. -/
theorem carries_roundTrip (hstandard : IsStandard e) (hidle : e.busy = false) (hquiet : Unobtrusive e.setup)
    (hmarks : e.setup.marks = {}) (n : Int) :
    (Records e (Line.storing n) →
      let y := (language e).yield 0 e.env (roundTrip n)
      (∃ e₁, Carries (.runBatch (roundTrip n)) e (.ok y.code e₁) ∧ Comes e y e₁) ∧
        ∃ e₁, Fed e (roundTrip n) y.code e₁ ∧ Comes e (y.mapFailure alone) e₁) ∧
    (¬Records e (Line.storing n) → ∃ e₁, Carries (.runBatch (roundTrip n)) e (.error (.ofConversion .unwritable) e₁) ∧
      Comes e ((language e).yield 0 e.env [Line.storing n]) e₁) := by
  have hstraight := straight_roundTrip (n := n) hstandard hmarks
  constructor
  · intro hrecords
    have hfirst : RecordsFirst e (roundTrip n) := fun text hhead => Option.some.inj hhead ▸ hrecords
    obtain ⟨e₁, hbatch, -, -, -, hcomes⟩ := runBatch_yields hstandard hidle hquiet _ hstraight hfirst
    obtain ⟨e₂, hfed, hcomes'⟩ := fed_yields hstandard hidle hquiet hstraight hfirst nofun
    exact ⟨⟨e₁, hbatch, hcomes⟩, e₂, hfed, hcomes'⟩
  · intro hrecords
    have hfirst : ¬RecordsFirst e (roundTrip n) :=
      fun h => hrecords (h (Line.storing n) (Option.mem_some_self _))
    exact runBatch_breaks hstandard hidle hfirst

/-- **Whole numbers are stored and printed as they are written.**  A whole number with no more digits than the
limit, not counting its sign, is stored in a variable and comes out as it was written, in one batch and line by
line.  With more digits the line fails in the column of the number, and the variables stay.  Whatever the
separators are, with the types that every engine has no line is failed in this way for anything else.

Either comes of the first line too where a verbose engine cannot write its variables behind it, of which a host
must have set one with too many digits; but the batch breaks off then. -/
theorem whole_numbers_round_trip (hstandard : IsStandard e) (hidle : e.busy = false)
    (hquiet : Unobtrusive e.setup) (hmarks : e.setup.marks = {}) (n : Int) :
    ((Nat.toDigits 10 n.natAbs).length ≤ digitLimit →
      (printed e.env n).env.get? "$x" = some (stored n) ∧
      (Records e (Line.storing n) →
        (∃ e₁, Carries (.runBatch (roundTrip n)) e (.ok 0 e₁) ∧ Comes e (printed e.env n) e₁) ∧
        ∃ e₁, Fed e (roundTrip n) 0 e₁ ∧ Comes e (printed e.env n) e₁) ∧
      (¬Records e (Line.storing n) →
        ∃ e₁, Carries (.runBatch (roundTrip n)) e (.error (.ofConversion .unwritable) e₁) ∧
          Comes e { env := (printed e.env n).env } e₁)) ∧
    (digitLimit < (Nat.toDigits 10 n.natAbs).length →
      ∃ f : Failure, f.code = ErrorCode.parseFailure.toInt ∧ f.column = some 7 ∧ f.line = some 0 ∧
        f.text = some (Line.storing n) ∧
        (Records e (Line.storing n) →
          (∃ e₁, Carries (.runBatch (roundTrip n)) e (.ok ErrorCode.parseFailure.toInt e₁) ∧
            Comes e { env := e.env, failure := some f } e₁) ∧
          ∃ e₁, Fed e (roundTrip n) ErrorCode.parseFailure.toInt e₁ ∧
            Comes e { env := e.env, failure := some f } e₁) ∧
        (¬Records e (Line.storing n) →
          ∃ e₁, Carries (.runBatch (roundTrip n)) e (.error (.ofConversion .unwritable) e₁) ∧
            Comes e { env := e.env, failure := some f } e₁)) ∧
    ∀ marks line r, marks.separators ≠ [] → Line.read Token.defaults marks line = .error (.ofReason r) →
      r.code = ErrorCode.parseFailure.toInt → Line.Oversized marks line r := by
  obtain ⟨hcarries, hbreaks⟩ := carries_roundTrip hstandard hidle hquiet hmarks n
  refine ⟨fun hlimit => ?_, fun hlimit => ?_, fun _ _ _ hne => Line.oversized_of_read hne⟩
  · rw [yield_printed hstandard hmarks hlimit] at hcarries
    rw [yield_first hstandard hmarks hlimit] at hbreaks
    exact ⟨get?_stored, hcarries, hbreaks⟩
  · obtain ⟨origin, hyield⟩ := yield_oversized e.env hstandard hmarks hlimit
    rw [show (language e).yield 0 e.env (roundTrip n) = _ from hyield _] at hcarries
    rw [hyield] at hbreaks
    exact ⟨_, rfl, rfl, rfl, rfl, hcarries, hbreaks⟩

theorem whole_numbers_round_trip_limit :
    (∃ e₁, Carries (.runBatch (roundTrip (-12))) plain (.ok 0 e₁) ∧ Comes plain (printed plain.env (-12)) e₁) ∧
    (∃ e₁ f, Carries (.runBatch (roundTrip ((10 ^ digitLimit : Nat)))) plain
      (.ok ErrorCode.parseFailure.toInt e₁) ∧ Comes plain { env := plain.env, failure := some f } e₁) ∧
    ∃ r, Line.Oversized {} (Line.storing ((10 ^ digitLimit : Nat))) r := by
  have hstandard : IsStandard plain := isStandard_install {} () rfl
  have hquiet : Unobtrusive plain.setup := unobtrusive_of_none rfl
  have hlimit : digitLimit < (Nat.toDigits 10 ((10 ^ digitLimit : Nat) : Int).natAbs).length := by
    rw [Int.natAbs_natCast, ← Nat.not_le, Nat.length_toDigits_le_iff (by decide) (by decide)]
    exact lt_irrefl _
  obtain ⟨hstores, -⟩ := whole_numbers_round_trip hstandard rfl hquiet rfl (-12)
  obtain ⟨-, hfails, honly⟩ := whole_numbers_round_trip hstandard rfl hquiet rfl ((10 ^ digitLimit : Nat) : Int)
  obtain ⟨origin, hread⟩ := (Line.read_storing ((10 ^ digitLimit : Nat) : Int)).2 hlimit
  obtain ⟨f, -, -, -, -, hfed, -⟩ := hfails hlimit
  obtain ⟨⟨e₁, hcarries, hcomes⟩, -⟩ := hfed nofun
  exact ⟨((hstores (by decide)).2.1 nofun).1, ⟨e₁, f, hcarries, hcomes⟩, _, honly {} _ _ (by decide) hread rfl⟩

end CommandBatch.Standard
