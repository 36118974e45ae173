import CommandBatch.Proofs.Standard.Typing

/-!
# What the standard commands raise

A handler of a standard command gets arguments that fit its parameters, and so data that it can convert: what
it raises is a failure that it gives the reason for (`raises_of_mem`).  There is one exception.  `WAIT` takes its
argument for a floating-point number before it looks at the sign, and a whole number beyond their range is none,
whereas `GOTO` and `EXIT` leave whole numbers as they are.
-/

namespace CommandBatch

open Text Decimal Signature

variable {σ : Type}

/-- The datum is a number. -/
inductive Datum.IsNumber : Datum → Prop
  | whole (i : Int) : IsNumber (.whole i)
  | float (x : Float) : IsNumber (.float x)

namespace Standard

open Engine Script Process

/-! ## Arguments -/

section Arguments
variable {p : Parameter} {ps : List Parameter} {args : List Value}

/-- A parameter gets a concrete value of a type that it names, unless it asks for any type or for references. -/
theorem fits_accepted (hany : p.acceptsAny = false) (hreference : p.acceptsReference = false)
    (h : Fits (p :: ps) args) :
    args = [] ∨ ∃ v rest, args = v :: rest ∧ v.IsConcrete ∧ v.type ∈ p.types ∧ Fits ps rest := by
  cases h with
  | nil => exact .inl rfl
  | cons haccepts hvalue hrest =>
    rw [Parameter.accepts, hany, Bool.false_or, List.contains_iff_mem] at haccepts
    exact .inr ⟨_, _, rfl, concrete_of_fits hreference hvalue, haccepts, hrest⟩

theorem isNumber_of_type {type : String} {d : Datum} (hd : d.OfType type) (htype : type ∈ [TypeName.number]) :
    d.IsNumber := by
  cases hd with
  | whole => exact .whole _
  | float x => exact .float x
  | bool | symbol | string | tensor => exact absurd htype (by decide)

/-- Truth values and numbers can be taken for truth values. -/
theorem truth_of_type {type : String} {d : Datum} (hd : d.OfType type)
    (htype : type ∈ [TypeName.bool, TypeName.number]) : ∃ b, d.truth = .ok b := by
  cases hd with
  | tensor => exact absurd htype (by decide)
  | whole | float | bool | symbol | string => exact ⟨_, rfl⟩

/-- Where no parameter asks for references, every argument is concrete. -/
theorem concrete_of_mem (h : Fits ps args) (hps : ∀ p ∈ ps, p.acceptsReference = false) :
    ∀ v ∈ args, v.IsConcrete := by
  induction h with
  | nil => nofun
  | cons _ hvalue _ ih =>
    obtain ⟨hp, hps⟩ := List.forall_mem_cons.mp hps
    exact List.forall_mem_cons.mpr ⟨concrete_of_fits hp hvalue, ih hps⟩

/-- What fits a parameter can be written. -/
theorem isWritable_of_fits (h : Fits ps args) : ∀ v ∈ args, v.datum.isWritable = true := by
  induction h with
  | nil => nofun
  | cons _ hvalue _ ih =>
    refine List.forall_mem_cons.mpr ⟨?_, ih⟩
    rcases hvalue with hconcrete | ⟨hname, -⟩
    · exact hconcrete.isWritable
    · exact hname.isWritable

/-- Every concrete value has a text. -/
theorem format_of_concrete {v : Value} (hv : v.IsConcrete) : ∃ text, v.format = .ok text := by
  unfold Value.format
  split
  · next htype =>
    obtain ⟨b, hb⟩ := truth_of_type hv (by simp [htype])
    rw [hb]
    exact ⟨_, rfl⟩
  · exact ⟨_, Datum.toText_eq_ok_iff.mpr ⟨hv.isWritable, rfl⟩⟩

theorem formats_of_concrete (h : ∀ v ∈ args, v.IsConcrete) : ∃ texts, args.mapM Value.format = .ok texts := by
  induction args with
  | nil => exact ⟨[], rfl⟩
  | cons v args ih =>
    obtain ⟨hv, hargs⟩ := List.forall_mem_cons.mp h
    obtain ⟨text, htext⟩ := format_of_concrete hv
    obtain ⟨texts, htexts⟩ := ih hargs
    refine ⟨text :: texts, ?_⟩
    rw [List.mapM_cons, htext, htexts]
    rfl

end Arguments

/-! ## Commands -/

/-- What the handler of a standard command may break off with: a failure that it gives a reason for, the end of
a wait that is called off, and, where it is `WAIT`, that its argument lies beyond the range of floating-point
numbers. -/
inductive Raised (name : String) (args : List Value) : Fault → Prop
  | failure {f : Failure} (h : ∀ command origin, f.reason ≠ .commandFailed command origin) :
      Raised name args (.failure f)
  | cancelled : Raised name args .cancelled
  | overflow {v : Value} (hname : name = "WAIT") (hargs : args = [v])
      (hbeyond : v.datum.toFloat = .error .beyondFloat) : Raised name args (.ofConversion .beyondFloat)

variable {args : List Value}

theorem raised_ofReason {name : String} {r : Reason} (h : ∀ command origin, r ≠ .commandFailed command origin) :
    Raised name args (.ofReason r) := .failure h

theorem raised_cannotDelete {name : String} (variableName : String) :
    Raised name args (.ofReason (.cannotDelete variableName)) := raised_ofReason nofun

theorem raised_wholeOf {name : String} {v : Value} {fault : Fault} (hv : v.datum.IsNumber)
    (h : wholeOf name v = .error fault) : Raised name args fault := by
  obtain ⟨type, datum, literal⟩ := v
  cases hv with
  | whole => cases h
  | float x =>
    unfold wholeOf at h
    dsimp only at h
    split at h <;> cases h
    exact raised_ofReason nofun

section Texts
variable {F : Fault → Prop} {next : String → Script σ}

/-- What can be written has a text to go on with. -/
theorem raises_toText {d : Datum} (hd : d.isWritable = true) (h : ∀ text, (next text).Raises F) :
    (Script.converted d.toText next).Raises F := by
  refine raises_converted (fun error herror => ?_) fun text _ => h text
  obtain ⟨hunwritable, -⟩ := Datum.toText_eq_error_iff.mp herror
  rw [hd] at hunwritable
  cases hunwritable

theorem raises_toShown {v : Value} (hv : v.datum.isWritable = true) (h : ∀ text, (next text).Raises F) :
    (Script.converted v.toShown next).Raises F := by
  refine raises_converted (fun error herror => ?_) fun text _ => h text
  rw [Value.toShown, hv, Bool.or_true, if_pos rfl] at herror
  cases herror

end Texts

theorem raises_print (h : ∀ v ∈ args, v.IsConcrete) :
    (print args : Script σ).Raises (Raised "PRINT" args) := by
  obtain ⟨texts, htexts⟩ := formats_of_concrete h
  refine raises_converted (fun error herror => ?_) fun texts _ => ?_
  · rw [htexts] at herror
    cases herror
  · exact raises_granted (fun _ => ⟨_, rfl⟩) raises_silent

theorem raises_set (h : ∀ v ∈ args, v.datum.isWritable = true) :
    (set args : Script σ).Raises (Raised "SET" args) := by
  unfold set
  split
  · exact raises_toText (h _ List.mem_cons_self) fun _ => raises_granted (fun _ => ⟨_, rfl⟩) raises_silent
  · exact raises_silent

theorem raises_delete (h : ∀ v ∈ args, v.datum.isWritable = true) :
    (delete args : Script σ).Raises (Raised "DEL" args) := by
  unfold delete
  split
  · refine raises_toText (h _ List.mem_cons_self) fun name => ?_
    refine raises_andThen (fun e fault e₁ h => ?_) raises_silent
    cases hdelete : e.env.delete name with
    | ok env => simp [Engine.edit, deleteVariable, orThrow, hdelete] at h
    | error reason =>
      have hfault : .ofReason reason = fault := by
        simp [Engine.edit, deleteVariable, orThrow, hdelete] at h
        exact h.1
      obtain rfl := eq_of_delete hdelete
      exact hfault ▸ raised_cannotDelete _
  · exact raises_silent

theorem raises_goto (h : Fits [required [TypeName.number]] args) :
    (goto args : Script σ).Raises (Raised "GOTO" args) := by
  rcases fits_accepted (by decide) (by decide) h with rfl | ⟨target, rest, rfl, hconcrete, htype, h⟩
  · exact raises_silent
  obtain rfl := fits_nil h
  have hnumber := isNumber_of_type hconcrete htype
  refine raises_orRaise (fun _ => raised_wholeOf hnumber) fun _ _ => ?_
  exact raises_granted (fun _ => ⟨_, rfl⟩) raises_silent

theorem raises_wait (h : Fits [required [TypeName.number]] args) :
    (wait args : Script σ).Raises (Raised "WAIT" args) := by
  rcases fits_accepted (by decide) (by decide) h with rfl | ⟨seconds, rest, rfl, hconcrete, htype, h⟩
  · exact raises_silent
  obtain rfl := fits_nil h
  obtain ⟨type, datum, literal⟩ := seconds
  have hnumber : datum.IsNumber := isNumber_of_type hconcrete htype
  -- The number is converted before its sign is looked at, so it may turn out too large whatever its sign.
  refine raises_converted (fun error herror => ?_) fun x _ => ?_
  · cases hnumber with
    | whole i =>
      obtain rfl : error = .beyondFloat := by
        unfold Datum.toFloat at herror
        cases hof : ofWhole? i with
        | some x => simp [hof] at herror
        | none => simpa [hof] using herror.symm
      exact .overflow rfl rfl herror
    | float => cases herror
  · split
    · exact raises_toText hconcrete.isWritable fun _ => raises_failWith (raised_ofReason nofun)
    · exact Script.raises_wait .cancelled raises_silent

theorem raises_help (h : ∀ v ∈ args, v.datum.isWritable = true) :
    (help args : Script σ).Raises (Raised "HELP" args) := by
  have houtput (text : String) (e : Engine σ) : ∃ e₁, Engine.edit (.output text) e = .ok () e₁ := ⟨_, rfl⟩
  unfold help
  split
  · refine raises_look fun v => raises_edits (fun ed hed => ?_) raises_silent
    obtain ⟨s, -, hs⟩ := List.mem_filterMap.mp hed
    split at hs
    · cases hs
      exact houtput _
    · cases hs
  · refine raises_look fun v => raises_toText (h _ List.mem_cons_self) fun shown => ?_
    split
    · exact raises_failWith (raised_ofReason nofun)
    · refine raises_granted (houtput _) ?_
      split
      · exact raises_silent
      · exact raises_granted (houtput _) raises_silent

theorem raises_exit (h : Fits [optional TypeName.number] args) :
    (exit args : Script σ).Raises (Raised "EXIT" args) := by
  refine raises_look fun v => raises_granted (fun _ => ⟨_, rfl⟩) ?_
  rcases fits_accepted (by decide) (by decide) h with rfl | ⟨code, rest, rfl, hconcrete, htype, -⟩
  · exact raises_done _
  · have hnumber := isNumber_of_type hconcrete htype
    exact raises_orRaise (fun _ => raised_wholeOf hnumber) fun _ _ => raises_done _

theorem raises_assert (h : Fits [required [TypeName.bool, TypeName.number]] args) :
    (assert args : Script σ).Raises (Raised "ASSERT" args) := by
  rcases fits_accepted (by decide) (by decide) h with rfl | ⟨value, rest, rfl, hconcrete, htype, h⟩
  · exact raises_silent
  obtain rfl := fits_nil h
  obtain ⟨b, hb⟩ := truth_of_type hconcrete htype
  refine raises_converted (fun error herror => ?_) fun holds _ => ?_
  · rw [hb] at herror
    cases herror
  · split
    · exact raises_silent
    · exact raises_toShown hconcrete.isWritable fun _ => raises_failWith (raised_ofReason nofun)

theorem raises_throw (h : ∀ v ∈ args, v.datum.isWritable = true) :
    (throw args : Script σ).Raises (Raised "THROW" args) := by
  cases args with
  | nil => exact raises_failWith (raised_ofReason nofun)
  | cons message rest =>
    exact raises_toText (h _ List.mem_cons_self) fun _ => raises_failWith (raised_ofReason nofun)

/-- **A standard command raises failures that it gives the reason for**, if its arguments fit. -/
theorem raises_of_mem {c : Command (Handler σ)} (hc : c ∈ commands)
    (h : Fits c.signature.params args) : (c.handler args).Raises (Raised c.signature.name args) := by
  simp only [commands, List.mem_cons, List.not_mem_nil, or_false] at hc
  rcases hc with rfl | rfl | rfl | rfl | rfl | rfl | rfl | rfl | rfl
  · have hany : ∀ p ∈ List.replicate printLimit (optional TypeName.any), p.acceptsReference = false := by
      decide
    exact raises_print (concrete_of_mem h hany)
  · exact raises_set (isWritable_of_fits h)
  · exact raises_delete (isWritable_of_fits h)
  · exact raises_goto h
  · exact raises_wait h
  · exact raises_help (isWritable_of_fits h)
  · exact raises_exit h
  · exact raises_assert h
  · exact raises_throw (isWritable_of_fits h)

end Standard

end CommandBatch
