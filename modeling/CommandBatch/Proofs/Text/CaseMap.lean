import CommandBatch.Proofs.Text.Margins
import CommandBatch.Text.Case
import Mathlib.Data.Nat.Bitwise

/-!
# What the tables of letters lead to

A letter is its own counterpart, or its counterpart is in the tables (`mapCase_cases`).  The tables are small,
but comparing each letter with each run is not; so two sets of letters are turned into sets of bits, and that
these have no bit in common is one evaluation (`not_mem_of_bits`).
-/

namespace CommandBatch.Text

/-! ### Sets of code points -/

/-- A set of code points, with one bit for each of them. -/
def bits (codes : List Nat) : Nat :=
  codes.foldr (fun code set => set ||| 1 <<< code) 0

theorem testBit_bits {codes : List Nat} {code : Nat} :
    (bits codes).testBit code = true ↔ code ∈ codes := by
  induction codes with
  | nil => simp [bits]
  | cons first codes ih =>
    rw [bits, List.foldr_cons, Nat.testBit_lor, Bool.or_eq_true]
    change (bits codes).testBit code = true ∨ _ ↔ _
    rw [ih, Nat.one_shiftLeft, Nat.testBit_two_pow, List.mem_cons, decide_eq_true_eq, or_comm,
      eq_comm]

theorem not_mem_of_bits {xs ys : List Nat} (h : bits xs &&& bits ys = 0) {code : Nat}
    (hx : code ∈ xs) : code ∉ ys := by
  intro hy
  have hbit : (bits xs &&& bits ys).testBit code = true := by
    rw [Nat.testBit_land, testBit_bits.mpr hx, testBit_bits.mpr hy]
    rfl
  rw [h, Nat.zero_testBit] at hbit
  cases hbit

/-! ### The letters of the tables -/

/-- The letters of a run. -/
def CaseRun.codes (run : CaseRun) : List Nat :=
  List.range' run.first ((run.last - run.first) / run.stride + 1) run.stride

theorem CaseRun.mem_codes {run : CaseRun} {code : Nat} (h : run.holds code = true) :
    code ∈ run.codes := by
  obtain ⟨first, last, stride, shift⟩ := run
  simp only [holds, Bool.and_eq_true, decide_eq_true_eq, beq_iff_eq] at h
  obtain ⟨⟨hfirst, hlast⟩, hstride⟩ := h
  refine List.mem_range'.mpr ⟨(code - first) / stride, ?_, ?_⟩
  · have hle : (code - first) / stride ≤ (last - first) / stride :=
      Nat.div_le_div_right (by omega)
    exact Nat.lt_succ_of_le hle
  · change code = first + stride * ((code - first) / stride)
    rw [Nat.mul_div_cancel' (Nat.dvd_of_mod_eq_zero hstride)]
    omega

variable {runs : List CaseRun} {sequences : List (Nat × List Nat)}

/-- The letters that have a counterpart by the tables. -/
def sources (runs : List CaseRun) (sequences : List (Nat × List Nat)) : List Nat :=
  runs.flatMap CaseRun.codes ++ sequences.map (·.1)

/-- The letters of these counterparts. -/
def targets (runs : List CaseRun) (sequences : List (Nat × List Nat)) : List Nat :=
  (runs.flatMap fun run => run.codes.map fun code : Nat => (code + run.shift).toNat) ++
    sequences.flatMap (·.2)

theorem mapCase_of_not_mem {c : Char} (h : c.toNat ∉ sources runs sequences) :
    mapCase runs sequences c = [c] := by
  obtain ⟨hruns, hsequences⟩ := not_or.mp fun he => h (List.mem_append.mpr he)
  have hfind : runs.find? (·.holds c.toNat) = none := by
    refine List.find?_eq_none.mpr ?_
    intro run hrun hholds
    exact hruns (List.mem_flatMap.mpr ⟨run, hrun, run.mem_codes hholds⟩)
  have hlookup : sequences.lookup c.toNat = none := by
    refine List.lookup_eq_none_iff.mpr ?_
    intro sequence hsequence
    refine bne_iff_ne.mpr ?_
    intro he
    exact hsequences (he ▸ List.mem_map_of_mem hsequence)
  simp [mapCase, hfind, hlookup]

/-- **A letter is its own counterpart, or its counterpart consists of letters of the tables.** -/
theorem mapCase_cases (hnonempty : ∀ sequence ∈ sequences, sequence.2 ≠ []) (c : Char) :
    mapCase runs sequences c = [c] ∨
      ∃ codes, mapCase runs sequences c = codes.map Char.ofNat ∧ codes ≠ [] ∧
        ∀ code ∈ codes, code ∈ targets runs sequences := by
  unfold mapCase
  cases hfind : runs.find? (·.holds c.toNat) with
  | some run =>
    right
    have hrun := List.mem_of_find?_eq_some hfind
    have hholds := List.find?_some hfind
    have hcode : c.toNat ∈ run.codes := run.mem_codes hholds
    refine ⟨[(c.toNat + run.shift).toNat], rfl, by simp, ?_⟩
    intro code hmem
    rw [List.mem_singleton.mp hmem]
    exact List.mem_append_left _
      (List.mem_flatMap.mpr ⟨run, hrun, List.mem_map.mpr ⟨_, hcode, rfl⟩⟩)
  | none =>
    cases hlookup : sequences.lookup c.toNat with
    | none => exact Or.inl rfl
    | some codes =>
      right
      obtain ⟨before, after, he, -⟩ := List.lookup_eq_some_iff.mp hlookup
      have hmem : (c.toNat, codes) ∈ sequences := by simp [he]
      refine ⟨codes, rfl, hnonempty _ hmem, ?_⟩
      intro code hcode
      exact List.mem_append_right _ (List.mem_flatMap.mpr ⟨_, hmem, hcode⟩)

/-! ### Blanks -/

/-- The codes of the blanks. -/
def blankCodes : List Nat :=
  List.range' 9 5 ++ List.range' 28 5 ++ [0x85, 0xA0, 0x1680] ++ List.range' 0x2000 11 ++
    [0x2028, 0x2029, 0x202F, 0x205F, 0x3000]

theorem mem_blankCodes {c : Char} (h : isBlank c = true) : c.toNat ∈ blankCodes := by
  simp [isBlank] at h
  simp [blankCodes]
  omega

/-- A code that is no character stands for the character of code zero. -/
theorem toNat_ofNat_mem {code : Nat} {codes : List Nat} (h : code ∈ codes) :
    (Char.ofNat code).toNat ∈ 0 :: codes := by
  unfold Char.ofNat
  by_cases hvalid : code.isValidChar
  · rw [dif_pos hvalid]
    exact List.mem_cons_of_mem _ h
  · rw [dif_neg hvalid]
    exact List.mem_cons_self ..

end CommandBatch.Text
