import CommandBatch.Proofs.Decimal.Binary
import Mathlib

/-!
# Whole numbers among floating-point numbers

The floating-point number nearest to a negative whole number is negative (`neg_of_ofWhole?`).  It is the
opposite of the one nearest to a positive whole number, and that is neither zero nor negative: to round a
number whose first digit stands above the last place of the format neither loses it nor changes its sign
(`hasSign_round`), and neither does storing the result (`HasSign.stored`).

No first digit is lost either, so a whole number of more than 1024 bits is stored as infinite.  The others
keep to the digits that a whole number may be written with (`isWritable_of_ofWhole?`).
-/

namespace CommandBatch.Decimal

open Float.Model UnpackedFloat

/-- A number of this sign that is not zero, with a mantissa and an exponent that can be stored. -/
inductive HasSign (s : Sign) : UnpackedFloat → Prop
  | infinity : HasSign s (.infinity s)
  | finite {m : Nat} {e : Int} {hm : 0 < m} (hlt : m < 2 ^ 53) (he : -1074 ≤ e) : HasSign s (.finite s m e hm)

variable {s : Sign} {u : UnpackedFloat}

/-! ## Rounding -/

theorem mantissa_shiftRight (k : Nat) (m : ExtendedMantissa) : (m >>> k).mantissa = m.mantissa / 2 ^ k := by
  induction k with
  | zero => exact (Nat.div_one _).symm
  | succ k ih =>
    show (m >>> k).mantissa / 2 = _
    rw [ih, Nat.div_div_eq_div_mul, Nat.pow_succ]

/-- To the nearest is never below the number without its last places. -/
theorem le_roundedMantissa (m : ExtendedMantissa) : m.mantissa ≤ m.roundedMantissa := by
  obtain ⟨m, round, sticky⟩ := m
  cases round <;> cases sticky <;>
    simp [ExtendedMantissa.roundedMantissa, ExtendedMantissa.accuracy, Accuracy.roundToNearestEven]

theorem targetExponent_eq (t : Int) : Format.binary64.targetExponent t = max (t - 53) (-1074) := rfl

/-- How many places are dropped from a mantissa. -/
def dropped (m : Nat) (e : Int) : Nat :=
  (Format.binary64.targetExponent (totalExponent m e) - e).toNat

theorem dropped_eq (m : Nat) (e : Int) :
    (dropped m e : Int) = max (max ((m.log2 : Int) - 52) (-1074 - e)) 0 := by
  unfold dropped
  rw [targetExponent_eq, totalExponent]
  omega

/-- The first digit is not dropped, and no more than 53 digits are left. -/
theorem div_dropped {m : Nat} {e : Int} (hm : 0 < m) (he : -1074 ≤ m.log2 + e) :
    0 < m / 2 ^ dropped m e ∧ m / 2 ^ dropped m e < 2 ^ 53 ∧ -1074 ≤ e + dropped m e := by
  have hdropped := dropped_eq m e
  have hfirst : 2 ^ m.log2 ≤ m := Nat.log2_self_le hm.ne'
  have hlast : m < 2 ^ (m.log2 + 1) := Nat.lt_log2_self
  have hle : dropped m e ≤ m.log2 := by omega
  refine ⟨?_, ?_, by omega⟩
  · exact Nat.div_pos ((Nat.pow_le_pow_right (by decide) hle).trans hfirst) (Nat.two_pow_pos _)
  · rw [Nat.div_lt_iff_lt_mul (Nat.two_pow_pos _), ← Nat.pow_add]
    exact hlast.trans_le (Nat.pow_le_pow_right (by decide) (by omega))

/-- A number whose first digit stands in a place of the format is rounded to one that has a mantissa, with an
exponent no less than that of the places that are left. -/
theorem roundWithAccuracy_eq {m : Nat} {e : Int} (hm : 0 < m) (he : -1074 ≤ m.log2 + e) :
    ∃ m₁ e₁ hm₁, roundWithAccuracy .binary64 s m e .exact = .finite s m₁ e₁ hm₁ ∧ m₁ < 2 ^ 53 ∧
      e + dropped m e ≤ e₁ ∧ -1074 ≤ e₁ := by
  obtain ⟨hpos, -, hexponent⟩ := div_dropped hm he
  unfold roundWithAccuracy shiftToTargetExponent shiftToExponent
  dsimp only
  -- What is rounded may have one digit more, so it is shifted once again.
  generalize hrounded : ExtendedMantissa.roundedMantissa _ = rounded
  have hrounded : 0 < rounded := by
    rw [← hrounded]
    refine lt_of_lt_of_le ?_ (le_roundedMantissa _)
    rw [mantissa_shiftRight]
    exact hpos
  obtain ⟨hpos, hlt, hexponent⟩ :=
    div_dropped (e := e + dropped m e) hrounded (by omega)
  have hne : (ExtendedMantissa.ofMantissaAndAccuracy rounded .exact >>>
      dropped rounded (e + dropped m e)).mantissa ≠ 0 := by
    rw [mantissa_shiftRight]
    exact hpos.ne'
  refine ⟨_, e + dropped m e + dropped rounded (e + dropped m e), Nat.pos_of_ne_zero hne, dif_neg hne, ?_,
    by omega, hexponent⟩
  rw [mantissa_shiftRight]
  exact hlt

/-- **Rounding keeps the sign**, and makes no number zero whose first digit stands in a place of the
format. -/
theorem hasSign_roundWithAccuracy {m : Nat} {e : Int} (hm : 0 < m) (he : -1074 ≤ m.log2 + e) :
    HasSign s (roundWithAccuracy .binary64 s m e .exact) := by
  obtain ⟨m₁, e₁, hm₁, hrounded, hlt, -, hexponent⟩ := roundWithAccuracy_eq (s := s) hm he
  rw [hrounded]
  exact .finite hlt hexponent

theorem log2_shiftLeft {m : Nat} (hm : 0 < m) (k : Nat) : (m <<< k).log2 = m.log2 + k := by
  have hne : m <<< k ≠ 0 := by
    rw [Nat.shiftLeft_eq]
    exact (Nat.mul_pos hm (Nat.two_pow_pos k)).ne'
  refine (Nat.log2_eq_iff hne).mpr ⟨?_, ?_⟩
  · rw [Nat.shiftLeft_eq, Nat.pow_add]
    exact Nat.mul_le_mul_right _ (Nat.log2_self_le hm.ne')
  · rw [Nat.shiftLeft_eq, Nat.add_right_comm, Nat.pow_add]
    exact Nat.mul_lt_mul_of_pos_right Nat.lt_log2_self (Nat.two_pow_pos k)

theorem hasSign_round {m : Nat} {e : Int} (hm : 0 < m) (he : -1074 ≤ m.log2 + e) :
    HasSign s (UnpackedFloat.round .binary64 s m e) := by
  unfold UnpackedFloat.round decreaseExponent
  dsimp only
  generalize (e - Format.binary64.targetExponent (totalExponent m e)).toNat = k
  have hshift : 0 < m <<< k := by
    rw [Nat.shiftLeft_eq]
    exact Nat.mul_pos hm (Nat.two_pow_pos k)
  refine hasSign_roundWithAccuracy hshift ?_
  rw [log2_shiftLeft hm]
  omega

/-! ## Storing -/

theorem unpackSign_packComponents {e : BitVec 11} {m : BitVec 52} :
    Sign.ofBitVec (unpackSign (packComponents .binary64 s e m)) = s := by
  simp only [unpackSign, packComponents, BitVec.extractLsb]
  rw [BitVec.extractLsb'_append_eq_of_le (by omega), BitVec.extractLsb'_append_eq_of_le (by omega)]
  cases s <;> rfl

/-- What is stored keeps its sign, unless its places are those of zero or of what is no number. -/
theorem hasSign_unpack {e : BitVec 11} {m : BitVec 52} (hspecial : e = -1#11 → m = 0#52)
    (hzero : e = 0#11 → m ≠ 0#52) : HasSign s (unpack .binary64 (packComponents .binary64 s e m)) := by
  have hbias : ((Format.binary64.exponentBias : Nat) : Int) = 1023 := rfl
  have hm : m.toNat < 2 ^ 52 := m.isLt
  unfold UnpackedFloat.unpack
  simp only [unpackMantissa_packComponents, unpackExponent_packComponents, unpackSign_packComponents]
  by_cases hones : e = -1#11
  · rw [if_pos hones, if_pos (hspecial hones)]
    exact .infinity
  · rw [if_neg hones]
    by_cases hsmall : e = 0#11
    · rw [if_pos hsmall, dif_neg (hzero hsmall)]
      refine .finite (by omega) ?_
      rw [hbias]
      omega
    · rw [if_neg hsmall]
      have hpos : 0 < e.toNat := Nat.pos_of_ne_zero fun h => hsmall (BitVec.eq_of_toNat_eq h)
      refine .finite (1#1 ++ m).isLt ?_
      rw [hbias]
      omega

/-- **Storing a number keeps its sign**, also where it becomes infinite. -/
theorem HasSign.stored (h : HasSign s u) : HasSign s (Float.Model.pack u).unpack := by
  show HasSign s (unpack .binary64 (UnpackedFloat.pack .binary64 u))
  have hinfinite : HasSign s (unpack .binary64 (packedInfinity .binary64 s)) := by cases s <;> exact .infinity
  cases h with
  | infinity => exact hinfinite
  | @finite m e hm hlt he =>
    have hbiased : (e + (Format.binary64.exponentBias : Nat) +
        (Format.binary64.mantissaBitsWithoutImplicit : Nat)).toNat = (e + 1075).toNat := by
      show (e + (1023 : Nat) + (52 : Nat)).toNat = _
      omega
    have hmost : Format.binary64.mantissaBits = 53 := rfl
    unfold UnpackedFloat.pack
    dsimp only
    rw [hbiased, hmost]
    -- Too large an exponent makes it infinite.  A mantissa of full length is stored without its first digit, and
    -- a shorter one with the exponent of zero.
    by_cases hlarge : 2 ^ 11 ≤ (e + 1075).toNat + 1
    · rw [if_pos hlarge]
      exact hinfinite
    · rw [if_neg hlarge]
      by_cases hnormal : m.log2 + 1 = 53
      · rw [if_pos hnormal]
        have hexponent : (BitVec.ofNat 11 (e + 1075).toNat).toNat = (e + 1075).toNat := by
          rw [BitVec.toNat_ofNat]
          omega
        refine hasSign_unpack (fun h => ?_) fun h => ?_
        · have h := congrArg BitVec.toNat h
          rw [hexponent] at h
          simp at h
          omega
        · have h := congrArg BitVec.toNat h
          rw [hexponent] at h
          simp at h
          omega
      · rw [if_neg hnormal]
        refine hasSign_unpack (fun h => absurd h (by decide)) fun _ h => ?_
        have hsmall : m < 2 ^ 52 := by
          have hlog : m.log2 < 53 := (Nat.log2_lt hm.ne').mpr hlt
          exact (Nat.log2_lt hm.ne').mp (by omega)
        have h := congrArg BitVec.toNat h
        rw [BitVec.toNat_ofNat, Nat.mod_eq_of_lt hsmall] at h
        exact hm.ne' h

theorem HasSign.neg (h : HasSign s u) : HasSign (-s) u.neg := by
  cases h with
  | infinity => exact .infinity
  | finite hlt he => exact .finite hlt he

theorem HasSign.lt_zero (h : HasSign .negative u) (t : Sign) : u.lt (.zero t) = true := by
  cases h <;> rfl

/-! ## Whole numbers -/

theorem hasSign_normalize {n : Nat} (hn : 0 < n) :
    HasSign .positive (UnpackedFloat.normalize .binary64 n 0 .positive) := by
  have hcompare : compare (n : Int) 0 = .gt := Int.compare_eq_gt.mpr (by omega)
  unfold UnpackedFloat.normalize
  rw [hcompare]
  exact hasSign_round (by omega) (by omega)

/-- Multiplied by one, a number is rounded again. -/
theorem HasSign.mul_one (h : HasSign .positive u) :
    HasSign .positive (u.mul .binary64 (.finite .positive (2 ^ 52) (-52) (Nat.two_pow_pos 52))) := by
  cases h with
  | infinity => exact .infinity
  | @finite m e hm _ he =>
    have hlog : (m * 2 ^ 52).log2 = m.log2 + 52 := by rw [← Nat.shiftLeft_eq, log2_shiftLeft hm]
    exact hasSign_roundWithAccuracy (Nat.mul_pos hm (Nat.two_pow_pos 52)) (by omega)

/-- Whole numbers beyond the exact ones are multiplied by one as well, with places to spare. -/
theorem ofScientific_eq {n : Nat} (hn : 0 < n) :
    ∃ m e hm, UnpackedFloat.ofScientific .binary64 n 0 = .finite .positive m e hm ∧ m < 2 ^ 53 ∧
      (n.log2 : Int) - 52 ≤ e ∧ -1074 ≤ e := by
  have hbits : Format.binary64.mantissaBits = 53 := rfl
  have hrange : (2 : Int) ^ Format.binary64.exponentBits = 2048 := rfl
  have hone : 10 ^ Int.toNat 0 = 1 := rfl
  have hlog : (n <<< 53).log2 = n.log2 + 53 := log2_shiftLeft hn 53
  have hshift : 0 < n <<< 53 := by
    rw [Nat.shiftLeft_eq]
    exact Nat.mul_pos hn (Nat.two_pow_pos 53)
  have hround : ∃ m e hm, roundWithAccuracy .binary64 (.positive * .positive)
      (n <<< Format.binary64.mantissaBits * 10 ^ Int.toNat 0) (-Format.binary64.mantissaBits + 0) .exact =
        .finite .positive m e hm ∧ m < 2 ^ 53 ∧ (n.log2 : Int) - 52 ≤ e ∧ -1074 ≤ e := by
    rw [hone, Nat.mul_one, hbits]
    -- The mantissa is kept from being computed digit by digit.
    generalize n <<< 53 = m at hlog hshift
    obtain ⟨m₁, e₁, hm₁, hrounded, hlt, hdropped, hexponent⟩ :=
      roundWithAccuracy_eq (s := .positive) (e := -(53 : Nat) + 0) hshift (by omega)
    have := dropped_eq m (-(53 : Nat) + 0)
    exact ⟨m₁, e₁, hm₁, hrounded, hlt, by omega, hexponent⟩
  unfold UnpackedFloat.ofScientific
  rw [dif_neg hn.ne', if_neg (by omega), if_neg (by omega), if_pos (Int.le_refl 0)]
  exact hround

/-- **A positive whole number is a positive floating-point number**, or infinity. -/
theorem hasSign_ofNat {n : Nat} (hn : 0 < n) : HasSign .positive (Float.ofNat n).toModel.unpack := by
  have hdef : Float.ofNat n = Float.ofScientific n false 0 := rfl
  rw [hdef]
  unfold Float.ofScientific
  by_cases hexact : n < 2 ^ 53 ∧ 0 ≤ 22
  · rw [dif_pos hexact]
    have hone : (getElem Float.exactlyRepresentablePowersOfTen 0 (by decide)).toModel.unpack =
        .finite .positive (2 ^ 52) (-52) (Nat.two_pow_pos 52) := rfl
    have hnat : n.toUInt64.toNat = n := Nat.mod_eq_of_lt (show n < 2 ^ 64 by omega)
    have hstored : HasSign .positive n.toUInt64.toFloat.toModel.unpack :=
      (hasSign_normalize (hnat.symm ▸ hn)).stored
    show HasSign .positive (Float.Model.pack (n.toUInt64.toFloat.toModel.unpack.mul .binary64
      (getElem Float.exactlyRepresentablePowersOfTen 0 (by decide)).toModel.unpack)).unpack
    rw [hone]
    exact hstored.mul_one.stored
  · rw [dif_neg hexact]
    obtain ⟨m, e, hm, hrounded, hlt, -, hexponent⟩ := ofScientific_eq hn
    show HasSign .positive (Float.Model.pack (UnpackedFloat.ofScientific .binary64 n 0)).unpack
    rw [hrounded]
    exact HasSign.stored (.finite hlt hexponent)

/-- **The floating-point number for a negative whole number is negative.** -/
theorem neg_of_ofWhole? {i : Int} {x : Float} (h : ofWhole? i = some x) (hi : i < 0) : x < 0.0 := by
  unfold ofWhole? at h
  dsimp only at h
  rw [if_pos hi] at h
  split at h
  · cases h
  · cases h
    have hneg := (hasSign_ofNat (n := i.natAbs) (by omega)).neg.stored
    exact decide_eq_true (hneg.lt_zero .positive)

/-! ## The range -/

/-- An exponent beyond the greatest is stored as infinity. -/
theorem isInf_pack {m : Nat} {e : Int} {hm : 0 < m} (he : 972 ≤ e) :
    (Float.Model.pack (.finite .positive m e hm)).isInf = true := by
  have hbiased : (e + (Format.binary64.exponentBias : Nat) +
      (Format.binary64.mantissaBitsWithoutImplicit : Nat)).toNat = (e + 1075).toNat := by
    show (e + (1023 : Nat) + (52 : Nat)).toNat = _
    omega
  have hpacked : UnpackedFloat.pack .binary64 (.finite .positive m e hm) = packedInfinity .binary64 .positive := by
    unfold UnpackedFloat.pack
    dsimp only
    rw [hbiased]
    exact if_pos (show 2 ^ 11 ≤ (e + 1075).toNat + 1 by omega)
  show (unpack .binary64 (UnpackedFloat.pack .binary64 (.finite .positive m e hm))).isInf = true
  rw [hpacked]
  rfl

/-- A whole number of more than 1024 bits is infinite as a floating-point number. -/
theorem isInf_ofNat {n : Nat} (hn : 1024 ≤ n.log2) : (Float.ofNat n).isInf = true := by
  have hpos : 0 < n := Nat.pos_of_ne_zero fun h => by
    rw [h] at hn
    exact absurd hn (by decide)
  have hlarge : ¬(n < 2 ^ 53 ∧ 0 ≤ 22) := fun h => by
    have hlt := (Nat.log2_lt hpos.ne').mpr h.1
    omega
  obtain ⟨m, e, hm, hrounded, -, hexponent, -⟩ := ofScientific_eq hpos
  show (Float.ofScientific n false 0).isInf = true
  unfold Float.ofScientific
  rw [dif_neg hlarge]
  show (Float.Model.pack (UnpackedFloat.ofScientific .binary64 n 0)).isInf = true
  rw [hrounded]
  exact isInf_pack (by omega)

/-- **What is within the range of floating-point numbers can be written.** -/
theorem isWritable_of_ofWhole? {i : Int} {x : Float} (h : ofWhole? i = some x) : isWritable i = true := by
  have hlog (k : Nat) (hk : twoTo k ≤ i.natAbs) : k ≤ i.natAbs.log2 :=
    (Nat.le_log2 (Nat.pos_iff_ne_zero.mp ((twoTo_pos k).trans_le hk))).mpr hk
  have hlt : i.natAbs < twoTo 1024 := by
    by_contra hle
    unfold ofWhole? at h
    dsimp only at h
    rw [isInf_ofNat (hlog 1024 (Nat.le_of_not_lt hle)), if_pos rfl] at h
    cases h
  exact decide_eq_true (length_toDigits_of_lt hlt)

end CommandBatch.Decimal
