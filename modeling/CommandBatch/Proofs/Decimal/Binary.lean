import CommandBatch.Decimal.Binary
import CommandBatch.Decimal.Integer
import Mathlib.Data.Nat.Digits.Defs

/-!
# The range of floating-point numbers

A finite floating-point number has a magnitude of at most 53 bits and a power of two of at most 971, so
its whole part has fewer than 1025 bits (`natAbs_lt_of_truncate?`).  That is far below the most digits that
a whole number may be written with.
-/

namespace CommandBatch.Decimal

theorem twoTo_pos (k : Nat) : 0 < twoTo k := Nat.two_pow_pos k

theorem twoTo_add (j k : Nat) : twoTo (j + k) = twoTo j * twoTo k := Nat.pow_add 2 j k

theorem twoTo_le_twoTo {j k : Nat} (h : j ≤ k) : twoTo j ≤ twoTo k := Nat.pow_le_pow_right (by decide) h

/-- The greatest magnitude and the greatest power of two. -/
theorem floatParts_finite {x : Float} {negative : Bool} {m : Nat} {q : Int}
    (h : floatParts x = .finite negative m q) : m < twoTo 53 ∧ q ≤ 971 := by
  have hfraction : x.toBits.toNat % twoTo 52 < twoTo 52 := Nat.mod_lt _ (twoTo_pos 52)
  have hexponent : x.toBits.toNat / twoTo 52 % twoTo 11 < 2048 := Nat.mod_lt _ (twoTo_pos 11)
  have hdouble : twoTo 53 = twoTo 52 + twoTo 52 := rfl
  unfold floatParts at h
  dsimp only at h
  generalize x.toBits.toNat / twoTo 52 % twoTo 11 = exponent at h hexponent
  generalize x.toBits.toNat % twoTo 52 = fraction at h hfraction
  by_cases hspecial : exponent = 2047
  · rw [if_pos hspecial] at h
    by_cases hzero : fraction = 0
    · rw [if_pos hzero] at h
      cases h
    · rw [if_neg hzero] at h
      cases h
  · rw [if_neg hspecial] at h
    by_cases hsmall : exponent = 0
    · rw [if_pos hsmall] at h
      cases h
      exact ⟨by omega, by omega⟩
    · rw [if_neg hsmall] at h
      cases h
      exact ⟨by omega, by omega⟩

/-- The whole part of a floating-point number lies below the power of two behind the greatest. -/
theorem natAbs_lt_of_truncate? {x : Float} {i : Int} (h : truncate? x = some i) :
    i.natAbs < twoTo 1024 := by
  unfold truncate? at h
  cases hparts : floatParts x with
  | notANumber | infinite => simp [hparts] at h
  | finite negative m q =>
    obtain ⟨hm, hq⟩ := floatParts_finite hparts
    simp only [hparts, Option.some.injEq] at h
    have hsign (n : Nat) : (if negative then -(n : Int) else n).natAbs = n := by
      cases negative <;> simp
    rw [← h, hsign]
    by_cases hpower : q ≥ 0
    · rw [if_pos hpower]
      calc m * twoTo q.toNat < twoTo 53 * twoTo q.toNat := Nat.mul_lt_mul_of_pos_right hm (twoTo_pos _)
        _ = twoTo (53 + q.toNat) := (twoTo_add 53 _).symm
        _ ≤ twoTo 1024 := twoTo_le_twoTo (by omega)
    · rw [if_neg hpower]
      calc m / twoTo (-q).toNat ≤ m := Nat.div_le_self ..
        _ < twoTo 53 := hm
        _ ≤ twoTo 1024 := twoTo_le_twoTo (by decide)

/-- A number of so few bits has no more digits than may be written. -/
theorem length_toDigits_of_lt {n : Nat} (h : n < twoTo 1024) : (Nat.toDigits 10 n).length ≤ digitLimit := by
  have hbase (k : Nat) : twoTo k ≤ 10 ^ k := Nat.pow_le_pow_left (by decide) k
  have hlt : n < 10 ^ digitLimit :=
    calc n < twoTo 1024 := h
      _ ≤ twoTo digitLimit := twoTo_le_twoTo (by decide)
      _ ≤ 10 ^ digitLimit := hbase digitLimit
  exact Nat.toDigits_length 10 _ _ (by decide) hlt

/-- The whole part of a floating-point number has no more digits than may be written. -/
theorem length_toDigits_of_truncate? {x : Float} {i : Int} (h : truncate? x = some i) :
    (Nat.toDigits 10 i.natAbs).length ≤ digitLimit := length_toDigits_of_lt (natAbs_lt_of_truncate? h)

end CommandBatch.Decimal
