import CommandBatch.Decimal.Binary

/-!
# The shortest decimal that reads back

Among the decimals that lie in the interval of reals that round to a given floating-point number,
the one with the fewest digits is sought, and of two such the nearer. The search walks over the
grids of decimals with 1, 2, … digits and tests on each the two neighbours of the number. All
arithmetic is exact.

The number is `m · 2 ^ q` throughout, with `m` positive, and `num / den` is a ratio of naturals.
-/

namespace CommandBatch.Decimal

/-- The positive decimal `digits · 10 ^ exponent`. -/
structure Scaled where
  digits : Nat
  exponent : Int
  deriving DecidableEq, Repr

/-- `m · 2 ^ q · 10 ^ (-k)` as a numerator and a denominator. -/
def ratio (m : Nat) (q k : Int) : Nat × Nat :=
  (m * twoTo q.toNat * tenTo (-k).toNat, twoTo (-q).toNat * tenTo k.toNat)

/-- `10 ^ k ≤ m · 2 ^ q`. -/
def reaches (m : Nat) (q k : Int) : Bool :=
  let (num, den) := ratio m q k
  den ≤ num

/-- The exponent of the leading decimal digit of `m · 2 ^ q`: an estimate from the binary
exponent, put right by exact comparison. -/
def leadingExponent (m : Nat) (q : Int) : Int :=
  let k := ((m.log2 + q) * 30103).fdiv 100000
  if !reaches m q k then k - 1 else if reaches m q (k + 1) then k + 1 else k

/-- The whole number nearest to `num / den`; a half goes to the even neighbour. -/
def nearestEven (num den : Nat) : Nat :=
  let a := num / den
  let rest := 2 * (num % den)
  if rest < den || (rest == den && a % 2 == 0) then a else a + 1

/-- `m · 2 ^ q` rounded to a multiple of `10 ^ k`. -/
def roundTo (m : Nat) (q k : Int) : Scaled :=
  let (num, den) := ratio m q k
  ⟨nearestEven num den, k⟩

/-- The decimal on the grid of multiples of `10 ^ k` that reads back as `m · 2 ^ q`, if there is
one; of two, the nearer. The interval of the reals that round to the number reaches half a step of
the floating-point grid to each side, a quarter downwards from a power of two, and holds its ends
exactly when `m` is even. -/
def onGrid? (m : Nat) (q k : Int) : Option Scaled :=
  let (num, den) := ratio (4 * m) (q - 2) k
  let (low, _) := ratio (4 * m - if m = twoTo 52 ∧ q > -1074 then 1 else 2) (q - 2) k
  let (high, _) := ratio (4 * m + 2) (q - 2) k
  let readsBack := fun c =>
    if m % 2 = 0 then low ≤ c * den && c * den ≤ high else low < c * den && c * den < high
  let a := num / den
  match readsBack a, readsBack (a + 1) with
  | true, true => some ⟨nearestEven num den, k⟩
  | true, false => some ⟨a, k⟩
  | false, true => some ⟨a + 1, k⟩
  | false, false => none

/-- The shortest decimal that reads back as `m · 2 ^ q`. Seventeen digits always suffice. -/
def shortest (m : Nat) (q : Int) : Scaled :=
  let e := leadingExponent m q
  ((List.range 17).findSome? fun (n : Nat) => onGrid? m q (e - n)).getD (roundTo m q (e - 16))

/-- The digits of a decimal without zeros at the end, and the exponent that goes with them. -/
def Scaled.significant (d : Scaled) : List Char × Int :=
  let all := Nat.toDigits 10 d.digits
  let kept := (all.reverse.dropWhile (· == '0')).reverse
  (kept, d.exponent + (all.length - kept.length : Nat))

end CommandBatch.Decimal
