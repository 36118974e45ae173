/-!
# The parts of a floating-point number

A finite floating-point number is a sign, a magnitude and a power of two. Conversions between
floating-point and whole numbers are read off these parts with exact arithmetic.
-/

namespace CommandBatch.Decimal

/-- The power of two. -/
def twoTo (k : Nat) : Nat := Nat.pow 2 k

/-- The power of ten. -/
def tenTo (k : Nat) : Nat := Nat.pow 10 k

/-- What a floating-point number is. -/
inductive FloatParts where
  | notANumber
  | infinite (negative : Bool)
  /-- The number `± magnitude · 2 ^ power`. -/
  | finite (negative : Bool) (magnitude : Nat) (power : Int)
  deriving DecidableEq, Repr

/-- The sign, exponent and fraction fields of a floating-point number, put together. -/
def floatParts (x : Float) : FloatParts :=
  let bits := x.toBits.toNat
  let negative := bits / twoTo 63 == 1
  let exponent : Nat := bits / twoTo 52 % twoTo 11
  let fraction : Nat := bits % twoTo 52
  if exponent = 2047 then
    if fraction = 0 then .infinite negative else .notANumber
  else if exponent = 0 then .finite negative fraction (-1074)
  else .finite negative (fraction + twoTo 52) (exponent - 1075)

/-- Positive infinity. -/
def infinity : Float := Float.ofBits 0x7FF0000000000000

/-- The value that is no number. -/
def notANumber : Float := Float.ofBits 0x7FF8000000000000

/-- The number has no fractional part. -/
def isWhole (x : Float) : Bool :=
  match floatParts x with
  | .finite _ m q => q ≥ 0 || m % twoTo (-q).toNat == 0
  | _ => false

/-- The whole number nearest to `x` towards zero, if `x` is finite. -/
def truncate? (x : Float) : Option Int :=
  match floatParts x with
  | .finite negative m q =>
    let n := if q ≥ 0 then m * twoTo q.toNat else m / twoTo (-q).toNat
    some (if negative then -n else n)
  | _ => none

/-- The floating-point number nearest to a whole number, unless it lies beyond the greatest. -/
def ofWhole? (i : Int) : Option Float :=
  let x := Float.ofNat i.natAbs
  if x.isInf then none else some (if i < 0 then -x else x)

end CommandBatch.Decimal
