import CodeAtlas.Decimal.Rounded

/-!
# The nearest float of a decimal

A decimal is a fraction of natural numbers. Its nearest float has a mantissa of 53 bits, or fewer
where the exponent is as small as it can be; a number halfway between two floats goes to the one with
the even mantissa. A number beyond the largest float is infinite.
-/

set_option autoImplicit false

namespace CodeAtlas

namespace Decimal

/-- The largest whole number `e` with `2 ^ e` not above a positive fraction. -/
def log2Fraction (numerator denominator : Nat) : Int :=
  let e : Int := numerator.log2 - denominator.log2
  if denominator <<< e.toNat ≤ numerator <<< (-e).toNat then e else e - 1

/-- The bits of infinity. -/
def infinityBits : Nat := 2047 <<< 52

/-- The bits of the float nearest to a positive fraction. A mantissa that is rounded up to the next
power of two carries into the exponent by itself. -/
def nearestBits (numerator denominator : Nat) : Nat :=
  let exponent : Int := max (log2Fraction numerator denominator - 52) (-1074)
  let mantissa := roundDiv (numerator <<< (-exponent).toNat) (denominator <<< exponent.toNat)
  if mantissa < 1 <<< 52 then mantissa
  else min ((exponent + 1074).toNat <<< 52 + mantissa) infinityBits

/-- Decimals whose first digit stands beyond these places are infinite or zero as floats. -/
def placeLimit : Int := 400

/-- The nearest float. -/
def toFloat (d : Decimal) : Float :=
  let places : Int := (Nat.toDigits 10 d.digits).length + d.exponent
  let bits :=
    if d.digits = 0 || places < -placeLimit then 0
    else if placeLimit < places then infinityBits
    else nearestBits (d.digits * Nat.pow 10 d.exponent.toNat) (Nat.pow 10 (-d.exponent).toNat)
  Float.ofBits (bits + if d.negative then 1 <<< 63 else 0).toUInt64

/-- The decimal with some digits before and after the point, times a power of ten. -/
def ofParts (negative : Bool) (whole fraction : List Nat) (exponent : Int) : Decimal where
  negative := negative
  digits := (whole ++ fraction).foldl (fun n d => n * 10 + d) 0
  exponent := exponent - fraction.length

end Decimal

end CodeAtlas
