import CodeAtlas.Decimal.Shortest

/-!
# Floats as whole numbers

The nearest whole number to a float; a number halfway between two goes to the even one. The exact
value of the float decides, so that nothing is rounded twice.
-/

set_option autoImplicit false

namespace CodeAtlas

namespace Decimal

/-- The quotient of two natural numbers, rounded to the nearest and halves to even. -/
def roundDiv (numerator denominator : Nat) : Nat :=
  let below := numerator / denominator
  match compare (2 * (numerator % denominator)) denominator with
  | .lt => below
  | .gt => below + 1
  | .eq => below + below % 2

namespace Binary

/-- The nearest natural number. -/
def round (b : Binary) : Nat := roundDiv (b.numerator (4 * b.mantissa)) b.denominator

end Binary

/-- A float without decimals. The sign stays even where only zero is left of the number. -/
def wholeText (x : Float) : String :=
  let sign := if x.toBits >>> 63 = 0 then "" else "-"
  if x.isNaN then "NaN"
  else if x.isInf then sign ++ "inf"
  else sign ++ toString (Binary.ofBits x.toBits).round

end Decimal

end CodeAtlas
