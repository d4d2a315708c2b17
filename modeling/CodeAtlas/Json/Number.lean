import CodeAtlas.Decimal.Shortest
import CodeAtlas.Json.Basic

/-!
# Number literals

How the digits of a literal become a value. An integer that fits is taken as it is. Everything else
goes through a significand of at most 64 bits and a power of ten: digits that no longer fit are
dropped, those before the point still counting towards the exponent. The significand is made a
float and then multiplied or divided by the power, each step rounding on its own. This is quick and
nearly always gives the float nearest to the literal, but not always: the last bit may differ. So a
float that is written and read again may come back as its neighbour, and `reread?` says as which.
-/

set_option autoImplicit false

namespace CodeAtlas.Json

/-- A literal in its parts. -/
structure NumberLiteral where
  negative : Bool := false
  whole : List Nat
  fraction : List Nat := []
  exponent : Option Int := none
deriving DecidableEq, Repr

namespace NumberLiteral

/-- The digits that fit into 64 bits, as a number, and how many of them there are not. -/
def takeDigits : Nat → List Nat → Nat × Nat
  | acc, [] => (acc, 0)
  | acc, d :: ds =>
    if acc * 10 + d < UInt64.size then takeDigits (acc * 10 + d) ds else (acc, ds.length + 1)

/-- The significand and the power of ten that a literal stands for. -/
def scaled (lit : NumberLiteral) : Nat × Int :=
  let (whole, dropped) := takeDigits 0 lit.whole
  let (significand, lost) := takeDigits whole lit.fraction
  let kept := lit.fraction.length - lost
  (significand, (dropped : Int) - kept + lit.exponent.getD 0)

/-- The largest power of ten that is a float. -/
def maxPower : Nat := 308

def powerOfTen (n : Nat) : Float := Float.ofScientific 1 false n

/-- A significand times a power of ten, or nothing if it is too large. Divisions beyond the largest
power are done in steps. -/
def scaleFloat? (f : Float) (exponent : Int) : Option Float :=
  if 0 ≤ exponent then
    if exponent ≤ maxPower then
      let product := f * powerOfTen exponent.toNat
      if product.isInf then none else some product
    else if f == 0 then some f else none
  else if -exponent ≤ maxPower then some (f / powerOfTen (-exponent).toNat)
  else if f == 0 then some f
  else scaleFloat? (f / powerOfTen maxPower) (exponent + maxPower)
termination_by (-exponent).toNat
decreasing_by simp only [maxPower] at *; omega

/-- The value of a literal, or nothing if it is too large for a float. -/
def value? (lit : NumberLiteral) : Option Json :=
  let (significand, exponent) := lit.scaled
  let asFloat := do
    let f ← scaleFloat? significand.toUInt64.toFloat exponent
    return Json.float (if lit.negative then -f else f)
  if lit.fraction.isEmpty && lit.exponent.isNone && exponent == 0 then
    if !lit.negative then some (.int significand)
    else if 0 < significand ∧ significand ≤ UInt64.size / 2 then some (.int (-significand))
    else asFloat
  else asFloat

/-! ## The literal of a float -/

/-- Numbers of up to this many places before the point are written without an exponent. -/
def maxPlaces : Int := 16

/-- Numbers with fewer zeros than this after the point are written without an exponent. -/
def maxZeros : Int := 5

/-- How a decimal is written: in plain places where these are few, else with one digit before the
point and an exponent. There is always a point or an exponent. -/
def ofDecimal (d : Decimal) : NumberLiteral :=
  let digits := (Nat.toDigits 10 d.digits).map fun c => c.toNat - '0'.toNat
  -- The number of digits before the point; negative for zeros behind it.
  let places : Int := digits.length + d.exponent
  let negative := d.negative
  if d.digits == 0 then { negative, whole := [0], fraction := [0] }
  else if 0 ≤ d.exponent && places ≤ maxPlaces then
    { negative, whole := digits ++ List.replicate d.exponent.toNat 0, fraction := [0] }
  else if 0 < places && places ≤ maxPlaces then
    { negative, whole := digits.take places.toNat, fraction := digits.drop places.toNat }
  else if -maxZeros < places && places ≤ 0 then
    { negative, whole := [0], fraction := List.replicate (-places).toNat 0 ++ digits }
  else { negative, whole := digits.take 1, fraction := digits.drop 1, exponent := some (places - 1) }

/-- The literal of a finite float. It has as few digits as will do; of two equally near decimals the even
one is taken. -/
def ofFloat (x : Float) : NumberLiteral := ofDecimal (.ofFloat .toEven x)

/-- The text of a literal. -/
def text (lit : NumberLiteral) : String :=
  let digits := fun ds : List Nat => String.join (ds.map toString)
  (if lit.negative then "-" else "") ++ digits lit.whole ++
    (if lit.fraction.isEmpty then "" else "." ++ digits lit.fraction) ++
    lit.exponent.elim "" fun e => s!"e{e}"

end NumberLiteral

/-- What a float becomes when it is written and read again; nothing if it is no finite number. -/
def reread? (x : Float) : Option Float :=
  if x.isFinite then
    match (NumberLiteral.ofFloat x).value? with
    | some (.float y) => some y
    | _ => none
  else none

end CodeAtlas.Json
