/-!
# The shortest decimal of a float

A finite float is a natural number times a power of two, and every real number closer to it than to
any other float reads back as it. `shortest` looks for the coarsest decimal grid with a point among
those numbers, and takes the nearest such point. Where two points are equally near, the format that
is written has to say which of them it wants. All arithmetic is exact, on natural numbers.
-/

set_option autoImplicit false

namespace CodeAtlas

/-- A decimal number: a natural number times a power of ten, with a sign. -/
structure Decimal where
  negative : Bool := false
  digits : Nat
  exponent : Int := 0
deriving DecidableEq, Repr

namespace Decimal

/-- Which of two equally near points is taken. -/
inductive Tie where
  /-- The one above. -/
  | up
  /-- The one with an even last digit. -/
  | toEven
deriving DecidableEq, Repr

/-- A positive binary number `mantissa * 2 ^ exponent`, with what it takes to find the numbers that
round to it. -/
structure Binary where
  mantissa : Nat
  exponent : Int
  /-- Whether the next smaller float is only half as far away as the next larger one. -/
  closerBelow : Bool

namespace Binary

/-- The value of a finite float without its sign. -/
def ofBits (bits : UInt64) : Binary :=
  let field := (bits >>> 52 &&& 0x7ff).toNat
  let fraction := (bits &&& 0xfffffffffffff).toNat
  if field == 0 then ⟨fraction, -1074, false⟩
  else ⟨1 <<< 52 + fraction, field - 1075, fraction == 0 && 1 < field⟩

/-- Quarters of a unit in the last place, as a numerator over `denominator`. -/
def numerator (b : Binary) (quarters : Nat) : Nat := quarters <<< (b.exponent - 2).toNat

def denominator (b : Binary) : Nat := 1 <<< (2 - b.exponent).toNat

/-- Compares `n * 10 ^ k` with a number of quarters. -/
def compareGrid (b : Binary) (n : Nat) (k : Int) (quarters : Nat) : Ordering :=
  compare (n * Nat.pow 10 k.toNat * b.denominator) (b.numerator quarters * Nat.pow 10 (-k).toNat)

/-- Whether `n * 10 ^ k` reads back as the number. The ends of the interval do so exactly for even
mantissas. -/
def readsBack (b : Binary) (n : Nat) (k : Int) : Bool :=
  let even := b.mantissa % 2 == 0
  let low := b.compareGrid n k (4 * b.mantissa - if b.closerBelow then 1 else 2)
  let high := b.compareGrid n k (4 * b.mantissa + 2)
  (low == .gt || even && low == .eq) && (high == .lt || even && high == .eq)

/-- The largest multiple of `10 ^ k` that is not above the number. -/
def floorOnGrid (b : Binary) (k : Int) : Nat :=
  b.numerator (4 * b.mantissa) * Nat.pow 10 (-k).toNat / (Nat.pow 10 k.toNat * b.denominator)

/-- Whether the grid point above `n * 10 ^ k` is taken rather than `n * 10 ^ k` itself: the number lies
above the middle between the two, or in it. -/
def goesAbove (b : Binary) (tie : Tie) (n : Nat) (k : Int) : Bool :=
  match b.compareGrid (2 * n + 1) k (8 * b.mantissa) with
  | .lt => true
  | .gt => false
  | .eq => tie = .up || n % 2 = 1

/-- The nearest point of the grid `10 ^ k` that reads back, if there is one. -/
def onGrid? (b : Binary) (tie : Tie) (k : Int) : Option Nat :=
  let below := b.floorOnGrid k
  match b.readsBack below k, b.readsBack (below + 1) k with
  | true, true => some (if b.goesAbove tie below k then below + 1 else below)
  | true, false => some below
  | false, true => some (below + 1)
  | false, false => none

/-- Every float is at least `10 ^ (-324)`, so this many decimals reach its first digit. -/
def lowestPower : Nat := 400

/-- The power of ten of the first digit. -/
def leadingPower (b : Binary) : Int :=
  ((Nat.toDigits 10 (b.floorOnGrid (-lowestPower))).length : Int) - 1 - lowestPower

/-- The first grid, from coarse to fine, that a point reads back from. -/
def shortestFrom (b : Binary) (tie : Tie) (top : Int) : (digits fuel : Nat) → Nat × Int
  | digits, 0 => (b.floorOnGrid (top - digits), top - digits)
  | digits, fuel + 1 =>
    match b.onGrid? tie (top - digits) with
    | some n => (n, top - digits)
    | none => shortestFrom b tie top (digits + 1) fuel

/-- The search begins one place above the first digit, where a number may still round up to a power of
ten; so the last digit that is found is never a zero. Seventeen digits are always enough. -/
def shortest (b : Binary) (tie : Tie) : Nat × Int := b.shortestFrom tie (b.leadingPower + 1) 0 18

end Binary

/-- The shortest decimal that reads back as a finite float. -/
def ofFloat (tie : Tie) (x : Float) : Decimal :=
  let negative := x.toBits >>> 63 == 1
  let b := Binary.ofBits x.toBits
  if b.mantissa == 0 then { negative, digits := 0 }
  else
    let (digits, exponent) := b.shortest tie
    { negative, digits, exponent }

/-- The digits in their places, without an exponent and with at least one place after the point. -/
def positional (d : Decimal) : String :=
  let digits := Nat.toDigits 10 d.digits
  let sign := if d.negative then "-" else ""
  match d.exponent with
  | .ofNat e =>
    let whole := if d.digits == 0 then digits else digits ++ List.replicate e '0'
    sign ++ String.ofList whole ++ ".0"
  | .negSucc e =>
    let places := e + 1
    let padded := List.replicate (places + 1 - digits.length) '0' ++ digits
    let cut := padded.length - places
    sign ++ String.ofList (padded.take cut) ++ "." ++ String.ofList (padded.drop cut)

end Decimal

end CodeAtlas
