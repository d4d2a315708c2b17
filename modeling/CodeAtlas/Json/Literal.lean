import CodeAtlas.Json.Number
import CodeAtlas.Text.Reads

/-!
# The parts of JSON texts

Blanks and number literals: what reading a value and passing over one have in common. Their form is
strict, without leading zeros and with digits on both sides of a point.
-/

set_option autoImplicit false

namespace CodeAtlas.Json

open Text

def isSpace (c : Char) : Bool := c == ' ' || c == '\n' || c == '\t' || c == '\r'

def skipSpace (cs : List Char) : List Char := cs.dropWhile isSpace

/-- The digits before the point: a zero stands alone. -/
def readWhole : Reads (List Nat) := fun cs => do
  let (digits, rest) ← readDigits cs
  match digits with
  | 0 :: _ :: _ => none
  | _ => return (digits, rest)

def readFraction : Reads (List Nat)
  | '.' :: cs => readDigits cs
  | cs => some ([], cs)

def readExponent (cs : List Char) : Option (Option Int × List Char) :=
  let value (digits : List Nat) : Int := Int.ofNat (ofDigits 10 digits)
  match cs with
  | c :: rest =>
    if c == 'e' || c == 'E' then
      match rest with
      | '-' :: rest => (readDigits rest).map fun (ds, r) => (some (-value ds), r)
      | '+' :: rest => (readDigits rest).map fun (ds, r) => (some (value ds), r)
      | rest => (readDigits rest).map fun (ds, r) => (some (value ds), r)
    else some (none, cs)
  | [] => some (none, cs)

/-- A number literal in its parts, whatever its value. -/
def readLiteral : Reads NumberLiteral := fun cs => do
  let (negative, cs) := match cs with
    | '-' :: rest => (true, rest)
    | _ => (false, cs)
  let (whole, cs) ← readWhole cs
  let (fraction, cs) ← readFraction cs
  let (exponent, cs) ← readExponent cs
  return ({ negative, whole, fraction, exponent }, cs)

end CodeAtlas.Json
