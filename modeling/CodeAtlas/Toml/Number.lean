import CodeAtlas.Decimal.Nearest
import CodeAtlas.Text.Reads
import CodeAtlas.Toml.Basic

/-!
# Numbers and points in time of TOML

Digits may be grouped by single underscores. Integers have 64 bits with a sign and may also be written
in three other bases; floats that are too large are refused, with the exception of negative ones,
which become infinite.
-/

set_option autoImplicit false

namespace CodeAtlas.Toml

open Text

/-! ## Digits -/

/-- Digits of a base, at least one, with single underscores between them. -/
def readGrouped (base : Nat) : List Char → Option (List Nat × List Char)
  | [] => none
  | c :: cs => do
    let first ← (hexValue? c).filter (· < base)
    match cs with
    | '_' :: rest =>
      let (digits, rest) ← readGrouped base rest
      return (first :: digits, rest)
    | rest =>
      match readGrouped base rest with
      | some (digits, rest) => return (first :: digits, rest)
      | none => if (rest.head? >>= hexValue?).any (· < base) then none else return ([first], rest)

/-- A sign, and whether it is a minus. -/
def readSign : List Char → Bool × List Char
  | '-' :: cs => (true, cs)
  | '+' :: cs => (false, cs)
  | cs => (false, cs)

/-- The digits of a decimal integer: a zero stands alone. -/
def readWhole : Reads (List Nat)
  | '0' :: cs => some ([0], cs)
  | cs => readGrouped 10 cs

/-! ## Integers and floats -/

/-- An integer that fits 64 bits with a sign. -/
def fitInt? (value : Int) : Option Toml :=
  if Int64.minValue.toInt ≤ value ∧ value ≤ Int64.maxValue.toInt then some (.int value) else none

/-- An integer in one of the other bases, after its mark. -/
def readBased (base : Nat) : Reads Toml := fun cs => do
  let (digits, rest) ← readGrouped base cs
  return (← fitInt? (ofDigits base digits), rest)

/-- The exponent of a float, if there is one. -/
def readExponent : Reads (Option Int)
  | c :: cs =>
    if c == 'e' || c == 'E' then do
      let (negative, cs) := readSign cs
      let (digits, rest) ← readGrouped 10 cs
      let value : Int := ofDigits 10 digits
      return (some (if negative then -value else value), rest)
    else some (none, c :: cs)
  | [] => some (none, [])

/-- The digits after the point of a float, if there is one. -/
def readFraction : Reads (Option (List Nat))
  | '.' :: cs => (readGrouped 10 cs).map fun (digits, rest) => (some digits, rest)
  | cs => some (none, cs)

/-- The name of a special float. -/
def readSpecial (negative : Bool) : Reads Toml
  | 'i' :: 'n' :: 'f' :: cs => some (.float (if negative then -1.0 / 0.0 else 1.0 / 0.0), cs)
  | 'n' :: 'a' :: 'n' :: cs => some (.float (0.0 / 0.0), cs)
  | _ => none

/-- An integer or a float in decimal digits. -/
def readDecimal (negative : Bool) : Reads Toml := fun cs => do
  let (whole, cs) ← readWhole cs
  let (fraction, cs) ← readFraction cs
  let (exponent, cs) ← readExponent cs
  if fraction.isNone && exponent.isNone then
    let value : Int := ofDigits 10 whole
    return (← fitInt? (if negative then -value else value), cs)
  else
    let x := (Decimal.ofParts negative whole (fraction.getD []) (exponent.getD 0)).toFloat
    if x == 1.0 / 0.0 then none else return (.float x, cs)

/-- A number that is no point in time. -/
def readNumber : Reads Toml
  | '0' :: 'x' :: cs => readBased 16 cs
  | '0' :: 'o' :: cs => readBased 8 cs
  | '0' :: 'b' :: cs => readBased 2 cs
  | cs =>
    let (negative, rest) := readSign cs
    (readSpecial negative rest).or (readDecimal negative rest)

/-! ## Points in time -/

/-- A fixed number of digits, with a value in a range. -/
def readField (count low high : Nat) : Reads Nat := fun cs => do
  let field := cs.take count
  let value ← natOfDigits? field
  if field.length = count && low ≤ value && value ≤ high then return (value, cs.drop count) else none

def expect? (c : Char) : List Char → Option (List Char)
  | x :: cs => if x == c then some cs else none
  | [] => none

/-- The number of days of a month. -/
def daysOfMonth (year month : Nat) : Nat :=
  if month = 2 then
    if year % 4 = 0 && (year % 100 != 0 || year % 400 = 0) then 29 else 28
  else if [4, 6, 9, 11].contains month then 30
  else 31

/-- What follows a date. -/
def afterDate? (cs : List Char) : Option (List Char) := do
  let (year, cs) ← readField 4 0 9999 cs
  let (month, cs) ← readField 2 1 12 (← expect? '-' cs)
  let (_, cs) ← readField 2 1 (daysOfMonth year month) (← expect? '-' cs)
  return cs

/-- What follows a time of day; seconds may have any number of decimals. -/
def afterTime? (cs : List Char) : Option (List Char) := do
  let (_, cs) ← readField 2 0 23 cs
  let (_, cs) ← readField 2 0 59 (← expect? ':' cs)
  let (_, cs) ← readField 2 0 60 (← expect? ':' cs)
  match cs with
  | '.' :: rest => (readDigits rest).map (·.2)
  | rest => return rest

/-- What follows the offset from universal time, if there is one. -/
def afterOffset? : List Char → Option (List Char)
  | c :: cs =>
    if c == 'Z' || c == 'z' then some cs
    else if c == '+' || c == '-' then do
      let (_, cs) ← readField 2 0 23 cs
      let (_, cs) ← readField 2 0 59 (← expect? ':' cs)
      return cs
    else some (c :: cs)
  | [] => some []

/-- What follows a date, and a time and an offset after it if there are any. -/
def afterMoment? (cs : List Char) : Option (List Char) :=
  match afterDate? cs with
  | some (c :: rest) =>
    if c == 'T' || c == 't' || c == ' ' then
      match afterTime? rest with
      | some rest => afterOffset? rest
      | none => some (c :: rest)
    else some (c :: rest)
  | some [] => some []
  | none => afterTime? cs

/-- A number or a point in time. -/
def readNumeric : Reads Toml := fun cs =>
  match afterMoment? cs with
  | some rest => some (.moment, rest)
  | none => readNumber cs

end CodeAtlas.Toml
