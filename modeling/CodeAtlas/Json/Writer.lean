import CodeAtlas.Json.Number

/-!
# Writing JSON

The compact form: no blanks, only the characters escaped that must be, floats with their shortest
digits. A float that is no finite number is written as null, which is why a stored one cannot be
read back, and so is what was not readable.
-/

set_option autoImplicit false

namespace CodeAtlas.Json

/-- A character of a string as it is written. -/
def escapeChar (c : Char) : List Char :=
  if c == '"' then ['\\', '"']
  else if c == '\\' then ['\\', '\\']
  else if c == '\n' then ['\\', 'n']
  else if c == '\r' then ['\\', 'r']
  else if c == '\t' then ['\\', 't']
  else if c == '\x08' then ['\\', 'b']
  else if c == '\x0c' then ['\\', 'f']
  else if c.toNat < 0x20 then
    let digits := Nat.toDigits 16 c.toNat
    '\\' :: 'u' :: (List.replicate (4 - digits.length) '0' ++ digits)
  else [c]

def quote (s : String) : String := "\"" ++ String.ofList (s.toList.flatMap escapeChar) ++ "\""

/-- Floats always show a point or an exponent, so that they are read back as floats. -/
def floatText (x : Float) : String :=
  if x.isFinite then (NumberLiteral.ofFloat x).text else "null"

mutual

/-- The compact text of a value. -/
def write : Json → String
  | null => "null"
  | bool true => "true"
  | bool false => "false"
  | int n => toString n
  | float x => floatText x
  | str s => quote s
  | arr items => "[" ++ ",".intercalate (writeItems items) ++ "]"
  | unreadable => "null"
  | obj members => "\x7b" ++ ",".intercalate (writeMembers members) ++ "\x7d"

def writeItems : List Json → List String
  | [] => []
  | item :: items => item.write :: writeItems items

def writeMembers : List (String × Json) → List String
  | [] => []
  | (name, value) :: members => (quote name ++ ":" ++ value.write) :: writeMembers members

end

end CodeAtlas.Json
