import CodeAtlas.Decimal.Shortest
import CodeAtlas.Text.Reads

/-!
# Writing TOML

Each string is written in the plainest of the four forms that can hold it: a basic string without
escapes, else a literal one, else one of several lines without escapes, else one with escapes. Floats
are written with their shortest digits and without an exponent; of two equally near decimals the upper
one is taken. Arrays of two or more items are written one item a line.
-/

set_option autoImplicit false

namespace CodeAtlas.Toml

/-! ## Strings -/

/-- The length of the longest run of a character. -/
def longestRun (c : Char) (cs : List Char) : Nat :=
  (cs.foldl (fun (best, run) x => if x == c then (max best (run + 1), run + 1) else (best, 0))
    ((0, 0) : Nat × Nat)).1

/-- Whether a character can only be written with an escape. A tab and a line feed need none. -/
def needsEscape (c : Char) : Bool := (c < ' ' && c != '\t' && c != '\n') || c == '\x7f'

/-- The four forms of a string. -/
inductive StringForm where
  | basic
  | literal
  | longBasic
  | longLiteral
deriving DecidableEq, Repr

namespace StringForm

def delimiter : StringForm → String
  | basic => "\""
  | literal => "\x27"
  | longBasic => "\"\"\""
  | longLiteral => "\x27\x27\x27"

def isLong : StringForm → Bool
  | longBasic | longLiteral => true
  | basic | literal => false

def hasEscapes : StringForm → Bool
  | basic | longBasic => true
  | literal | longLiteral => false

/-- The plainest form that can hold a text. -/
def choose (cs : List Char) : StringForm :=
  let controls := cs.any needsEscape
  let backslash := cs.contains '\\'
  let lines := cs.contains '\n'
  let doubles := longestRun '"' cs
  let singles := longestRun '\x27' cs
  if !controls && !backslash && doubles = 0 && !lines then basic
  else if !controls && singles = 0 && !lines then literal
  else if !controls && !backslash && doubles ≤ 2 then longBasic
  else if !controls && singles ≤ 2 then longLiteral
  else if lines then longBasic
  else basic

end StringForm

/-- A character by its code. -/
def escapeCode (c : Char) : List Char :=
  let digits := (Nat.toDigits 16 c.toNat).map Char.toUpper
  '\\' :: 'u' :: (List.replicate (4 - digits.length) '0' ++ digits)

/-- The characters of a string with escapes. Of the quotes in a row the first `quotes` are written as
they are, and `row` of them have just been. -/
def escapeChars (long : Bool) (quotes : Nat) : (row : Nat) → List Char → List Char
  | _, [] => []
  | row, c :: cs =>
    if c == '"' then
      if row < quotes then c :: escapeChars long quotes (row + 1) cs
      else '\\' :: '"' :: escapeChars long quotes 0 cs
    else
      let written :=
        if c == '\x08' then ['\\', 'b']
        else if c == '\t' then ['\\', 't']
        else if c == '\n' then (if long then ['\n'] else ['\\', 'n'])
        else if c == '\x0c' then ['\\', 'f']
        else if c == '\r' then ['\\', 'r']
        else if c == '\\' then ['\\', '\\']
        else if needsEscape c then escapeCode c
        else [c]
      written ++ escapeChars long quotes 0 cs

/-- A string in its plainest form. A string of several lines begins on a line of its own. -/
def quote (s : String) : String :=
  let cs := s.toList
  let form := StringForm.choose cs
  let opening := if form.isLong && cs.contains '\n' then "\n" else ""
  let body :=
    if form.hasEscapes then escapeChars form.isLong (if form.isLong then 2 else 0) 0 cs else cs
  form.delimiter ++ opening ++ String.ofList body ++ form.delimiter

/-! ## Floats and arrays -/

/-- A float. Every value that is no number is written alike. -/
def floatText (x : Float) : String :=
  if x.isNaN then "nan"
  else if x.isInf then (if x < 0.0 then "-inf" else "inf")
  else (Decimal.ofFloat .up x).positional

/-- An array of strings. -/
def stringsText : List String → String
  | [] => "[]"
  | [s] => "[" ++ quote s ++ "]"
  | items => "[\n" ++ String.join (items.map fun s => "    " ++ quote s ++ ",\n") ++ "]"

end CodeAtlas.Toml
