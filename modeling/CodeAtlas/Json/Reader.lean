import CodeAtlas.Json.Skip

/-!
# Reading JSON

A strict reader: no comments, no trailing commas, no leading zeros, no control characters in
strings, no halves of surrogate pairs. Arrays and objects may be nested 127 deep.

There are two ways to take a value that is well formed but breaks one of the last rules or is too large
a number. `parse?` refuses the text. `parseLoosely?` puts `unreadable` in the place of the value, for
readers of records that pass over most of what they do not know.
-/

set_option autoImplicit false

namespace CodeAtlas.Json

open Text

/-! ## Numbers -/

def readNumber : Reads Json := fun cs => do
  let (literal, cs) ← readLiteral cs
  return (← literal.value?, cs)

/-! ## Strings -/

/-- A 16-bit unit in four hexadecimal digits. -/
def readUnit : Reads Nat
  | a :: b :: c :: d :: rest => do
    let digits ← [a, b, c, d].mapM hexValue?
    return (ofDigits 16 digits, rest)
  | _ => none

/-- The character of one unit, or of a surrogate pair. -/
def readUnicode : Reads Char := fun cs => do
  let (first, rest) ← readUnit cs
  if 0xDC00 ≤ first ∧ first ≤ 0xDFFF then none
  else if 0xD800 ≤ first ∧ first ≤ 0xDBFF then
    match rest with
    | '\\' :: 'u' :: rest =>
      let (second, rest) ← readUnit rest
      if 0xDC00 ≤ second ∧ second ≤ 0xDFFF then
        return (Char.ofNat (0x10000 + (first - 0xD800) * 0x400 + (second - 0xDC00)), rest)
      else none
    | _ => none
  else return (Char.ofNat first, rest)

def readEscape : Reads Char
  | '"' :: cs => some ('"', cs)
  | '\\' :: cs => some ('\\', cs)
  | '/' :: cs => some ('/', cs)
  | 'b' :: cs => some ('\x08', cs)
  | 'f' :: cs => some ('\x0c', cs)
  | 'n' :: cs => some ('\n', cs)
  | 'r' :: cs => some ('\r', cs)
  | 't' :: cs => some ('\t', cs)
  | 'u' :: cs => readUnicode cs
  | _ => none

/-- The characters of a string after its opening quote; `fuel` bounds their number. -/
def readChars : (fuel : Nat) → (read : List Char) → Reads String
  | 0, _, _ => none
  | _ + 1, _, [] => none
  | fuel + 1, read, c :: cs =>
    if c == '"' then some (String.ofList read.reverse, cs)
    else if c == '\\' then
      match readEscape cs with
      | some (escaped, rest) => readChars fuel (escaped :: read) rest
      | none => none
    else if c.toNat < 0x20 then none
    else readChars fuel (c :: read) cs

/-! ## Values -/

/-- The members of an array or object after the first bracket, up to and with the closing one;
`fuel` bounds their number. -/
def readItems {α : Type} (close : Char) (item : Reads α) : (fuel : Nat) → Reads (List α)
  | 0, _ => none
  | fuel + 1, cs => do
    let (first, rest) ← item (skipSpace cs)
    match skipSpace rest with
    | ',' :: rest =>
      let (items, rest) ← readItems close item fuel rest
      return (first :: items, rest)
    | c :: rest => if c == close then return ([first], rest) else none
    | [] => none

/-- The members of a possibly empty array or object. -/
def readBracketed {α : Type} (close : Char) (item : Reads α) (fuel : Nat) : Reads (List α) :=
  fun cs =>
    match skipSpace cs with
    | c :: rest => if c == close then some ([], rest) else readItems close item fuel cs
    | [] => none

/-- A name, a colon and a value. -/
def readMember (fuel : Nat) (value : Reads Json) : Reads (String × Json)
  | '"' :: cs => do
    let (name, rest) ← readChars fuel [] cs
    match skipSpace rest with
    | ':' :: rest =>
      let (value, rest) ← value (skipSpace rest)
      return ((name, value), rest)
    | _ => none
  | _ => none

/-- A value that is nested at most `depth` deep, in a text of at most `fuel` characters. How the values
inside it are taken is up to `inside`. -/
def readValue (inside : Reads Json → Reads Json) (fuel : Nat) : (depth : Nat) → Reads Json
  | _, 'n' :: cs => (stripPrefixChars? "ull".toList cs).map (null, ·)
  | _, 't' :: cs => (stripPrefixChars? "rue".toList cs).map (bool true, ·)
  | _, 'f' :: cs => (stripPrefixChars? "alse".toList cs).map (bool false, ·)
  | _, '"' :: cs => (readChars fuel [] cs).map fun (s, rest) => (str s, rest)
  | 0, '[' :: _ => none
  | 0, '\x7b' :: _ => none
  | depth + 1, '[' :: cs =>
    (readBracketed ']' (inside (readValue inside fuel depth)) fuel cs).map
      fun (items, rest) => (arr items, rest)
  | depth + 1, '\x7b' :: cs =>
    (readBracketed '\x7d' (readMember fuel (inside (readValue inside fuel depth))) fuel cs).map
      fun (members, rest) => (obj members, rest)
  | _, cs => readNumber cs

/-- What a reader reads, or `unreadable` if it fails on a value that is well formed. -/
def orUnreadable (read : Reads Json) : Reads Json := fun cs =>
  read cs <|> (skipValue cs).map (unreadable, ·)

/-- How deep arrays and objects may be nested. -/
def maxDepth : Nat := 127

/-- Reads a text that holds one value and nothing else. -/
def parseWith? (inside : Reads Json → Reads Json) (text : String) : Option Json := do
  let cs := text.toList
  let (value, rest) ← inside (readValue inside (cs.length + 1) maxDepth) (skipSpace cs)
  match skipSpace rest with
  | [] => return value
  | _ => none

/-- Reads a text in which every value can be read. -/
def parse? : String → Option Json := parseWith? id

/-- Reads a text in which every value is well formed. -/
def parseLoosely? : String → Option Json := parseWith? orUnreadable

end CodeAtlas.Json
