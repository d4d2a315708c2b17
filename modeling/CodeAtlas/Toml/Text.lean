import CodeAtlas.Text.Reads

/-!
# Blanks, comments and strings of TOML

Strings come in four forms: basic ones with escapes and literal ones without, each on one line or on
several. A line break inside a string is always one line feed. Control characters other than the tab
are not allowed anywhere.
-/

set_option autoImplicit false

namespace CodeAtlas.Toml

open Text

/-! ## Blanks and comments -/

def isSpace (c : Char) : Bool := c == ' ' || c == '\t'

def skipSpace (cs : List Char) : List Char := cs.dropWhile isSpace

/-- Whether a character may stand in comments and strings as it is. -/
def isPlain (c : Char) : Bool := c == '\t' || (' ' ≤ c && c != '\x7f')

/-- What follows a line break. -/
def afterBreak? : List Char → Option (List Char)
  | '\n' :: cs => some cs
  | '\r' :: '\n' :: cs => some cs
  | _ => none

/-- What follows a comment, if there is one. -/
def skipComment : List Char → List Char
  | '#' :: cs => cs.dropWhile isPlain
  | cs => cs

/-- The end of a line: blanks, a comment, and then a line break or the end of the text. -/
def endLine? (cs : List Char) : Option (List Char) :=
  match skipComment (skipSpace cs) with
  | [] => some []
  | rest => afterBreak? rest

/-- Blanks, comments and line breaks, as far as they go; `fuel` bounds the number of lines. A comment
has to end in a line break. -/
def skipLines : (fuel : Nat) → List Char → Option (List Char)
  | 0, cs => some cs
  | fuel + 1, cs =>
    match skipSpace cs with
    | '#' :: rest => afterBreak? (rest.dropWhile isPlain) >>= skipLines fuel
    | c :: rest =>
      if c == '\n' || c == '\r' then afterBreak? (c :: rest) >>= skipLines fuel
      else some (c :: rest)
    | [] => some []

/-! ## Escapes -/

/-- The character with a code point of a fixed number of hexadecimal digits. -/
def readPoint (count : Nat) : Reads Char := fun cs => do
  let digits ← (cs.take count).mapM hexValue?
  let point := ofDigits 16 digits
  if digits.length = count && point.isValidChar then return (Char.ofNat point, cs.drop count)
  else none

/-- What follows the backslash of an escape. -/
def readEscape : Reads Char
  | 'b' :: cs => some ('\x08', cs)
  | 'f' :: cs => some ('\x0c', cs)
  | 'n' :: cs => some ('\n', cs)
  | 'r' :: cs => some ('\r', cs)
  | 't' :: cs => some ('\t', cs)
  | '\\' :: cs => some ('\\', cs)
  | '"' :: cs => some ('"', cs)
  | 'u' :: cs => readPoint 4 cs
  | 'U' :: cs => readPoint 8 cs
  | _ => none

/-- The blanks and line breaks after a line break. -/
def isLayout (c : Char) : Bool := isSpace c || c == '\n'

/-- What follows a backslash at the end of a line: the line break and all blanks and line breaks after
it are left out of the string. -/
def afterFoldedBreak? (cs : List Char) : Option (List Char) :=
  (afterBreak? (skipSpace cs)).map skipLayout
where
  /-- Blanks and line breaks; a carriage return belongs to the line feed after it. -/
  skipLayout : List Char → List Char
    | '\r' :: '\n' :: cs => skipLayout cs
    | c :: cs => if isLayout c then skipLayout cs else c :: cs
    | [] => []

/-! ## Strings on one line -/

/-- The characters of a basic string after its opening quote; `fuel` bounds their number. -/
def readBasic : (fuel : Nat) → (read : List Char) → Reads String
  | 0, _, _ => none
  | _ + 1, _, [] => none
  | fuel + 1, read, c :: cs =>
    if c == '"' then some (String.ofList read.reverse, cs)
    else if c == '\\' then
      match readEscape cs with
      | some (escaped, rest) => readBasic fuel (escaped :: read) rest
      | none => none
    else if isPlain c then readBasic fuel (c :: read) cs
    else none

/-- The characters of a literal string after its opening quote. -/
def readLiteral : Reads String := fun cs =>
  let content := cs.takeWhile fun c => isPlain c && c != '\x27'
  match cs.drop content.length with
  | '\x27' :: rest => some (String.ofList content, rest)
  | _ => none

/-! ## Strings on several lines -/

/-- A run of quotes inside a string of several lines. Up to two quotes belong to the string; three
close it, and up to two more quotes before these three still belong to it. -/
def closeRun (quote : Char) (cs : List Char) : List Char × Bool × List Char :=
  let run := (cs.takeWhile (· == quote)).length
  if run < 3 then (List.replicate run quote, false, cs.drop run)
  else
    let kept := min (run - 3) 2
    (List.replicate kept quote, true, cs.drop (kept + 3))

/-- The characters of a string of several lines after its opening quotes; `fuel` bounds their
number. -/
def readLong (quote : Char) (escapes : Bool) : (fuel : Nat) → (read : List Char) → Reads String
  | 0, _, _ => none
  | _ + 1, _, [] => none
  | fuel + 1, read, c :: cs =>
    if c == quote then
      match closeRun quote (c :: cs) with
      | (kept, true, rest) => some (String.ofList (kept ++ read).reverse, rest)
      | (kept, false, rest) => readLong quote escapes fuel (kept ++ read) rest
    else if escapes && c == '\\' then
      match afterFoldedBreak? cs with
      | some rest => readLong quote escapes fuel read rest
      | none =>
        match readEscape cs with
        | some (escaped, rest) => readLong quote escapes fuel (escaped :: read) rest
        | none => none
    else
      match afterBreak? (c :: cs) with
      | some rest => readLong quote escapes fuel ('\n' :: read) rest
      | none => if isPlain c then readLong quote escapes fuel (c :: read) cs else none

/-- A line break right after the opening quotes does not count. -/
def skipFirstBreak (cs : List Char) : List Char := (afterBreak? cs).getD cs

/-- A string in any of the four forms. -/
def readString (cs : List Char) : Option (String × List Char) :=
  let fuel := cs.length + 1
  match cs with
  | '"' :: '"' :: '"' :: rest => readLong '"' true fuel [] (skipFirstBreak rest)
  | '"' :: rest => readBasic fuel [] rest
  | '\x27' :: '\x27' :: '\x27' :: rest => readLong '\x27' false fuel [] (skipFirstBreak rest)
  | '\x27' :: rest => readLiteral rest
  | _ => none

end CodeAtlas.Toml
