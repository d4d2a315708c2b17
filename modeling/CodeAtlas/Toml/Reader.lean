import CodeAtlas.Toml.Number
import CodeAtlas.Toml.Table
import CodeAtlas.Toml.Text

/-!
# Reading TOML

A document is a sequence of lines: assignments, headers that say which table the following
assignments belong to, and blank lines. Arrays and tables in braces may be nested 79 deep, and names
may have as many parts.
-/

set_option autoImplicit false

namespace CodeAtlas.Toml

open Text

/-- How deep values may be nested, and how many parts a name may have. -/
def maxDepth : Nat := 79

/-! ## Names -/

/-- Whether a character may stand in a name without quotes. -/
def isBare (c : Char) : Bool :=
  isDigit c || ('a' ≤ c && c ≤ 'z') || ('A' ≤ c && c ≤ 'Z') || c == '-' || c == '_'

/-- One part of a name. -/
def readPart : Reads String
  | '"' :: cs => readBasic (cs.length + 1) [] cs
  | '\x27' :: cs => readLiteral cs
  | cs =>
    match cs.takeWhile isBare with
    | [] => none
    | name => some (String.ofList name, cs.drop name.length)

/-- A name of parts with dots between them and blanks around them; `fuel` bounds the number of
parts. -/
def readParts : (fuel : Nat) → Reads (List String)
  | 0, _ => none
  | fuel + 1, cs => do
    let (first, rest) ← readPart (skipSpace cs)
    match skipSpace rest with
    | '.' :: rest =>
      let (parts, rest) ← readParts fuel rest
      return (first :: parts, rest)
    | rest => return ([first], rest)

def readName : Reads (List String) := readParts maxDepth

/-! ## Values -/

/-- The items of an array after its opening bracket; `fuel` bounds their number. -/
def readItems (value : Reads Toml) : (fuel : Nat) → Reads (List Toml)
  | 0, _ => none
  | fuel + 1, cs => do
    match ← skipLines cs.length cs with
    | ']' :: rest => return ([], rest)
    | cs =>
      let (item, rest) ← value cs
      match ← skipLines rest.length rest with
      | ',' :: rest =>
        let (items, rest) ← readItems value fuel rest
        return (item :: items, rest)
      | ']' :: rest => return ([item], rest)
      | _ => none

/-- A name, an equals sign and a value. -/
def readPair (value : Reads Toml) : Reads (List String × Toml) := fun cs => do
  let (path, rest) ← readName cs
  let (v, rest) ← value (skipSpace (← expect? '=' rest))
  return ((path, v), rest)

/-- The assignments of a table in braces, from the first on; `fuel` bounds their number. -/
def readPairs (value : Reads Toml) : (fuel : Nat) → Reads (List (List String × Toml))
  | 0, _ => none
  | fuel + 1, cs => do
    let (pair, rest) ← readPair value cs
    match skipSpace rest with
    | ',' :: rest =>
      let (pairs, rest) ← readPairs value fuel rest
      return (pair :: pairs, rest)
    | '\x7d' :: rest => return ([pair], rest)
    | _ => none

/-- The table that assignments make. -/
def tableOfPairs? (pairs : List (List String × Toml)) : Option Toml := do
  let ms ← pairs.foldlM (fun ms (path, v) => Members.assign path v .written ms) []
  return .table (finish ms)

/-- A table in braces after the opening one. -/
def readInline (value : Reads Toml) (fuel : Nat) : Reads Toml := fun cs =>
  match skipSpace cs with
  | '\x7d' :: rest => some (.table [], rest)
  | _ => do
    let (pairs, rest) ← readPairs value fuel cs
    return (← tableOfPairs? pairs, rest)

/-- A value that is nested at most `depth` deep, in a text of fewer than `fuel` characters. -/
def readValue (fuel : Nat) : (depth : Nat) → Reads Toml
  | 0, '[' :: _ => none
  | 0, '\x7b' :: _ => none
  | depth + 1, '[' :: cs =>
    (readItems (readValue fuel depth) fuel cs).map fun (items, rest) => (.arr items, rest)
  | depth + 1, '\x7b' :: cs => readInline (readValue fuel depth) fuel cs
  | _, 't' :: cs => (stripPrefixChars? "rue".toList cs).map (.bool true, ·)
  | _, 'f' :: cs => (stripPrefixChars? "alse".toList cs).map (.bool false, ·)
  | _, cs =>
    match readString cs with
    | some (s, rest) => some (.str s, rest)
    | none => readNumeric cs

/-! ## Documents -/

/-- A line that says something. -/
inductive Statement where
  | assign (path : List String) (v : Toml)
  | header (path : List String)
  | seriesHeader (path : List String)

/-- One line with its line break. -/
def readLine (fuel : Nat) : Reads (Option Statement) := fun cs =>
  match skipSpace cs with
  | '[' :: '[' :: rest => do
    let (path, rest) ← readName rest
    let rest ← expect? ']' rest >>= expect? ']' >>= endLine?
    return (some (.seriesHeader path), rest)
  | '[' :: rest => do
    let (path, rest) ← readName rest
    let rest ← expect? ']' rest >>= endLine?
    return (some (.header path), rest)
  | c :: rest =>
    if c == '#' || c == '\n' || c == '\r' then (endLine? (c :: rest)).map (none, ·)
    else do
      let ((path, v), rest) ← readPair (readValue fuel maxDepth) (c :: rest)
      return (some (.assign path v), ← endLine? rest)
  | [] => some (none, [])

/-- All lines; `fuel` bounds their number. -/
def readLines (lineFuel : Nat) : (fuel : Nat) → List Char → Option (List Statement)
  | 0, _ => none
  | _ + 1, [] => some []
  | fuel + 1, cs => do
    let (statement, rest) ← readLine lineFuel cs
    return statement.toList ++ (← readLines lineFuel fuel rest)

/-- A document under construction: the outermost table, and where assignments go. -/
structure Draft where
  root : Members := []
  current : List String := []

namespace Draft

/-- Changes the table that holds the last part of a path. -/
def atHeader (d : Draft) (path : List String) (change : String → Origin → Members → Option Members) :
    Option Draft := do
  let name ← path.getLast?
  return { root := ← Members.descend false (change name) path.dropLast .written d.root
           current := path }

def add (d : Draft) : Statement → Option Draft
  | .assign path v => do
    return { d with root := ← Members.descend false (Members.assign path v) d.current .written d.root }
  | .header path => d.atHeader path Members.define
  | .seriesHeader path => d.atHeader path Members.extendSeries

end Draft

/-- A mark that some editors put at the beginning of a text. -/
def skipMark : List Char → List Char
  | '\uFEFF' :: cs => cs
  | cs => cs

/-- Reads a document. -/
def parse? (text : String) : Option Toml := do
  let cs := skipMark text.toList
  let statements ← readLines (cs.length + 1) (cs.length + 1) cs
  let d ← statements.foldlM Draft.add {}
  return .table (finish d.root)

end CodeAtlas.Toml
