import CodeAtlas.Text.Affix
import CodeAtlas.Text.Reads

/-!
# Markup events

A descriptor is read as a sequence of events: elements opened, elements closed, and the text between
them. Only well-formed nesting is insisted upon; names and attributes are not looked into. Text is
taken without the blanks at its ends and with its references replaced.

The markup around the text is found by its closing character alone: `>` outside quotes for a tag,
`?>` for an instruction, `-->` for a comment, `]]>` for a character section, and for a document type
the `>` that balances. Everything but tags and text is passed over, character sections included.
-/

set_option autoImplicit false

namespace CodeAtlas.Xml

open Text

/-- What the reader of a document learns. Names are without their prefix. -/
inductive Event where
  | openTag (name : String)
  | emptyTag (name : String)
  | closeTag
  | text (content : String)
deriving DecidableEq, Repr

/-- The four blanks of markup. -/
def isSpace (c : Char) : Bool := c == ' ' || c == '\r' || c == '\n' || c == '\t'

def dropTrailingSpace (cs : List Char) : List Char := (cs.reverse.dropWhile isSpace).reverse

/-! ## References -/

/-- A number of at least one digit in the given radix. -/
def number? (radix : Nat) (cs : List Char) : Option Nat :=
  if cs.isEmpty then none
  else (cs.mapM fun c => (hexValue? c).filter (· < radix)).map (ofDigits radix)

/-- The character with a given code point; zero and surrogates are none. -/
def charOfPoint? (n : Nat) : Option Char := if n != 0 && n.isValidChar then some (Char.ofNat n) else none

/-- The characters that a reference without its `&` and `;` stands for. -/
def reference? : List Char → Option Char
  | '#' :: 'x' :: digits => number? 16 digits >>= charOfPoint?
  | '#' :: digits => number? 10 digits >>= charOfPoint?
  | name =>
    [("lt", '<'), ("gt", '>'), ("amp", '&'), ("apos", '\x27'), ("quot", '"')].lookup
      (String.ofList name)

/-- The text with its references replaced, or nothing if one of them is not closed or not known. -/
def unescape? : List Char → Option (List Char)
  | [] => some []
  | c :: cs =>
    if c == '&' then
      match _h : cs.dropWhile (fun c => c != '&' && c != ';') with
      | ';' :: rest => do
        let char ← reference? (cs.takeWhile fun c => c != '&' && c != ';')
        return char :: (← unescape? rest)
      | _ => none
    else (unescape? cs).map (c :: ·)
termination_by cs => cs.length
decreasing_by
  · have := (List.dropWhile_suffix (fun c => c != '&' && c != ';') (l := cs)).length_le
    rw [_h] at this
    simp only [List.length_cons] at *
    omega
  · simp

/-! ## The ends of markup -/

/-- Splits before the first `>` that stands outside quotes; the `>` is dropped. -/
def untilTagEnd : (quote : Option Char) → List Char → Option (List Char × List Char)
  | _, [] => none
  | quote, c :: cs =>
    let step := fun quote => (untilTagEnd quote cs).map fun (body, rest) => (c :: body, rest)
    match quote with
    | none =>
      if c == '>' then some ([], cs)
      else if c == '"' || c == '\x27' then step (some c)
      else step none
    | some q => step (if c == q then none else some q)

/-- Splits before the first `>` that comes directly after the given characters; the `>` is dropped.
`before` holds what has been passed, nearest first. -/
def untilMarked (mark : List Char) (before : List Char) : List Char → Option (List Char × List Char)
  | [] => none
  | c :: cs =>
    if c == '>' && mark.reverse.isPrefixOf before then some (before.reverse, cs)
    else untilMarked mark (c :: before) cs

/-- Splits before the `>` that closes a document type: each `<` inside needs one of its own. -/
def untilBalanced (depth : Nat) : List Char → Option (List Char × List Char)
  | [] => none
  | c :: cs =>
    let step := fun depth => (untilBalanced depth cs).map fun (body, rest) => (c :: body, rest)
    if c == '<' then step (depth + 1)
    else if c == '>' then if depth = 0 then some ([], cs) else step (depth - 1)
    else step depth

/-! ## One piece of markup -/

/-- The name at the front of a tag. -/
def tagName (body : List Char) : List Char := body.takeWhile fun c => !isSpace c

/-- A name without the prefix before its first colon. -/
def localName (name : List Char) : String :=
  match name.dropWhile (· != ':') with
  | _ :: rest => String.ofList rest
  | [] => String.ofList name

/-- What one piece of markup does. -/
inductive Markup where
  | opens (name : List Char)
  | empty (name : List Char)
  | closes (name : List Char)
  | ignored

/-- The markup after an opening `<!`, and what follows it. -/
def readBang (cs : List Char) : Option (Markup × List Char) :=
  match cs with
  | '-' :: _ => do
    -- The two hyphens at either end of a comment are four different ones.
    let inner ← stripPrefixChars? ['-', '-'] cs
    let (_, rest) ← untilMarked ['-', '-'] [] inner
    return (.ignored, rest)
  | '[' :: _ => do
    let (body, rest) ← untilMarked [']', ']'] [] cs
    if body.take 7 == "[CDATA[".toList then return (.ignored, rest) else none
  | c :: _ =>
    if c == 'D' || c == 'd' then do
      let (body, rest) ← untilBalanced 0 cs
      let named := (body.drop 7).any fun c => !isSpace c
      if sameAsciiChars (body.take 7) "DOCTYPE".toList && named then return (.ignored, rest) else none
    else none
  | [] => none

/-- The markup after an opening `<`, and what follows it. -/
def readMarkup (cs : List Char) : Option (Markup × List Char) :=
  match cs with
  | '!' :: cs => readBang cs
  | '?' :: cs => do
    -- One question mark does not serve as both the first and the last of an instruction.
    let (body, rest) ← untilMarked ['?'] ['?'] cs
    if body == ['?'] then none else return (.ignored, rest)
  | '/' :: cs => do
    let (body, rest) ← untilTagEnd none cs
    let trimmed := dropTrailingSpace body
    return (.closes (if trimmed.isEmpty then body else trimmed), rest)
  | [] => none
  | cs => do
    let (body, rest) ← untilTagEnd none cs
    if body.getLast? == some '/' then return (.empty (tagName body.dropLast), rest)
    else return (.opens (tagName body), rest)

/-! ## Documents -/

/-- The event of a stretch of text, if there is anything in it. -/
def textEvent? (cs : List Char) : Option (List Event) :=
  match dropTrailingSpace (cs.dropWhile isSpace) with
  | [] => some []
  | content => (unescape? content).map fun text => [.text (String.ofList text)]

/-- The events of a document, given the elements that are open, innermost first. Every closing tag
must name the innermost open element, and at the end none may be open. `fuel` bounds the number of
pieces of markup. -/
def readFrom : (fuel : Nat) → (opened : List (List Char)) → List Char → Option (List Event)
  | 0, _, _ => none
  | fuel + 1, opened, cs => do
    let before ← textEvent? (cs.takeWhile (· != '<'))
    match cs.dropWhile (· != '<') with
    | [] => if opened.isEmpty then return before else none
    | _ :: cs =>
      let (markup, rest) ← readMarkup cs
      match markup, opened with
      | .ignored, _ => return before ++ (← readFrom fuel opened rest)
      | .empty name, _ => return before ++ .emptyTag (localName name) :: (← readFrom fuel opened rest)
      | .opens name, _ =>
        return before ++ .openTag (localName name) :: (← readFrom fuel (name :: opened) rest)
      | .closes name, innermost :: outer =>
        if name == innermost then return before ++ .closeTag :: (← readFrom fuel outer rest) else none
      | .closes _, [] => none

/-- The mark that may stand before a document and is not part of it. -/
def byteOrderMark : Char := '\ufeff'

/-- The events of a document, or nothing if it is not well formed. -/
def events? (text : String) : Option (List Event) :=
  let cs := text.toList
  let cs := if cs.head? == some byteOrderMark then cs.tail else cs
  readFrom (cs.length + 1) [] cs

end CodeAtlas.Xml
