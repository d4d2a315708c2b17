import CodeAtlas.Json.Literal

/-!
# Passing over JSON

A value that nobody asks for only has to be well formed. Its numbers may be too large for a float, its
strings may hold halves of surrogate pairs, and it may be nested to any depth: the arrays and objects
that are still open are kept in a list, and each step takes at least one character.
-/

set_option autoImplicit false

namespace CodeAtlas.Json

open Text

/-- What is open. -/
inductive Frame where
  | array
  | object
deriving DecidableEq, Repr

/-- What is looked for next. -/
inductive Awaited where
  | value
  /-- A name, a colon and a value. -/
  | member
  /-- A comma or a closing bracket. -/
  | next
deriving DecidableEq, Repr

namespace Frame

def close : Frame → Char
  | array => ']'
  | object => '\x7d'

/-- What stands between the commas. -/
def item : Frame → Awaited
  | array => .value
  | object => .member

end Frame

/-- The characters that stand for another one behind a backslash. -/
def escapeLetters : List Char := ['"', '\\', '/', 'b', 'f', 'n', 'r', 't']

/-- The text after a string whose opening quote has been read. -/
def skipString : List Char → Option (List Char)
  | [] => none
  | '"' :: cs => some cs
  | '\\' :: 'u' :: a :: b :: c :: d :: cs =>
    if [a, b, c, d].all fun digit => (hexValue? digit).isSome then skipString cs else none
  | '\\' :: letter :: cs => if escapeLetters.contains letter then skipString cs else none
  | c :: cs => if c.toNat < 0x20 then none else skipString cs

/-- The text after a value that is no array and no object. -/
def skipScalar : List Char → Option (List Char)
  | 'n' :: cs => stripPrefixChars? "ull".toList cs
  | 't' :: cs => stripPrefixChars? "rue".toList cs
  | 'f' :: cs => stripPrefixChars? "alse".toList cs
  | '"' :: cs => skipString cs
  | cs => (readLiteral cs).map (·.2)

/-- The text after everything that is open, and after what is awaited in it; `fuel` bounds the number
of steps. -/
def skipSteps : (fuel : Nat) → Awaited → List Frame → List Char → Option (List Char)
  | 0, _, _, _ => none
  | _ + 1, .next, [], cs => some cs
  | fuel + 1, .next, frame :: outer, cs =>
    match skipSpace cs with
    | ',' :: rest => skipSteps fuel frame.item (frame :: outer) rest
    | c :: rest => if c == frame.close then skipSteps fuel .next outer rest else none
    | [] => none
  | fuel + 1, .member, frames, cs => do
    let '"' :: rest := skipSpace cs | none
    let ':' :: rest := skipSpace (← skipString rest) | none
    skipSteps fuel .value frames rest
  | fuel + 1, .value, frames, cs =>
    let enter (frame : Frame) (inside : List Char) :=
      match skipSpace inside with
      | c :: rest =>
        if c == frame.close then skipSteps fuel .next frames rest
        else skipSteps fuel frame.item (frame :: frames) inside
      | [] => none
    match skipSpace cs with
    | '[' :: inside => enter .array inside
    | '\x7b' :: inside => enter .object inside
    | scalar => skipScalar scalar >>= skipSteps fuel .next frames

/-- The text after a value. -/
def skipValue (cs : List Char) : Option (List Char) := skipSteps (cs.length + 1) .value [] cs

end CodeAtlas.Json
