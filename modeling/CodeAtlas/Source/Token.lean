import CodeAtlas.Text.Blank
import CodeAtlas.Text.Numeric

/-!
# Tokens

The tokenizer accepts every text. A character that begins nothing else is punctuation, and a literal
that is not closed runs to the end of the text. Comments are kept apart from the tokens, because
they mean nothing to the code but carry annotations.

The text is consumed lexeme by lexeme: `Lexeme.next` says what stands at the front and what is left,
and what is left is always shorter. Lines are counted from 1. Every lexeme knows how many line
breaks it covers and how many of them come before the line it is recorded under; the second number
is nonzero for one lexeme only, a date literal that the end of its line cuts off. A line is a natural
number, and a 32-bit word for every text that `IsShort` admits.
-/

set_option autoImplicit false

namespace CodeAtlas.Source

open Text

/-- What a token is. The delimiters of literals, directives and preprocessor lines are not part of
the token's text. -/
inductive TokenKind where
  | ident
  | str
  | number
  | date
  | punct (char : Char)
  | directive
  | preproc
deriving DecidableEq, Repr, Inhabited

/-- A token with the line it is recorded under. -/
structure Token where
  kind : TokenKind
  text : String
  line : Nat
deriving DecidableEq, Repr, Inhabited

def Token.isPunct (token : Token) (c : Char) : Bool := token.kind = .punct c

/-- A comment without its two slashes. -/
structure Comment where
  text : String
  line : Nat
deriving DecidableEq, Repr, Inhabited

/-- Everything found in a text, in order. -/
structure Lexed where
  tokens : List Token := []
  comments : List Comment := []
deriving DecidableEq, Repr

/-! ## Character classes -/

def isIdentStart (c : Char) : Bool := isAlphabetic c || c == '_'

def isIdentContinue (c : Char) : Bool := isAlphanumeric c || c == '_'

def isNumberContinue (c : Char) : Bool := isDigit c || c == '.'

/-- The character around date literals. -/
def dateQuote : Char := '\x27'

/-- Whether a character stands inside a date literal. -/
def inDate (c : Char) : Bool := c != dateQuote && c != '\n'

def inLine (c : Char) : Bool := c != '\n'

/-- How many line breaks a list of characters holds. -/
def lineBreaks (cs : List Char) : Nat := cs.count '\n'

/-! ## Lexemes -/

/-- What a lexeme contributes. -/
inductive Item where
  | skip
  | comment (text : List Char)
  | token (kind : TokenKind) (text : List Char)
deriving DecidableEq, Repr

/-- The front of a text. -/
structure Lexeme where
  item : Item
  /-- The line breaks before the line that the item is recorded under. -/
  lead : Nat := 0
  /-- All line breaks that the lexeme covers. -/
  breaks : Nat := 0
  rest : List Char

/-- The body of a string literal and what follows the quote that closes it. A doubled quote does not
close the literal and stays in the body as it is. -/
def stringBody : List Char → List Char × List Char
  | [] => ([], [])
  | '"' :: '"' :: cs =>
    let (body, rest) := stringBody cs
    ('"' :: '"' :: body, rest)
  | '"' :: cs => ([], cs)
  | c :: cs =>
    let (body, rest) := stringBody cs
    (c :: body, rest)

theorem length_stringBody_snd (cs : List Char) : (stringBody cs).2.length ≤ cs.length := by
  fun_induction stringBody cs <;> simp_all <;> omega

namespace Lexeme

/-- The lexeme that begins with the character `c`, followed by `cs`. -/
def next (c : Char) (cs : List Char) : Lexeme :=
  if c == '\n' then { item := .skip, breaks := 1, rest := cs }
  else if isBlank c then { item := .skip, rest := cs }
  else if c == '/' && cs.head? == some '/' then
    let body := cs.tail
    { item := .comment (body.takeWhile inLine), rest := body.dropWhile inLine }
  else if c == '"' then
    let body := (stringBody cs).1
    { item := .token .str body, breaks := lineBreaks body, rest := (stringBody cs).2 }
  else if c == dateQuote then
    let rest := cs.dropWhile inDate
    -- The line break that cuts a date off belongs to the lexeme and comes before its line.
    let cut := if rest.head? == some '\n' then 1 else 0
    { item := .token .date (cs.takeWhile inDate), lead := cut, breaks := cut, rest := rest.tail }
  else if c == '#' then
    { item := .token .preproc (trimChars (cs.takeWhile inLine)), rest := cs.dropWhile inLine }
  else if c == '&' then
    { item := .token .directive (cs.takeWhile isIdentContinue),
      rest := cs.dropWhile isIdentContinue }
  else if isIdentStart c then
    { item := .token .ident (c :: cs.takeWhile isIdentContinue),
      rest := cs.dropWhile isIdentContinue }
  else if isDigit c then
    { item := .token .number (c :: cs.takeWhile isNumberContinue),
      rest := cs.dropWhile isNumberContinue }
  else { item := .token (.punct c) [c], rest := cs }

theorem length_dropWhile_le {α : Type} (p : α → Bool) (l : List α) :
    (l.dropWhile p).length ≤ l.length := (List.dropWhile_suffix p).length_le

/-- What is left after a lexeme is no longer than what followed its first character. -/
theorem length_next_rest (c : Char) (cs : List Char) : (next c cs).rest.length ≤ cs.length := by
  have hd := fun p : Char → Bool => length_dropWhile_le p cs
  have hs := length_stringBody_snd cs
  have hcomment := length_dropWhile_le inLine cs.tail
  have hdate := hd inDate
  rw [List.length_tail] at hcomment
  unfold next
  repeat' split
  all_goals first
    | exact Nat.le_refl _
    | exact hd _
    | exact hs
    | (simp only [List.length_tail]; omega)

end Lexeme

/-! ## The tokenizer -/

/-- The tokens and comments of a text whose first character stands on the given line. -/
def lexFrom (line : Nat) : List Char → Lexed
  | [] => {}
  | c :: cs =>
    let lexeme := Lexeme.next c cs
    let after := lexFrom (line + lexeme.breaks) lexeme.rest
    match lexeme.item with
    | .skip => after
    | .comment text =>
      { after with comments := ⟨String.ofList text, line + lexeme.lead⟩ :: after.comments }
    | .token kind text =>
      { after with tokens := ⟨kind, String.ofList text, line + lexeme.lead⟩ :: after.tokens }
termination_by cs => cs.length
decreasing_by
  have := Lexeme.length_next_rest c cs
  simp only [List.length_cons]
  omega

/-- The tokens and comments of a text. -/
def lex (text : String) : Lexed := lexFrom 1 text.toList

end CodeAtlas.Source
