import CodeAtlas.Source.Keyword
import CodeAtlas.Source.Token

/-!
# Headers of declarations

A header is a keyword, a name, parameters in parentheses and perhaps the export keyword. Only the
name is required; the rest is read as far as it goes. The reader of a header takes tokens off the
front of a list, so that what is left is a suffix of what it was given.
-/

set_option autoImplicit false

namespace CodeAtlas.Source

open Text

/-- The keyword that a token's text spells, in any case. -/
def Token.keyword? (token : Token) : Option Keyword := Keyword.ofWord? (lower token.text)

/-- Whether the token is an identifier that spells a given keyword. -/
def Token.isKeyword (token : Token) (keyword : Keyword) : Bool :=
  token.kind = .ident && token.keyword? = some keyword

/-- The header of a declaration after its keyword, with the tokens behind it. -/
structure Header where
  name : String
  params : List String
  isExport : Bool
  rest : List Token

/-- The parameter names up to the closing parenthesis, with the tokens behind it. A name is the
first identifier after a comma, passing over the keyword for values; an equals sign begins a
default, in which no name is expected. -/
def readParams : (depth : Nat) → (expectName : Bool) → List Token → List String × List Token
  | _, _, [] => ([], [])
  | depth, expectName, token :: rest =>
    match token.kind with
    | .punct '(' => readParams (depth + 1) expectName rest
    | .punct ')' => if depth = 0 then ([], rest) else readParams (depth - 1) expectName rest
    | .punct ',' => readParams depth (expectName || depth == 0) rest
    | .punct '=' => readParams depth false rest
    | .ident =>
      if expectName && token.keyword? != some .val then
        let (names, behind) := readParams depth false rest
        (token.text :: names, behind)
      else readParams depth expectName rest
    | _ => readParams depth expectName rest

/-- The parameters in parentheses, if an opening one comes first. -/
def readParamList : List Token → List String × List Token
  | [] => ([], [])
  | token :: rest => if token.isPunct '(' then readParams 0 true rest else ([], token :: rest)

/-- Whether the export keyword comes first, and the tokens without it. -/
def readExport : List Token → Bool × List Token
  | [] => (false, [])
  | token :: rest => if token.isKeyword .export then (true, rest) else (false, token :: rest)

/-- The header that follows a declaration keyword, if a name comes first. -/
def Header.read? : List Token → Option Header
  | [] => none
  | name :: rest =>
    if name.kind = .ident then
      let params := readParamList rest
      let exported := readExport params.2
      some ⟨name.text, params.1, exported.1, exported.2⟩
    else none

/-! ## What is left is shorter -/

theorem length_readParams_snd (depth : Nat) (expectName : Bool) (tokens : List Token) :
    (readParams depth expectName tokens).2.length ≤ tokens.length := by
  fun_induction readParams depth expectName tokens <;> simp_all <;> omega

theorem length_readParamList_snd (tokens : List Token) :
    (readParamList tokens).2.length ≤ tokens.length := by
  cases tokens with
  | nil => simp [readParamList]
  | cons token rest =>
    have := length_readParams_snd 0 true rest
    simp only [readParamList]
    split <;> simp only [List.length_cons] <;> omega

theorem length_readExport_snd (tokens : List Token) :
    (readExport tokens).2.length ≤ tokens.length := by
  cases tokens with
  | nil => simp [readExport]
  | cons token rest =>
    simp only [readExport]
    split <;> simp only [List.length_cons] <;> omega

/-- A header takes at least the name. -/
theorem Header.length_rest {tokens : List Token} {header : Header}
    (h : Header.read? tokens = some header) : header.rest.length < tokens.length := by
  cases tokens with
  | nil => simp [Header.read?] at h
  | cons name rest =>
    simp only [Header.read?] at h
    split at h
    · injection h with h
      subst h
      have hp := length_readParamList_snd rest
      have he := length_readExport_snd (readParamList rest).2
      simp only [List.length_cons]
      omega
    · simp at h

end CodeAtlas.Source
