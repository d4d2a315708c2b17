import CodeAtlas.Text.Case

/-!
# Beginnings and ends of texts

Cutting a known piece off either end of a text, exactly or up to ASCII case.
-/

set_option autoImplicit false

namespace CodeAtlas.Text

/-- The list after a given beginning, if it begins so. -/
def stripPrefixChars? : List Char → List Char → Option (List Char)
  | [], cs => some cs
  | p :: ps, c :: cs => if p == c then stripPrefixChars? ps cs else none
  | _ :: _, [] => none

/-- The text after a given beginning, if it begins so. -/
def stripPrefix? (piece s : String) : Option String :=
  (stripPrefixChars? piece.toList s.toList).map String.ofList

/-- The text before a given end, if it ends so. -/
def stripSuffix? (piece s : String) : Option String :=
  (stripPrefixChars? piece.toList.reverse s.toList.reverse).map fun cs => String.ofList cs.reverse

def hasPrefix (piece s : String) : Bool := piece.toList.isPrefixOf s.toList

def hasSuffix (piece s : String) : Bool := piece.toList.isSuffixOf s.toList

/-- Whether a text ends with a given piece, in any ASCII case. The piece is given in small letters. -/
def hasSuffixAscii (piece s : String) : Bool := piece.toList.isSuffixOf (s.toList.map lowerAscii)

/-- The text without its last characters. -/
def dropLastChars (n : Nat) (s : String) : String :=
  String.ofList (s.toList.take (s.toList.length - n))

/-- The pieces before and after the first occurrence of a character. -/
def cutAt? (sep : Char) (s : String) : Option (String × String) :=
  match s.toList.span (· != sep) with
  | (before, _ :: after) => some (String.ofList before, String.ofList after)
  | (_, []) => none

/-- The piece after the last occurrence of a character, or the whole text without one. -/
def afterLast (sep : Char) (s : String) : String :=
  String.ofList (s.toList.reverse.takeWhile (· != sep)).reverse

end CodeAtlas.Text
