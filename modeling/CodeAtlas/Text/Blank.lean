import CodeAtlas.Text.CodeRanges

/-!
# Blanks, trimming and lines

White space in the sense of the derived property *White_Space*, and the cuts of a text that depend
on it. Texts are handled as lists of characters; the `String` forms at the end are the same cuts
behind a conversion.
-/

set_option autoImplicit false

namespace CodeAtlas.Text

/-- The code points of the derived property *White_Space*. -/
def blankRanges : CodeRanges :=
  [(9, 13), (32, 32), (133, 133), (160, 160), (5760, 5760), (8192, 8202), (8232, 8233),
  (8239, 8239), (8287, 8287), (12288, 12288)]

/-- Whether a character is white space. -/
def isBlank (c : Char) : Bool := blankRanges.contains c

/-- The characters without the blanks on either side. -/
def trimChars (cs : List Char) : List Char :=
  ((cs.dropWhile isBlank).reverse.dropWhile isBlank).reverse

/-- The text without the blanks on either side. -/
def trim (s : String) : String := String.ofList (trimChars s.toList)

/-- The maximal pieces without a character that `sep` holds of, empty ones included: one more piece
than there are separators. -/
def splitOnChars (sep : Char → Bool) : List Char → List (List Char)
  | [] => [[]]
  | c :: cs =>
    match sep c, splitOnChars sep cs with
    | true, pieces => [] :: pieces
    | false, piece :: pieces => (c :: piece) :: pieces
    | false, [] => [[c]]

/-- The pieces of a text between the separators, empty ones included. -/
def splitBy (sep : Char → Bool) (s : String) : List String :=
  (splitOnChars sep s.toList).map String.ofList

/-- The words of a text: its maximal pieces without white space. -/
def words (s : String) : List String :=
  ((splitOnChars isBlank s.toList).filter (!·.isEmpty)).map String.ofList

/-- The lines of a text. A final line break ends the last line and begins no new one, so that the
empty text has no line at all. -/
def linesOfChars (cs : List Char) : List (List Char) :=
  let pieces := splitOnChars (· == '\n') cs
  match pieces.getLast? with
  | some [] => pieces.dropLast
  | _ => pieces

/-- How many lines a text has. -/
def lineCount (s : String) : Nat := (linesOfChars s.toList).length

/-- How many lines of a text hold something besides white space. -/
def filledLineCount (s : String) : Nat :=
  ((linesOfChars s.toList).filter (fun line => !line.all isBlank)).length

end CodeAtlas.Text
