import CodeAtlas.Text.Numeric
import CodeAtlas.Text.Word

/-!
# Characters in patterns

The character tables are those of edition 17 of the standard, and identifiers go by them as they
stand. The patterns for query text and for annotations go by edition 16: to them a character that
came later is no letter, no number and no part of a word.
-/

set_option autoImplicit false

namespace CodeAtlas.Text

/-- The word characters that came with edition 17. All its new letters and numbers are among them. -/
def recentRanges : CodeRanges :=
  [(2191, 2191), (3164, 3164), (3292, 3292), (6863, 6877), (6880, 6891), (42958, 42959),
  (42962, 42962), (42964, 42964), (42993, 42993), (67904, 67929), (69317, 69319), (69370, 69371),
  (72544, 72551), (73136, 73179), (73184, 73193), (93856, 93880), (93883, 93907), (94194, 94198),
  (100344, 100351), (101641, 101662), (101760, 101874), (124608, 124638), (124640, 124661),
  (124670, 124671), (177978, 177983), (183970, 183981), (205744, 210041)]

/-- Whether a character is too recent for patterns. -/
def isRecent (c : Char) : Bool := recentRanges.contains c

/-- What patterns take for a letter. -/
def isPatternLetter (c : Char) : Bool := isLetter c && !isRecent c

/-- What patterns take for a number. -/
def isPatternNumber (c : Char) : Bool := isNumeric c && !isRecent c

/-- What patterns take for a character of a word. -/
def isPatternWordChar (c : Char) : Bool := isWordChar c && !isRecent c

end CodeAtlas.Text
