/-!
# Runs of code points

A character class is a table of runs of code points in ascending order, taken from edition 17 of the
standard. The runs are disjoint, so membership is decided by the first run that does not lie wholly
below the character: the search stops there, and the scripts near the front of the table, which are
the ones sources are written in, are answered after a handful of comparisons.
-/

set_option autoImplicit false

namespace CodeAtlas.Text

/-- A character class: runs `(lo, hi)` of code points, both ends included, in ascending order. -/
abbrev CodeRanges := List (Nat × Nat)

namespace CodeRanges

/-- Whether a code point lies in one of the runs. -/
def containsPoint : CodeRanges → Nat → Bool
  | [], _ => false
  | (lo, hi) :: rest, n => if n < lo then false else n ≤ hi || containsPoint rest n

/-- Whether a character lies in one of the runs. -/
def contains (ranges : CodeRanges) (c : Char) : Bool := ranges.containsPoint c.toNat

end CodeRanges

end CodeAtlas.Text
