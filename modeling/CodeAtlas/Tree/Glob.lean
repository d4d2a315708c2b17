import CodeAtlas.Text.Reads

/-!
# Globs

A glob says which paths are meant. `?` stands for one byte of a name and `*` for any number of them;
neither crosses a slash. `**` stands for any number of whole segments where it fills a segment, and
for two stars elsewhere. `[a-c]` stands for one byte of a set, `[!a-c]` for one byte outside it, and
`{a,b}` for either of its alternatives. A backslash takes away the meaning of what follows it.

Globs are read into patterns of a few shapes. A pattern is applied to the bytes of a path, at all places
at once: from the places at which it may begin it gives those at which it may end. It fits a path if it
can begin at the front and end at the back.
-/

set_option autoImplicit false

namespace CodeAtlas

/-! ## Patterns -/

/-- A pattern over bytes. -/
inductive Glob where
  | nothing
  | one (accepts : UInt8 → Bool)
  /-- Any number of accepted bytes. -/
  | run (accepts : UInt8 → Bool)
  | seq (first second : Glob)
  | either (first second : Glob)

namespace Glob

/-- The places in some bytes, first to last, as marks: one before each byte and one at the end. -/
abbrev Marks := List Bool

/-- The places right behind an accepted byte at a marked place. -/
def step (accepts : UInt8 → Bool) (bytes : List UInt8) (marks : Marks) : Marks :=
  false :: List.zipWith (fun b marked => marked && accepts b) bytes marks

/-- The places that can be reached over accepted bytes from a marked place, or from the one before if
`carry` says so. -/
def sweep (accepts : UInt8 → Bool) (carry : Bool) : List UInt8 → Marks → Marks
  | _, [] => []
  | [], marked :: _ => [carry || marked]
  | b :: bytes, marked :: marks =>
    let here := carry || marked
    here :: sweep accepts (here && accepts b) bytes marks

/-- The places at which the pattern can end when it begins at a marked place. -/
def ends : Glob → List UInt8 → Marks → Marks
  | nothing, _, marks => marks
  | one accepts, bytes, marks => step accepts bytes marks
  | run accepts, bytes, marks => sweep accepts false bytes marks
  | seq first second, bytes, marks => second.ends bytes (first.ends bytes marks)
  | either first second, bytes, marks =>
    List.zipWith (· || ·) (first.ends bytes marks) (second.ends bytes marks)

/-- Whether the pattern fits the whole of a path. -/
def fits (g : Glob) (path : String) : Bool :=
  let bytes := path.toUTF8.toList
  (g.ends bytes (true :: bytes.map fun _ => false)).getLast? == some true

/-- The bytes of one character. -/
def charBytes (c : Char) : List UInt8 := (String.singleton c).toUTF8.toList

def isSlash (b : UInt8) : Bool := b == '/'.toNat.toUInt8

def anything : Glob := run fun _ => true

def slash : Glob := one isSlash

def sequence (globs : List Glob) : Glob := globs.foldr seq nothing

def literal (c : Char) : Glob := sequence ((charBytes c).map fun b => one (· == b))

/-- The first of some alternatives or one of the others. -/
def anyOf (first : Glob) (others : List Glob) : Glob := others.foldl either first

end Glob

/-! ## Sets of bytes -/

namespace Glob

/-- Reads the members of a set from the range read last. A range can be carried on, and a dash at the
end stands for itself. A range whose end comes before its beginning is refused. -/
def ranges (low high : Char) : List Char → Option (List (Char × Char))
  | [] => some [(low, high)]
  | ['-'] => some [(low, high), ('-', '-')]
  | '-' :: c :: rest => if c < low then none else ranges low c rest
  | c :: rest => (ranges c c rest).map ((low, high) :: ·)

/-- Whether a byte belongs to a range. A character of several bytes counts byte by byte, so that a
range lies between the last byte of its first character and the first byte of its last. -/
def rangeHas (range : Char × Char) (b : UInt8) : Bool :=
  let low := charBytes range.1
  let high := charBytes range.2
  if range.1 = range.2 then low.contains b
  else low.dropLast.contains b || high.tail.contains b ||
    (low.getLast?.any (· ≤ b) && high.head?.any (b ≤ ·))

/-- Whether the bytes of a range are in order. -/
def rangeIsValid (range : Char × Char) : Bool :=
  range.1 = range.2 ||
    ((charBytes range.1).getLast?.any fun l => (charBytes range.2).head?.any (l ≤ ·))

/-- The pattern of a set with some members. -/
def ofMembers? (negated : Bool) : List Char → Option Glob
  | [] => none
  | first :: rest => do
    let ranges ← ranges first first rest
    if ranges.all rangeIsValid then some (one fun b => ranges.any (rangeHas · b) != negated) else none

/-- What is left after the closing bracket of a set, which is the first one behind its first member. -/
def afterSet : List Char → Option (List Char × List Char)
  | [] => none
  | first :: cs =>
    match cs.dropWhile (· != ']') with
    | [] => none
    | _ :: rest => some (first :: cs.takeWhile (· != ']'), rest)

/-- Reads a set behind its opening bracket. -/
def readSet : Text.Reads Glob := fun cs => do
  let (negated, cs) := match cs with
    | '!' :: cs | '^' :: cs => (true, cs)
    | cs => (false, cs)
  let (members, rest) ← afterSet cs
  return (← ofMembers? negated members, rest)

theorem afterSet_shorter {cs members rest : List Char} (h : afterSet cs = some (members, rest)) :
    rest.length < cs.length := by
  cases cs with
  | nil => simp [afterSet] at h
  | cons first cs =>
    have hle := (List.dropWhile_suffix (l := cs) (· != ']')).length_le
    simp only [afterSet] at h
    split at h
    · simp at h
    · rename_i heq
      simp only [Option.some.injEq, Prod.mk.injEq] at h
      rw [heq, h.2] at hle
      simp only [List.length_cons] at hle ⊢
      omega

theorem readSet_shorter {cs rest : List Char} {g : Glob} (h : readSet cs = some (g, rest)) :
    rest.length < cs.length := by
  simp only [readSet, bind, Option.bind_eq_some_iff] at h
  obtain ⟨⟨members, rest'⟩, hafter, glob, _, heq⟩ := h
  simp only [pure, Option.some.injEq, Prod.mk.injEq] at heq
  obtain ⟨_, rfl⟩ := heq
  have := afterSet_shorter hafter
  split at this
  · simp_all; omega
  · simp_all; omega
  · simp_all

end Glob

/-! ## Reading -/

/-- A piece of a glob. The ones that stand for segments are told apart, because what they mean depends
on what stands beside them. -/
inductive GlobPiece where
  /-- Segments at the front. -/
  | before
  /-- Segments at the end. -/
  | after
  /-- Segments in the middle, with the slashes around them. -/
  | between
  | plain (glob : Glob)

namespace GlobPiece

def glob : GlobPiece → Glob
  | before => .either (.either .nothing .slash) (.seq .anything .slash)
  | after => .seq .slash .anything
  | between => .either .slash (.seq .slash (.seq .anything .slash))
  | plain glob => glob

def isNothing : GlobPiece → Bool
  | plain .nothing => true
  | _ => false

def star : GlobPiece := plain (.run (!Glob.isSlash ·))

/-- The pieces of one alternative, given last first, as a pattern; an alternative in which there is
nothing to match is none. -/
def alternative? (pieces : List GlobPiece) : Option Glob :=
  if pieces.all isNothing then none else some (Glob.sequence (pieces.reverse.map glob))

/-- Alternatives as one piece. -/
def ofAlternatives (alternatives : List (List GlobPiece)) : GlobPiece :=
  match alternatives.filterMap alternative? with
  | [] => plain .nothing
  | first :: others => plain (.anyOf first others)

/-- The pieces after two stars that fill a segment: the slash before them belongs to them. -/
def fillSegment (piece : GlobPiece) : List GlobPiece → List GlobPiece
  | before :: rest => before :: rest
  | after :: rest => after :: rest
  | _ :: rest => piece :: rest
  | [] => [piece]

end GlobPiece

/-- How far a glob has been read: the pieces of the alternative that is being read, last first, the
alternatives before it, last first, and the same for everything around it. -/
structure GlobReading where
  pieces : List GlobPiece := []
  finished : List (List GlobPiece) := []
  outer : List (List GlobPiece × List (List GlobPiece)) := []

namespace GlobReading

def push (r : GlobReading) (piece : GlobPiece) : GlobReading := { r with pieces := piece :: r.pieces }

/-- Whether alternatives are being read. -/
def inside (r : GlobReading) : Bool := !r.outer.isEmpty

/-- Begins a set of alternatives. -/
def opened (r : GlobReading) : GlobReading := { outer := (r.pieces, r.finished) :: r.outer }

/-- Begins the next alternative. -/
def next (r : GlobReading) : GlobReading := { r with pieces := [], finished := r.pieces :: r.finished }

/-- Ends a set of alternatives, if there is one. -/
def closed? (r : GlobReading) : Option GlobReading :=
  match r.outer with
  | [] => none
  | (pieces, finished) :: outer =>
    let piece := GlobPiece.ofAlternatives (r.pieces :: r.finished).reverse
    some { pieces := piece :: pieces, finished, outer }

/-- Whether two stars may fill a segment that begins after a character. -/
def opensSegment (r : GlobReading) (previous : Option Char) : Bool :=
  previous = some '/' || (r.inside && (previous = some ',' || previous = some '\x7b'))

/-- Reads two stars, given the character before them and what follows. Gives what is left and the
character before it. -/
def doubleStar (r : GlobReading) (previous : Option Char) (rest : List Char) :
    GlobReading × Char × List Char :=
  let twoStars := ((r.push .star).push .star, '*', rest)
  if r.pieces.isEmpty then
    match rest with
    | [] => (r.push .before, '*', [])
    | '/' :: rest => (r.push .before, '/', rest)
    | _ => twoStars
  else if r.opensSegment previous then
    match rest with
    | [] => ({ r with pieces := GlobPiece.fillSegment .after r.pieces }, '*', [])
    | '/' :: rest => ({ r with pieces := GlobPiece.fillSegment .between r.pieces }, '/', rest)
    | c :: _ =>
      if r.inside && (c == ',' || c == '\x7d') then
        ({ r with pieces := GlobPiece.fillSegment .after r.pieces }, '*', rest)
      else twoStars
  else twoStars

theorem doubleStar_not_longer (r : GlobReading) (previous : Option Char) (rest : List Char) :
    (r.doubleStar previous rest).2.2.length ≤ rest.length := by
  unfold doubleStar
  repeat' split
  all_goals simp

/-- Reads the rest of a glob. Sets and alternatives have to be closed, and a backslash has something
to stand before. -/
def read (r : GlobReading) (previous : Option Char) : List Char → Option GlobReading
  | [] => if r.inside then none else some r
  | '?' :: cs => read (r.push (.plain (.one (!Glob.isSlash ·)))) (some '?') cs
  | '[' :: cs =>
    match _h : Glob.readSet cs with
    | none => none
    | some (glob, rest) => read (r.push (.plain glob)) (some ']') rest
  | ['\\'] => none
  | '\\' :: c :: cs => read (r.push (.plain (.literal c))) (some c) cs
  | '*' :: '*' :: cs =>
    match _h : r.doubleStar previous cs with
    | (filled, last, rest) => read filled (some last) rest
  | '*' :: cs => read (r.push .star) (some '*') cs
  | '\x7b' :: cs => read r.opened (some '\x7b') cs
  | '\x7d' :: cs =>
    match r.closed? with
    | none => none
    | some r => read r (some '\x7d') cs
  | ',' :: cs => read (if r.inside then r.next else r.push (.plain (.literal ','))) (some ',') cs
  | c :: cs => read (r.push (.plain (.literal c))) (some c) cs
termination_by cs => cs.length
decreasing_by
  · simp
  · have := Glob.readSet_shorter _h
    simp only [List.length_cons]
    omega
  · simp only [List.length_cons]
    omega
  · have := r.doubleStar_not_longer previous cs
    simp only [_h, List.length_cons] at this ⊢
    omega
  all_goals simp

end GlobReading

/-- Reads a glob. One that stands for segments only stands for every path. -/
def Glob.parse? (text : String) : Option Glob :=
  (GlobReading.read {} none text.toList).map fun r =>
    match r.pieces with
    | [.before] => .anything
    | pieces => .sequence (pieces.reverse.map GlobPiece.glob)

end CodeAtlas
