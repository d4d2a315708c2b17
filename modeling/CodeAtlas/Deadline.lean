/-!
# Deadlines and cancellation

A walk through the graph asks its deadline before each step and stops as soon as the answer is yes.
All that a walk can see of time is the sequence of these answers, and once a deadline has passed it
stays passed. A deadline is therefore the number of times that it will still answer no.

Whoever sets a deadline sees more of it: the moment it lies at, and a token that can be cancelled and
reset. That part is a board of tokens, on which copies of a token share one cell.
-/

set_option autoImplicit false

namespace CodeAtlas

/-- How many checks a deadline still survives; without a number it never passes. -/
structure Deadline where
  checksLeft : Option Nat := none
deriving DecidableEq, Repr

namespace Deadline

/-- The deadline that never passes. -/
def never : Deadline := ⟨none⟩

/-- The deadline that has already passed. -/
def passed : Deadline := ⟨some 0⟩

/-- Asks whether the deadline has passed, and gives the deadline that is asked next. -/
def check : Deadline → Bool × Deadline
  | ⟨none⟩ => (false, ⟨none⟩)
  | ⟨some 0⟩ => (true, ⟨some 0⟩)
  | ⟨some (left + 1)⟩ => (false, ⟨some left⟩)

end Deadline

/-! ## Tokens -/

/-- Where a deadline lies, seen from now. -/
inductive Moment where
  | unbounded
  | past
  | future
deriving DecidableEq, Repr

/-- A deadline as it was set: its moment and the token it listens to, if any. -/
structure TimeLimit where
  moment : Moment
  token : Option Nat := none
deriving DecidableEq, Repr

/-- Tokens, each with the cell that it shares with its copies, and the limits that listen to them. -/
structure TokenBoard where
  /-- Whether the token behind each cell is cancelled. -/
  cells : List Bool := []
  /-- The cell of each token. -/
  tokens : List Nat := []
  limits : List TimeLimit := []

namespace TokenBoard

/-- Adds a token with a cell of its own. -/
def addToken (b : TokenBoard) : TokenBoard :=
  { b with cells := b.cells ++ [false], tokens := b.tokens ++ [b.cells.length] }

/-- Adds a copy of a token. -/
def copyToken (b : TokenBoard) (token : Nat) : TokenBoard :=
  { b with tokens := b.tokens ++ b.tokens[token]?.toList }

/-- Cancels or resets a token together with all its copies. -/
def mark (b : TokenBoard) (token : Nat) (cancelled : Bool) : TokenBoard :=
  { b with cells := b.tokens[token]?.elim b.cells (b.cells.set · cancelled) }

def addLimit (b : TokenBoard) (limit : TimeLimit) : TokenBoard :=
  { b with limits := b.limits ++ [limit] }

def isCancelled (b : TokenBoard) (token : Nat) : Bool :=
  (b.tokens[token]? >>= (b.cells[·]?)).getD false

/-- A limit has passed if its token is cancelled or its moment is over. -/
def hasPassed (b : TokenBoard) (limit : TimeLimit) : Bool :=
  limit.token.any b.isCancelled || limit.moment = .past

end TokenBoard

end CodeAtlas
