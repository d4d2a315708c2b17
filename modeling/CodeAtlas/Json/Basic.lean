/-!
# JSON values

Numbers are of two sorts. A number written without a point and without an exponent stays an
integer as long as 64 bits hold it; all others are floats. Members of an object keep the order in
which they were written, repeated names included: what a repeated name means is decided by whoever
reads the object. A text can also hold things that are well formed without being a value; in a tree
they leave a mark, which reads as nothing.
-/

set_option autoImplicit false

namespace CodeAtlas

/-- A JSON value. -/
inductive Json where
  | null
  | bool (value : Bool)
  | int (value : Int)
  | float (value : Float)
  | str (value : String)
  | arr (items : List Json)
  | obj (members : List (String × Json))
  /-- The place of something that has no value: a number that is too large, a text with half a
  surrogate pair, or what is nested too deep. -/
  | unreadable
deriving Inhabited

namespace Json

def asString? : Json → Option String
  | str value => some value
  | _ => none

def asBool? : Json → Option Bool
  | bool value => some value
  | _ => none

def asInt? : Json → Option Int
  | int value => some value
  | _ => none

/-- A natural number below the given bound. -/
def asNatBelow? (bound : Nat) : Json → Option Nat
  | int (.ofNat n) => if n < bound then some n else none
  | _ => none

def asArray? : Json → Option (List Json)
  | arr items => some items
  | _ => none

/-- The list of what every member of an array reads as. -/
def asListOf? {α : Type} (read : Json → Option α) (value : Json) : Option (List α) :=
  value.asArray? >>= (·.mapM read)

/-- What a value reads as; null is the absence of one. -/
def asOption? {α : Type} (read : Json → Option α) : Json → Option (Option α)
  | null => some none
  | value => (read value).map some

/-- The last member of an object under a name. -/
def member? (value : Json) (name : String) : Option Json :=
  match value with
  | obj members => members.reverse.lookup name
  | _ => none

end Json

end CodeAtlas
