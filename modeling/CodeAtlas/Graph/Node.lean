import CodeAtlas.Graph.Kind
import Std.Data.ExtTreeMap

/-!
# Nodes

A node has an id, a kind, a name to show and a bag of properties. Ids are compared exactly; the
only place where the case of a name is forgotten in an id is the placeholder, which stands for a
name as such and not for a declaration.
-/

set_option autoImplicit false

namespace CodeAtlas

open Text

/-! ## Ids -/

/-- The identity of a node: a text, compared exactly. -/
structure NodeId where
  text : String
deriving DecidableEq, Repr, Inhabited

namespace NodeId

instance : Ord NodeId := ⟨compareOn text⟩

instance : Std.TransOrd NodeId := inferInstanceAs (Std.TransCmp (compareOn text))

instance : Std.LawfulEqOrd NodeId where
  eq_of_compare {a b} h := by
    have : a.text = b.text := Std.LawfulEqOrd.eq_of_compare h
    cases a; cases b; simp_all

instance : ToString NodeId := ⟨text⟩

/-- The id of a declaration inside a module. -/
def declaration (module : NodeId) (name : String) : NodeId := ⟨s!"{module.text}::{name}"⟩

/-- What every placeholder id begins with. -/
def placeholderMark : String := "unknown::"

/-- The id of the placeholder for a name that nothing declares yet. Names that differ in case only
share one placeholder. -/
def placeholder (awaited : String) : NodeId := ⟨placeholderMark ++ lower awaited⟩

def requirement (key : String) : NodeId := ⟨s!"requirement::{key}"⟩

def incident (key : String) : NodeId := ⟨s!"incident::{key}"⟩

/-- The id of a metadata object. -/
def metadataObject (kind : MetadataKind) (name : String) : NodeId := ⟨s!"{kind.name}.{name}"⟩

def isPlaceholder (id : NodeId) : Bool := placeholderMark.toList.isPrefixOf id.text.toList

end NodeId

/-! ## Properties -/

/-- A property value. -/
inductive PropValue where
  | bool (value : Bool)
  | int (value : Int)
  | float (value : Float)
  | text (value : String)
  | list (values : List String)
deriving DecidableEq, Inhabited

namespace PropValue

def asText? : PropValue → Option String
  | text value => some value
  | _ => none

def asInt? : PropValue → Option Int
  | int value => some value
  | _ => none

def asBool? : PropValue → Option Bool
  | bool value => some value
  | _ => none

/-- Whether two values count as equal when a filter asks: floats are compared as numbers, so that
the two zeros agree and a value that is not a number agrees with nothing. -/
def agrees : PropValue → PropValue → Bool
  | float a, float b => a == b
  | a, b => a = b

end PropValue

/-- A bag of properties, sorted by name. -/
abbrev Props := Std.ExtTreeMap String PropValue

namespace Props

def ofList (pairs : List (String × PropValue)) : Props := Std.ExtTreeMap.ofList pairs

/-- The text under a name, if there is one. -/
def text? (props : Props) (name : String) : Option String := props[name]? >>= PropValue.asText?

end Props

/-! ## Nodes -/

/-- A node of the property graph. -/
structure Node where
  id : NodeId
  kind : NodeKind
  displayName : String
  props : Props := ∅
deriving DecidableEq

/-- What queries return of a node. -/
structure NodeSummary where
  id : NodeId
  kind : NodeKind
  displayName : String
deriving DecidableEq, Repr

namespace Node

/-- The node with one more property. -/
def withProp (node : Node) (name : String) (value : PropValue) : Node :=
  { node with props := node.props.insert name value }

/-- The node that stands for a name which nothing declares yet. -/
def placeholder (awaited : String) : Node :=
  { id := .placeholder awaited, kind := .unknown, displayName := s!"Unknown({awaited})",
    props := .ofList [("awaited_name", .text awaited)] }

def summary (node : Node) : NodeSummary := ⟨node.id, node.kind, node.displayName⟩

/-- The unit that owns the node, if it is recorded. -/
def unit? (node : Node) : Option String := node.props.text? "unit"

end Node

/-! ## Filters -/

/-- A condition on nodes: an optional piece of the name and any number of properties. -/
structure NodeFilter where
  nameContains : Option String := none
  props : Props := ∅

namespace NodeFilter

/-- Whether the first list occurs somewhere in the second. -/
def occursIn (piece : List Char) : List Char → Bool
  | [] => piece.isEmpty
  | c :: cs => piece.isPrefixOf (c :: cs) || occursIn piece cs

/-- Whether a name or id holds the piece, both lower-cased. -/
def nameMatches (piece : String) (node : Node) : Bool :=
  let piece := (lower piece).toList
  occursIn piece (lower node.displayName).toList || occursIn piece (lower node.id.text).toList

/-- Whether a node meets the condition. -/
def accepts (filter : NodeFilter) (node : Node) : Bool :=
  filter.nameContains.all (nameMatches · node) &&
  filter.props.toList.all fun (name, wanted) => node.props[name]?.any wanted.agrees

end NodeFilter

end CodeAtlas
