import CodeAtlas.Graph.Node

/-!
# Edges

Between two nodes there is at most one edge of each kind, so that the two ids and the kind are the
edge's identity. Edge keys are ordered by source, then target, then kind.
-/

set_option autoImplicit false

namespace CodeAtlas

/-- The identity of an edge. -/
structure EdgeKey where
  source : NodeId
  target : NodeId
  kind : EdgeKind
deriving DecidableEq, Repr, Inhabited

namespace EdgeKey

instance : Ord EdgeKey :=
  ⟨compareLex (compareOn source) (compareLex (compareOn target) (compareOn kind))⟩

instance : Std.TransOrd EdgeKey :=
  inferInstanceAs (Std.TransCmp
    (compareLex (compareOn source) (compareLex (compareOn target) (compareOn kind))))

instance : Std.LawfulEqOrd EdgeKey where
  eq_of_compare {a b} h := by
    have h' : compareLex (compareOn source) (compareLex (compareOn target) (compareOn kind)) a b
        = .eq := h
    simp only [compareLex, compareOn, Ordering.then_eq_eq, Std.LawfulEqOrd.compare_eq_iff_eq] at h'
    cases a; cases b; simp_all

/-- Whether the edge begins or ends at a node. -/
def touches (key : EdgeKey) (id : NodeId) : Bool := key.source == id || key.target == id

end EdgeKey

/-- An edge of the property graph. -/
structure Edge where
  source : NodeId
  target : NodeId
  kind : EdgeKind
  props : Props := ∅
deriving DecidableEq

namespace Edge

def key (edge : Edge) : EdgeKey := ⟨edge.source, edge.target, edge.kind⟩

/-- The edge with one more property. -/
def withProp (edge : Edge) (name : String) (value : PropValue) : Edge :=
  { edge with props := edge.props.insert name value }

/-- The unit that owns the edge, if it is recorded. -/
def unit? (edge : Edge) : Option String := edge.props.text? "unit"

end Edge

/-! ## Neighbours -/

/-- Which way an edge points, seen from the node that was asked about. -/
inductive Heading where
  | outgoing
  | incoming
deriving DecidableEq, Repr, Inhabited

namespace Heading

def rank : Heading → Nat
  | outgoing => 0
  | incoming => 1

end Heading

/-- One hop from a node: the edge, the node at its other end, and which way the edge points. -/
structure Neighbor where
  edge : Edge
  node : Node
  heading : Heading
deriving DecidableEq

namespace Neighbor

/-- Neighbours are listed by edge kind, then by id, then outgoing before incoming. -/
def compareListed (a b : Neighbor) : Ordering :=
  compareLex (compareOn (·.edge.kind)) (compareLex (compareOn (·.node.id))
    (compareOn (·.heading.rank))) a b

/-- The neighbours in listing order; equal ones stay as they were. -/
def sort (neighbors : List Neighbor) : List Neighbor :=
  neighbors.mergeSort fun a b => (compareListed a b).isLE

end Neighbor

end CodeAtlas
