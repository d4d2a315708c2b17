import CodeAtlas.Graph.Edge
import CodeAtlas.Graph.Error

/-!
# Property graphs

A graph is a map of nodes and a map of edges, each under its own identity. Changes come in three
forms: inserting or replacing, deleting nodes with all their edges, and deleting single edges. An
insertion is checked as a whole before anything changes. It may not change the kind of a node, and
it may not leave an edge without one of its nodes; nodes count before edges, so that one call can
bring both ends of an edge and the edge itself.
-/

set_option autoImplicit false

namespace CodeAtlas

/-- A set of nodes and edges. -/
structure PropertyGraph where
  nodes : Std.ExtTreeMap NodeId Node := ∅
  edges : Std.ExtTreeMap EdgeKey Edge := ∅
deriving DecidableEq

namespace PropertyGraph

/-! ## Questions -/

def get? (g : PropertyGraph) (id : NodeId) : Option Node := g.nodes[id]?

/-- The nodes of a kind that meet a condition, by id. -/
def find (g : PropertyGraph) (kind : Option NodeKind) (filter : NodeFilter) : List Node :=
  g.nodes.values.filter fun node => kind.all (· = node.kind) && filter.accepts node

/-- Whether a kind is among those asked for; an empty list asks for all. -/
def wants (kinds : List EdgeKind) (kind : EdgeKind) : Bool := kinds.isEmpty || kinds.contains kind

/-- The neighbours along the edges that leave a node. -/
def outgoing (g : PropertyGraph) (id : NodeId) : List Neighbor :=
  (g.edges.values.filter (·.source = id)).filterMap fun edge =>
    g.nodes[edge.target]?.map (⟨edge, ·, .outgoing⟩)

/-- The neighbours along the edges that reach a node. -/
def incoming (g : PropertyGraph) (id : NodeId) : List Neighbor :=
  (g.edges.values.filter (·.target = id)).filterMap fun edge =>
    g.nodes[edge.source]?.map (⟨edge, ·, .incoming⟩)

/-- The neighbours of a node along edges of the given kinds, in listing order. A loop shows up once
in either direction. -/
def neighbors (g : PropertyGraph) (id : NodeId) (kinds : List EdgeKind) (direction : Direction) :
    List Neighbor :=
  let out := if direction.followsOut then g.outgoing id else []
  let in_ := if direction.followsIn then g.incoming id else []
  Neighbor.sort ((out ++ in_).filter (wants kinds ·.edge.kind))

def nodeCount (g : PropertyGraph) : Nat := g.nodes.size

def edgeCount (g : PropertyGraph) : Nat := g.edges.size

/-- Every edge, by key. -/
def allEdges (g : PropertyGraph) : List Edge := g.edges.values

/-! ## Changes -/

/-- The kind under which an id is known, in the graph or among the nodes already accepted. -/
def kindOf? (g : PropertyGraph) (accepted : Std.ExtTreeMap NodeId NodeKind) (id : NodeId) :
    Option NodeKind :=
  (g.nodes[id]?.map (·.kind)).or accepted[id]?

/-- Accepts the nodes one by one unless one would change a kind; gives the kinds accepted. -/
def acceptNodes (g : PropertyGraph) :
    (accepted : Std.ExtTreeMap NodeId NodeKind) → List Node →
    Except GraphError (Std.ExtTreeMap NodeId NodeKind)
  | accepted, [] => .ok accepted
  | accepted, node :: rest =>
    match g.kindOf? accepted node.id with
    | some existing =>
      if existing = node.kind then g.acceptNodes (accepted.insert node.id node.kind) rest
      else .error (.kindConflict node.id.text existing.tag node.kind.tag)
    | none => g.acceptNodes (accepted.insert node.id node.kind) rest

/-- Accepts the edges unless one of them lacks a node. -/
def acceptEdges (g : PropertyGraph) (accepted : Std.ExtTreeMap NodeId NodeKind)
    (edges : List Edge) : Except GraphError Unit :=
  let known := fun id => (g.kindOf? accepted id).isSome
  match edges.find? fun edge => !known edge.source || !known edge.target with
  | some edge => .error (.danglingEdge edge.source.text edge.target.text edge.kind.tag)
  | none => .ok ()

/-- Inserts or replaces nodes, then edges; of several with one identity the last stays. -/
def upsert (g : PropertyGraph) (nodes : List Node) (edges : List Edge) :
    Except GraphError PropertyGraph := do
  let accepted ← g.acceptNodes ∅ nodes
  g.acceptEdges accepted edges
  return { nodes := nodes.foldl (fun m node => m.insert node.id node) g.nodes
           edges := edges.foldl (fun m edge => m.insert edge.key edge) g.edges }

/-- Deletes nodes together with every edge that touches them. -/
def delete (g : PropertyGraph) (ids : List NodeId) : PropertyGraph where
  nodes := ids.foldl (fun m id => m.erase id) g.nodes
  edges := g.edges.filter fun key _ => !ids.contains key.source && !ids.contains key.target

/-- Deletes single edges. -/
def deleteEdges (g : PropertyGraph) (keys : List EdgeKey) : PropertyGraph :=
  { g with edges := keys.foldl (fun m key => m.erase key) g.edges }

end PropertyGraph

end CodeAtlas
