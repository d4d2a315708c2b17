import CodeAtlas.Graph.StableGraph
import CodeAtlas.Store.Backend

/-!
# The graph in memory, with an index

A graph in memory keeps its nodes and edges in a store that knows them by number, and beside it an
index from ids to these numbers. That ids and keys are unique is up to the calls: a node is written
over where the index has its id, and an edge where the search along the edges of its source finds one
with the same target and kind.

Changes are made in place, one after the other, so a call that breaks off leaves what it has done by
then. An insertion therefore checks all its nodes and edges before it writes the first. A number that
stands for nothing breaks a call off at once, and with it all calls to come.
-/

set_option autoImplicit false

namespace CodeAtlas

/-- A store of nodes and edges, and the number of each node by its id. -/
structure IndexedGraph (G : Type) where
  graph : G
  index : Std.ExtTreeMap NodeId Nat := ∅

namespace IndexedGraph

open StableGraph

variable {G : Type} [StableGraph G Node Edge]

instance : EmptyCollection (IndexedGraph G) := ⟨{ graph := empty }⟩

/-- What a number stands for; if it is nothing, the call breaks off. -/
def reach {α : Type} (found : Option α) : Except GraphError α :=
  found.elim (.error (.unavailable "in-memory graph lock poisoned")) .ok

/-- The edge under a key, among those that leave its source. -/
def findLink? (s : IndexedGraph G) (key : EdgeKey) : Option Nat := do
  let source ← s.index[key.source]?
  let target ← s.index[key.target]?
  ((linksAt s.graph .outgoing source).find? fun p =>
    p.2.target = target && p.2.weight.kind = key.kind).map (·.1)

/-! ## Questions -/

def getNode (s : IndexedGraph G) (id : NodeId) : Except GraphError (Option Node) :=
  match s.index[id]? with
  | some i => some <$> reach (node? s.graph i)
  | none => .ok none

/-- The nodes of a kind that meet a condition, by id. -/
def find (s : IndexedGraph G) (kind : Option NodeKind) (filter : NodeFilter) : List Node :=
  (((nodes s.graph).map (·.2)).filter fun node =>
    kind.all (· = node.kind) && filter.accepts node).mergeSort fun a b => (compare a.id b.id).isLE

/-- The hops from a node along its edges of the given kinds in one direction. -/
def hopsAlong (s : IndexedGraph G) (kinds : List EdgeKind) (heading : Heading) (i : Nat) :
    Except GraphError (List Neighbor) :=
  ((linksAt s.graph heading i).filter fun p => PropertyGraph.wants kinds p.2.weight.kind).mapM
    fun p => (⟨p.2.weight, ·, heading⟩) <$> reach (node? s.graph (p.2.far heading))

def neighbors (s : IndexedGraph G) (id : NodeId) (kinds : List EdgeKind) (direction : Direction) :
    Except GraphError (List Neighbor) :=
  match s.index[id]? with
  | none => .ok []
  | some i => do
    let out ← if direction.followsOut then s.hopsAlong kinds .outgoing i else .ok []
    let in_ ← if direction.followsIn then s.hopsAlong kinds .incoming i else .ok []
    return Neighbor.sort (out ++ in_)

/-- Every edge, by key. -/
def allEdges (s : IndexedGraph G) : List Edge :=
  ((links s.graph).map (·.2.weight)).mergeSort fun a b => (compare a.key b.key).isLE

/-! ## Insertions -/

/-- The kind under which an id is known, in the graph or among the nodes already accepted. -/
def kindOf? (s : IndexedGraph G) (accepted : Std.ExtTreeMap NodeId NodeKind) (id : NodeId) :
    Except GraphError (Option NodeKind) :=
  match s.index[id]? with
  | some i => (some ·.kind) <$> reach (node? s.graph i)
  | none => .ok accepted[id]?

/-- Accepts the nodes one by one unless one would change a kind; gives the kinds accepted. -/
def acceptNodes (s : IndexedGraph G) :
    (accepted : Std.ExtTreeMap NodeId NodeKind) → List Node →
    Except GraphError (Std.ExtTreeMap NodeId NodeKind)
  | accepted, [] => .ok accepted
  | accepted, node :: rest => do
    match ← s.kindOf? accepted node.id with
    | some existing =>
      if existing = node.kind then s.acceptNodes (accepted.insert node.id node.kind) rest
      else .error (.kindConflict node.id.text existing.tag node.kind.tag)
    | none => s.acceptNodes (accepted.insert node.id node.kind) rest

/-- Accepts the edges unless one of them lacks a node. -/
def acceptEdges (s : IndexedGraph G) (accepted : Std.ExtTreeMap NodeId NodeKind)
    (edges : List Edge) : Except GraphError Unit :=
  let known := fun id => s.index.contains id || accepted.contains id
  match edges.find? fun edge => !known edge.source || !known edge.target with
  | some edge => .error (.danglingEdge edge.source.text edge.target.text edge.kind.tag)
  | none => .ok ()

/-- What is checked before anything is written. -/
def check (s : IndexedGraph G) (nodes : List Node) (edges : List Edge) : Except GraphError Unit := do
  s.acceptEdges (← s.acceptNodes ∅ nodes) edges

/-- Writes a node over the one with its id, or puts it in and notes its number. -/
def putNode (s : IndexedGraph G) (node : Node) : Except GraphError (IndexedGraph G) :=
  match s.index[node.id]? with
  | some i => ({ s with graph := · }) <$> reach (setNode s.graph i node)
  | none =>
    let (i, graph) := addNode s.graph node
    .ok { graph, index := s.index.insert node.id i }

/-- Writes an edge over the one with its key, or puts it in between its nodes. -/
def putEdge (s : IndexedGraph G) (edge : Edge) : Except GraphError (IndexedGraph G) :=
  match s.findLink? edge.key with
  | some e => ({ s with graph := · }) <$> reach (setLink s.graph e edge)
  | none => do
    let source ← reach s.index[edge.source]?
    let target ← reach s.index[edge.target]?
    let (_, graph) ← reach (addLink s.graph source target edge)
    return { s with graph }

/-- Checks all nodes and edges, then writes them one after the other. -/
def upsert (nodes : List Node) (edges : List Edge) : Session (IndexedGraph G) Unit := do
  Session.ask (·.check nodes edges)
  forM nodes fun node => Session.change (·.putNode node)
  forM edges fun edge => Session.change (·.putEdge edge)

/-! ## Deletions -/

/-- Takes a node out, and with it all its edges. -/
def dropNode (s : IndexedGraph G) (id : NodeId) : IndexedGraph G :=
  match s.index[id]? with
  | some i => { graph := removeNode s.graph i, index := s.index.erase id }
  | none => s

def dropEdge (s : IndexedGraph G) (key : EdgeKey) : IndexedGraph G :=
  match s.findLink? key with
  | some e => { s with graph := removeLink s.graph e }
  | none => s

/-- Deletes nodes, each once; in which order does not matter. -/
def delete (s : IndexedGraph G) (ids : List NodeId) : IndexedGraph G :=
  ids.eraseDups.foldl dropNode s

def deleteEdges (s : IndexedGraph G) (keys : List EdgeKey) : IndexedGraph G :=
  keys.foldl dropEdge s

instance : Backend (IndexedGraph G) where
  getNode id := Session.ask (·.getNode id)
  findNodes kind filter := Session.ask fun s => .ok (s.find kind filter)
  neighbors id kinds direction := Session.ask (·.neighbors id kinds direction)
  upsert := upsert
  delete ids := Session.change fun s => .ok (s.delete ids)
  deleteEdges keys := Session.change fun s => .ok (s.deleteEdges keys)
  nodeCount := Session.ask fun s => .ok (nodes s.graph).length
  edgeCount := Session.ask fun s => .ok (links s.graph).length
  allEdges := Session.ask fun s => .ok s.allEdges

end IndexedGraph

end CodeAtlas
