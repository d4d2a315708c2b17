import CodeAtlas.Store.Backend
import CodeAtlas.Store.Props

/-!
# Rows

The stored form of a graph: a table of nodes and a table of edges, in which kinds are texts and
property bags are JSON. Rows are decoded when they are read, so that a row which does not decode is
found by the calls that read it and by no others; counting and deleting never decode. What is
compared when a node is replaced is the stored text of its kind.

Edges are keyed by the stored text of their kind as well, exactly as it is spelled. Two rows whose
texts differ in case only decode to the same edge, and then the order of the rows shows: rows are
read by key where they are found by their source, and by age elsewhere.
-/

set_option autoImplicit false

namespace CodeAtlas

/-- A row of the node table without its id. -/
structure NodeRow where
  kind : String
  displayName : String
  props : StoredProps

/-- The key of a row in the edge table. -/
structure EdgeRowKey where
  source : NodeId
  target : NodeId
  kind : String
deriving DecidableEq, Repr, Inhabited

namespace EdgeRowKey

instance : Ord EdgeRowKey :=
  ⟨compareLex (compareOn source) (compareLex (compareOn target) (compareOn kind))⟩

instance : Std.TransOrd EdgeRowKey :=
  inferInstanceAs (Std.TransCmp
    (compareLex (compareOn source) (compareLex (compareOn target) (compareOn kind))))

instance : Std.LawfulEqOrd EdgeRowKey where
  eq_of_compare {a b} h := by
    have h' : compareLex (compareOn source) (compareLex (compareOn target) (compareOn kind)) a b
        = .eq := h
    simp only [compareLex, compareOn, Ordering.then_eq_eq, Std.LawfulEqOrd.compare_eq_iff_eq] at h'
    cases a; cases b; simp_all

def ofKey (key : EdgeKey) : EdgeRowKey := ⟨key.source, key.target, key.kind.tag⟩

end EdgeRowKey

/-- A row of the edge table without its key; later rows have larger ages. -/
structure EdgeRow where
  age : Nat
  props : StoredProps

/-- The two tables. -/
structure Tables where
  nodes : Std.ExtTreeMap NodeId NodeRow := ∅
  edges : Std.ExtTreeMap EdgeRowKey EdgeRow := ∅
  /-- The age of the next row of the edge table. -/
  nextAge : Nat := 0

namespace Tables

/-! ## Decoding -/

/-- Says that a row cannot be decoded. -/
def corrupt {α : Type} (table message : String) : Except GraphError α :=
  .error (.ofStorage (.corruptRow table message))

/-- The property bag of a row. -/
def decodeProps (table : String) (props : StoredProps) : Except GraphError Props :=
  match props.read? with
  | some props => .ok props
  | none => corrupt table "bad props json"

/-- The node of a row. The kind is looked at first. -/
def decodeNode (id : NodeId) (row : NodeRow) : Except GraphError Node :=
  match NodeKind.ofTag? row.kind with
  | none => corrupt "nodes" (NodeKind.tagRefusal row.kind)
  | some kind => do return ⟨id, kind, row.displayName, ← decodeProps "nodes" row.props⟩

/-- The edge of a row. The kind is looked at first. -/
def decodeEdge (key : EdgeRowKey) (row : EdgeRow) : Except GraphError Edge :=
  match EdgeKind.ofTag? key.kind with
  | none => corrupt "edges" (EdgeKind.tagRefusal key.kind)
  | some kind => do return ⟨key.source, key.target, kind, ← decodeProps "edges" row.props⟩

/-! ## Questions -/

def get (t : Tables) (id : NodeId) : Except GraphError (Option Node) :=
  match t.nodes[id]? with
  | none => .ok none
  | some row => do return some (← decodeNode id row)

/-- Only rows with the kind asked for are decoded, and all of these are. -/
def find (t : Tables) (kind : Option NodeKind) (filter : NodeFilter) :
    Except GraphError (List Node) := do
  let rows := t.nodes.toList.filter fun (_, row) => kind.all (·.tag == row.kind)
  let nodes ← rows.mapM fun (id, row) => decodeNode id row
  return nodes.filter filter.accepts

/-- Rows of the edge table from old to new. -/
def byAge (rows : List (EdgeRowKey × EdgeRow)) : List (EdgeRowKey × EdgeRow) :=
  rows.mergeSort fun a b => a.2.age ≤ b.2.age

/-- Decodes rows together with the node at their other end. -/
def decodeHops (t : Tables) (other : EdgeRowKey → NodeId) (heading : Heading)
    (rows : List (EdgeRowKey × EdgeRow)) : Except GraphError (List Neighbor) := do
  let joined := rows.filterMap fun (key, row) => t.nodes[other key]?.map ((key, row), ·)
  joined.mapM fun ((key, row), node) => do
    return ⟨← decodeEdge key row, ← decodeNode (other key) node, heading⟩

def outgoing (t : Tables) (id : NodeId) : Except GraphError (List Neighbor) :=
  t.decodeHops (·.target) .outgoing (t.edges.toList.filter (·.1.source = id))

def incoming (t : Tables) (id : NodeId) : Except GraphError (List Neighbor) :=
  t.decodeHops (·.source) .incoming (byAge (t.edges.toList.filter (·.1.target = id)))

def neighbors (t : Tables) (id : NodeId) (kinds : List EdgeKind) (direction : Direction) :
    Except GraphError (List Neighbor) := do
  let out ← if direction.followsOut then t.outgoing id else pure []
  let in_ ← if direction.followsIn then t.incoming id else pure []
  return Neighbor.sort ((out ++ in_).filter (PropertyGraph.wants kinds ·.edge.kind))

def allEdges (t : Tables) : Except GraphError (List Edge) := do
  let edges ← (byAge t.edges.toList).mapM fun (key, row) => decodeEdge key row
  return edges.mergeSort fun a b => (compare a.key b.key).isLE

/-! ## Changes -/

/-- The text of the kind under which an id is known. -/
def kindOf? (t : Tables) (accepted : Std.ExtTreeMap NodeId NodeKind) (id : NodeId) :
    Option String :=
  (accepted[id]?.map (·.tag)).or (t.nodes[id]?.map (·.kind))

/-- Accepts the nodes one by one unless one would change a kind; gives the kinds accepted. -/
def acceptNodes (t : Tables) :
    (accepted : Std.ExtTreeMap NodeId NodeKind) → List Node →
    Except GraphError (Std.ExtTreeMap NodeId NodeKind)
  | accepted, [] => .ok accepted
  | accepted, node :: rest =>
    match t.kindOf? accepted node.id with
    | some existing =>
      if existing = node.kind.tag then t.acceptNodes (accepted.insert node.id node.kind) rest
      else .error (.kindConflict node.id.text existing node.kind.tag)
    | none => t.acceptNodes (accepted.insert node.id node.kind) rest

/-- Accepts the edges unless one of them lacks a node. -/
def acceptEdges (t : Tables) (accepted : Std.ExtTreeMap NodeId NodeKind) (edges : List Edge) :
    Except GraphError Unit :=
  let known := fun id => (t.kindOf? accepted id).isSome
  match edges.find? fun edge => !known edge.source || !known edge.target with
  | some edge => .error (.danglingEdge edge.source.text edge.target.text edge.kind.tag)
  | none => .ok ()

/-- A node's row; one that is there keeps the text of its kind. -/
def putNode (t : Tables) (node : Node) : Tables :=
  let kind := (t.nodes[node.id]?.map (·.kind)).getD node.kind.tag
  { t with nodes := t.nodes.insert node.id ⟨kind, node.displayName, .written node.props⟩ }

/-- An edge's row; one that is there keeps its age. -/
def putEdge (t : Tables) (edge : Edge) : Tables :=
  let key := EdgeRowKey.ofKey edge.key
  match t.edges[key]? with
  | some row => { t with edges := t.edges.insert key { row with props := .written edge.props } }
  | none =>
    { t with edges := t.edges.insert key ⟨t.nextAge, .written edge.props⟩, nextAge := t.nextAge + 1 }

def upsert (t : Tables) (nodes : List Node) (edges : List Edge) : Except GraphError Tables := do
  let accepted ← t.acceptNodes ∅ nodes
  t.acceptEdges accepted edges
  return edges.foldl putEdge (nodes.foldl putNode t)

/-- Deletes rows of nodes together with the rows of every edge that touches them. -/
def delete (t : Tables) (ids : List NodeId) : Tables :=
  { t with
    nodes := ids.foldl (fun m id => m.erase id) t.nodes
    edges := t.edges.filter fun key _ => !ids.contains key.source && !ids.contains key.target }

def deleteEdges (t : Tables) (keys : List EdgeKey) : Tables :=
  { t with edges := keys.foldl (fun m key => m.erase (.ofKey key)) t.edges }

/-! ## Rows from elsewhere -/

/-- Puts a row into the node table as it is. A row in its place goes first, and its edges with it. -/
def putForeignNode (t : Tables) (id : NodeId) (kind displayName props : String) : Tables :=
  let t := t.delete [id]
  { t with nodes := t.nodes.insert id ⟨kind, displayName, .foreign props⟩ }

/-- Puts a row into the edge table as it is; both its nodes must be there. -/
def putForeignEdge (t : Tables) (key : EdgeRowKey) (props : String) : Except StorageError Tables :=
  if t.nodes.contains key.source && t.nodes.contains key.target then
    .ok { t with edges := t.edges.insert key ⟨t.nextAge, .foreign props⟩, nextAge := t.nextAge + 1 }
  else .error (.engine "FOREIGN KEY constraint failed")

end Tables

instance : Backend Tables where
  getNode id := Session.ask (·.get id)
  findNodes kind filter := Session.ask (·.find kind filter)
  neighbors id kinds direction := Session.ask (·.neighbors id kinds direction)
  upsert nodes edges := Session.change (·.upsert nodes edges)
  delete ids := Session.change fun t => .ok (t.delete ids)
  deleteEdges keys := Session.change fun t => .ok (t.deleteEdges keys)
  nodeCount := Session.ask fun t => .ok t.nodes.size
  edgeCount := Session.ask fun t => .ok t.edges.size
  allEdges := Session.ask (·.allEdges)

end CodeAtlas
