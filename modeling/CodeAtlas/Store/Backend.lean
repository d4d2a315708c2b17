import CodeAtlas.Graph.PropertyGraph

/-!
# Backends

A backend is a state that answers nine calls. Each call either gives an answer or fails, and may
change the state either way: a store that is told to fail has to remember that it did. What is built
on a backend is written against the class alone, so that it runs unchanged over the graph in memory,
over stored rows, and over a store that fails on demand.
-/

set_option autoImplicit false

namespace CodeAtlas

/-- A run over a state: it ends in an answer or in a failure, and leaves a state in both cases. -/
abbrev Session (σ α : Type) := ExceptT GraphError (StateM σ) α

namespace Session

/-- A question that the state answers without changing. -/
def ask {σ α : Type} (question : σ → Except GraphError α) : Session σ α := fun s => (question s, s)

/-- A change that leaves the state as it was if it fails. -/
def change {σ : Type} (step : σ → Except GraphError σ) : Session σ Unit := fun s =>
  match step s with
  | .ok next => (.ok (), next)
  | .error e => (.error e, s)

/-- Runs a session on a part of a larger state. -/
def onPart {σ τ α : Type} (part : τ → σ) (put : τ → σ → τ) (run : Session σ α) : Session τ α :=
  fun t =>
    let (answer, s) := run (part t)
    (answer, put t s)

/-- Tries a session and turns a failure into a value. -/
def attempt {σ α : Type} (run : Session σ α) : Session σ (Except GraphError α) := fun s =>
  let (answer, s) := run s
  (.ok answer, s)

end Session

/-- The calls that every store answers. -/
class Backend (σ : Type) where
  getNode : NodeId → Session σ (Option Node)
  /-- The nodes of a kind that meet a condition, by id. -/
  findNodes : Option NodeKind → NodeFilter → Session σ (List Node)
  /-- The neighbours of a node in listing order; an empty list of kinds asks for all. -/
  neighbors : NodeId → List EdgeKind → Direction → Session σ (List Neighbor)
  /-- Inserts or replaces nodes and then edges, or changes nothing and fails. -/
  upsert : List Node → List Edge → Session σ Unit
  /-- Deletes nodes with their edges; unknown ids are passed over. -/
  delete : List NodeId → Session σ Unit
  /-- Deletes single edges; unknown keys are passed over. -/
  deleteEdges : List EdgeKey → Session σ Unit
  nodeCount : Session σ Nat
  edgeCount : Session σ Nat
  /-- Every edge, by key. -/
  allEdges : Session σ (List Edge)

instance : Backend PropertyGraph where
  getNode id := Session.ask fun g => .ok (g.get? id)
  findNodes kind filter := Session.ask fun g => .ok (g.find kind filter)
  neighbors id kinds direction := Session.ask fun g => .ok (g.neighbors id kinds direction)
  upsert nodes edges := Session.change (·.upsert nodes edges)
  delete ids := Session.change fun g => .ok (g.delete ids)
  deleteEdges keys := Session.change fun g => .ok (g.deleteEdges keys)
  nodeCount := Session.ask fun g => .ok g.nodeCount
  edgeCount := Session.ask fun g => .ok g.edgeCount
  allEdges := Session.ask fun g => .ok g.allEdges

end CodeAtlas
