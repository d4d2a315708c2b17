import CodeAtlas.Store.Backend

/-!
# A store that fails on demand

Each kind of call can be told to fail a number of times. A failing call reaches nothing behind it;
it only uses up one of its failures.
-/

set_option autoImplicit false

namespace CodeAtlas

/-- The calls of a backend, by name. -/
inductive Call where
  | getNode
  | findNodes
  | neighbors
  | upsert
  | delete
  | deleteEdges
  | nodeCount
  | edgeCount
  | allEdges
deriving DecidableEq, Repr, Inhabited

namespace Call

def all : List Call :=
  [getNode, findNodes, neighbors, upsert, delete, deleteEdges, nodeCount, edgeCount, allEdges]

def name : Call → String
  | getNode => "get_node"
  | findNodes => "find_nodes"
  | neighbors => "neighbors"
  | upsert => "upsert"
  | delete => "delete"
  | deleteEdges => "delete_edges"
  | nodeCount => "node_count"
  | edgeCount => "edge_count"
  | allEdges => "all_edges"

def ofName? (text : String) : Option Call := all.find? (·.name == text)

end Call

/-- A store with the number of failures that each call still has before it. -/
structure Faulty (σ : Type) where
  store : σ
  faults : Call → Nat := fun _ => 0

namespace Faulty

variable {σ α : Type}

/-- Tells a call to fail the next times; an earlier number is replaced. -/
def setFaults (f : Faulty σ) (call : Call) (times : Nat) : Faulty σ :=
  { f with faults := fun c => if c = call then times else f.faults c }

/-- Makes a call unless it has failures before it. -/
def guarded (call : Call) (run : Session σ α) : Session (Faulty σ) α := fun f =>
  match f.faults call with
  | 0 =>
    let (answer, store) := run f.store
    (answer, { f with store })
  | left + 1 => (.error (.unavailable s!"injected {call.name}"), f.setFaults call left)

instance [Backend σ] : Backend (Faulty σ) where
  getNode id := guarded .getNode (Backend.getNode id)
  findNodes kind filter := guarded .findNodes (Backend.findNodes kind filter)
  neighbors id kinds direction := guarded .neighbors (Backend.neighbors id kinds direction)
  upsert nodes edges := guarded .upsert (Backend.upsert nodes edges)
  delete ids := guarded .delete (Backend.delete ids)
  deleteEdges keys := guarded .deleteEdges (Backend.deleteEdges keys)
  nodeCount := guarded .nodeCount Backend.nodeCount
  edgeCount := guarded .edgeCount Backend.edgeCount
  allEdges := guarded .allEdges Backend.allEdges

end Faulty

end CodeAtlas
