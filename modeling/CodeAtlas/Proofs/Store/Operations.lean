import CodeAtlas.Proofs.Sessions

/-!
# Calls one after another

A backend is used by calling it again and again, and what a user sees of it are the answers. Here a
call is a value with its arguments, so that a use of a backend is a list of calls: `Operation.after`
is the state it leads to and `Operation.replies` is what is seen on the way. Calls that fail are part
of a use like any others.
-/

set_option autoImplicit false

namespace CodeAtlas

/-- A call of a backend with its arguments. -/
inductive Operation where
  | getNode (id : NodeId)
  | findNodes (kind : Option NodeKind) (filter : NodeFilter)
  | neighbors (id : NodeId) (kinds : List EdgeKind) (direction : Direction)
  | upsert (nodes : List Node) (edges : List Edge)
  | delete (ids : List NodeId)
  | deleteEdges (keys : List EdgeKey)
  | nodeCount
  | edgeCount
  | allEdges

/-- What a call gives if it does not fail. -/
inductive Reply where
  | done
  | node (node : Option Node)
  | nodes (nodes : List Node)
  | hops (hops : List Neighbor)
  | edges (edges : List Edge)
  | count (n : Nat)
deriving DecidableEq

namespace Operation

variable {σ : Type} [Backend σ]

def run : Operation → Session σ Reply
  | getNode id => .node <$> Backend.getNode id
  | findNodes kind filter => .nodes <$> Backend.findNodes kind filter
  | neighbors id kinds direction => .hops <$> Backend.neighbors id kinds direction
  | upsert nodes edges => (fun _ => .done) <$> Backend.upsert nodes edges
  | delete ids => (fun _ => .done) <$> Backend.delete ids
  | deleteEdges keys => (fun _ => .done) <$> Backend.deleteEdges keys
  | nodeCount => .count <$> Backend.nodeCount
  | edgeCount => .count <$> Backend.edgeCount
  | allEdges => .edges <$> Backend.allEdges

/-- The state after some calls. -/
def after (s : σ) (ops : List Operation) : σ := ops.foldl (fun s op => (op.run s).2) s

/-- What some calls answer. -/
def replies : σ → List Operation → List (Except GraphError Reply)
  | _, [] => []
  | s, op :: rest => (op.run s).1 :: replies (op.run s).2 rest

end Operation

end CodeAtlas
