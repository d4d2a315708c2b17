import CodeAtlas.Store.Backend

/-!
# A store of one of two kinds

Which kind of store is used may be known only when the program runs. A store of either kind answers
every call as the store that it is.
-/

set_option autoImplicit false

namespace CodeAtlas

variable {σ τ α : Type}

/-- Runs the session that fits the store at hand. -/
def Session.onEither (left : Session σ α) (right : Session τ α) : Session (σ ⊕ τ) α
  | .inl s =>
    let (answer, s) := left s
    (answer, .inl s)
  | .inr t =>
    let (answer, t) := right t
    (answer, .inr t)

instance [Backend σ] [Backend τ] : Backend (σ ⊕ τ) where
  getNode id := Session.onEither (Backend.getNode id) (Backend.getNode id)
  findNodes kind filter :=
    Session.onEither (Backend.findNodes kind filter) (Backend.findNodes kind filter)
  neighbors id kinds direction :=
    Session.onEither (Backend.neighbors id kinds direction) (Backend.neighbors id kinds direction)
  upsert nodes edges := Session.onEither (Backend.upsert nodes edges) (Backend.upsert nodes edges)
  delete ids := Session.onEither (Backend.delete ids) (Backend.delete ids)
  deleteEdges keys := Session.onEither (Backend.deleteEdges keys) (Backend.deleteEdges keys)
  nodeCount := Session.onEither Backend.nodeCount Backend.nodeCount
  edgeCount := Session.onEither Backend.edgeCount Backend.edgeCount
  allEdges := Session.onEither Backend.allEdges Backend.allEdges

end CodeAtlas
