import CodeAtlas.Graph.Edge

/-!
# Deltas

A delta is the change that one call made: what was inserted or replaced, which nodes went, and
which edges went although both their nodes stayed. Deltas are merged by appending, in call order.
-/

set_option autoImplicit false

namespace CodeAtlas

/-- The change made by one call. -/
structure Delta where
  upsertedNodes : List Node := []
  upsertedEdges : List Edge := []
  removedIds : List NodeId := []
  removedEdges : List EdgeKey := []
deriving DecidableEq

namespace Delta

def isEmpty (delta : Delta) : Bool :=
  delta.upsertedNodes.isEmpty && delta.upsertedEdges.isEmpty && delta.removedIds.isEmpty &&
    delta.removedEdges.isEmpty

/-- The number of changes. -/
def size (delta : Delta) : Nat :=
  delta.upsertedNodes.length + delta.upsertedEdges.length + delta.removedIds.length +
    delta.removedEdges.length

/-- The first change followed by the second. -/
def append (first second : Delta) : Delta where
  upsertedNodes := first.upsertedNodes ++ second.upsertedNodes
  upsertedEdges := first.upsertedEdges ++ second.upsertedEdges
  removedIds := first.removedIds ++ second.removedIds
  removedEdges := first.removedEdges ++ second.removedEdges

instance : Append Delta := ⟨append⟩

theorem size_append (a b : Delta) : (a ++ b).size = a.size + b.size := by
  show (append a b).size = _
  simp [append, size]; omega

end Delta

end CodeAtlas
