import CodeAtlas.Deadline
import CodeAtlas.Query.Hop
import Std.Data.ExtTreeSet

/-!
# Breadth-first expansion

An expansion goes out from a node level by level, up to a number of levels. The nodes of a level are
looked at in the order in which they were found, and each is found once, at its least distance. The
node it starts from is never part of the result. The deadline is asked before each node; when it has
passed, the expansion ends with what it has found so far and says so.
-/

set_option autoImplicit false

namespace CodeAtlas

/-- A node at its distance from the start. -/
structure Reached where
  node : NodeSummary
  depth : Nat
deriving DecidableEq, Repr

namespace Reached

/-- By distance, then by id. -/
def compareListed (a b : Reached) : Ordering :=
  compareLex (compareOn depth) (compareOn (·.node.id)) a b

def sort (reached : List Reached) : List Reached :=
  reached.mergeSort fun a b => (compareListed a b).isLE

end Reached

/-- What an expansion has found, and whether the deadline ended it. -/
structure Expansion where
  reached : List Reached := []
  truncated : Bool := false
deriving DecidableEq, Repr

/-- One level of an expansion while it is being searched. -/
structure Wave where
  /-- Every node found so far, the start included. -/
  seen : Std.ExtTreeSet NodeId
  /-- The nodes found on this level, in order. -/
  found : List NodeSummary := []
  deadline : Deadline
  truncated : Bool := false

namespace Wave

/-- Takes up a node unless it has been found before. -/
def add (wave : Wave) (node : NodeSummary) : Wave :=
  if wave.seen.contains node.id then wave
  else { wave with seen := wave.seen.insert node.id, found := wave.found ++ [node] }

end Wave

namespace Query

variable {σ : Type} [Backend σ]

/-- Looks at the neighbours of the nodes of one level. -/
def sweep (kinds : List EdgeKind) (direction : Direction) : List NodeId → Wave → Session σ Wave
  | [], wave => return wave
  | id :: rest, wave => do
    match wave.deadline.check with
    | (true, deadline) => return { wave with deadline, truncated := true }
    | (false, deadline) =>
      let neighbors ← Backend.neighbors id kinds direction
      sweep kinds direction rest
        ((neighbors.map (·.node.summary)).foldl Wave.add { wave with deadline })

/-- Searches as many further levels as are given, beginning with the nodes at a depth. -/
def spread (kinds : List EdgeKind) (direction : Direction) :
    (levels depth : Nat) → List NodeId → Std.ExtTreeSet NodeId → Deadline →
    Session σ (Expansion × Deadline)
  | 0, _, _, _, deadline => return ({}, deadline)
  | _ + 1, _, [], _, deadline => return ({}, deadline)
  | levels + 1, depth, frontier, seen, deadline => do
    let wave ← sweep kinds direction frontier { seen, deadline }
    let here := wave.found.map (⟨·, depth + 1⟩)
    if wave.truncated then return (⟨here, true⟩, wave.deadline)
    let (beyond, deadline) ←
      spread kinds direction levels (depth + 1) (wave.found.map (·.id)) wave.seen wave.deadline
    return ({ beyond with reached := here ++ beyond.reached }, deadline)

/-- Everything within a distance of a node, by distance and then by id. An empty list of kinds follows
every edge. -/
def expand (start : NodeId) (kinds : List EdgeKind) (direction : Direction) (maxDepth : Nat)
    (deadline : Deadline) : Session σ (Expansion × Deadline) := do
  let (expansion, deadline) ← spread kinds direction maxDepth 0 [start] {start} deadline
  return ({ expansion with reached := Reached.sort expansion.reached }, deadline)

/-- What a node depends on, directly or through others. -/
def transitiveDependencies (id : NodeId) (maxDepth : Nat) (deadline : Deadline) :
    Session σ (Expansion × Deadline) :=
  expand id EdgeKind.structural .outgoing maxDepth deadline

/-- What depends on a node, directly or through others. -/
def transitiveDependents (id : NodeId) (maxDepth : Nat) (deadline : Deadline) :
    Session σ (Expansion × Deadline) :=
  expand id EdgeKind.structural .incoming maxDepth deadline

end Query

end CodeAtlas
