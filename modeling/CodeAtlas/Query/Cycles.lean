import CodeAtlas.Query.Expansion

/-!
# Cycle search

A depth-first search along dependencies from a node. The path from the start to the node at hand is
kept; a child that is already on the path closes a cycle, which is the part of the path from that
child on. Each child that is looked at is one step. The search ends when the steps exceed their
budget or the deadline has passed; a path is not followed beyond its greatest length. In all three
cases the report says that the search was cut short.
-/

set_option autoImplicit false

namespace CodeAtlas

/-- The cycles that were found, in the order in which they were found. -/
structure CycleReport where
  cycles : List (List NodeId) := []
  truncated : Bool := false
  steps : Nat := 0
deriving DecidableEq, Repr

/-- A cycle search under way. -/
structure CycleSearch where
  /-- The cycles found so far, the newest first. -/
  newest : List (List NodeId) := []
  /-- The same cycles once more, as a set in which they are looked up. -/
  found : Std.ExtTreeSet (List NodeId) := ∅
  /-- Whether something was left unsearched. -/
  truncated : Bool := false
  steps : Nat := 0
  /-- Set when the budget or the deadline has ended the search. -/
  stopped : Bool := false
  /-- What has been asked of the backend, so that nothing is asked twice. -/
  known : Std.ExtTreeMap NodeId (List NodeId) := ∅
  deadline : Deadline

namespace CycleSearch

/-- Counts a step and stops when it is one too many or the deadline has passed. -/
def step (budget : Nat) (s : CycleSearch) : CycleSearch :=
  let steps := s.steps + 1
  if budget < steps then { s with steps, truncated := true, stopped := true }
  else
    let (passed, deadline) := s.deadline.check
    { s with steps, truncated := s.truncated || passed, stopped := passed, deadline }

/-- Keeps a cycle unless it has been found before. -/
def addCycle (s : CycleSearch) (cycle : List NodeId) : CycleSearch :=
  if s.found.contains cycle then s
  else { s with newest := cycle :: s.newest, found := s.found.insert cycle }

/-- Notes that something was left unsearched. -/
def cut (s : CycleSearch) : CycleSearch := { s with truncated := true }

/-- What the search has to report. -/
def report (s : CycleSearch) : CycleReport := ⟨s.newest.reverse, s.truncated, s.steps⟩

end CycleSearch

namespace Query

variable {σ : Type} [Backend σ]

/-- The nodes that a node depends on directly, by id. -/
def successors (id : NodeId) (s : CycleSearch) : Session σ (List NodeId × CycleSearch) := do
  match s.known[id]? with
  | some ids => return (ids, s)
  | none =>
    let ids := (← directDependencies id).map (·.id)
    return (ids, { s with known := s.known.insert id ids })

/-- Looks at the children of the node at the end of the path, one after the other. What happens to a
child that is not on the path is up to `descend`. -/
def tryChildren (budget : Nat) (descend : NodeId → CycleSearch → Session σ CycleSearch)
    (path : List NodeId) : List NodeId → CycleSearch → Session σ CycleSearch
  | [], s => return s
  | child :: rest, s => do
    let s := s.step budget
    if s.stopped then return s
    let s ← if path.contains child then pure (s.addCycle (path.dropWhile (· ≠ child)))
      else descend child s
    if s.stopped then return s
    tryChildren budget descend path rest s

/-- Searches below the node at the end of the path, which may grow by as many nodes as there is room
for. -/
def search (budget : Nat) :
    (room : Nat) → (path children : List NodeId) → CycleSearch → Session σ CycleSearch
  | 0, path, children, s => tryChildren budget (fun _ s => return s.cut) path children s
  | room + 1, path, children, s =>
    tryChildren budget (fun child s => do
      let (below, s) ← successors child s
      search budget room (path ++ [child]) below s) path children s

/-- The cycles that can be reached from a node. -/
def findCycles (start : NodeId) (maxDepth stepBudget : Nat) (deadline : Deadline) :
    Session σ (CycleReport × Deadline) := do
  let (children, s) ← successors start { deadline }
  let s ← search stepBudget (maxDepth - 1) [start] children s
  return (s.report, s.deadline)

end Query

end CodeAtlas
