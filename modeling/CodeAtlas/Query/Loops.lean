import CodeAtlas.Query.Cycles

/-!
# Walks as loops

An expansion and a cycle search can each be run as a loop over a state of its own. The expansion keeps
the nodes that it still has to look at in a queue. The cycle search keeps a stack of frames, one for each
node of its path, and beside it the position of each of these nodes.

A loop is cut off after a number of rounds. A walk ends after finitely many, but how many these are
depends on the answers that it gets.
-/

set_option autoImplicit false

namespace CodeAtlas

/-- Takes rounds while there is one to take, up to a number of them. -/
def Session.loop {σ α : Type} (round : α → Option (Session σ α)) : (rounds : Nat) → α → Session σ α
  | 0, a => return a
  | rounds + 1, a =>
    match round a with
    | none => return a
    | some next => do loop round rounds (← next)

/-! ## A queue -/

/-- An expansion under way. -/
structure QueueWalk where
  /-- The nodes to look at with their depths, the next one first. -/
  queue : List (NodeId × Nat)
  /-- Every node found so far, the start included. -/
  seen : Std.ExtTreeSet NodeId
  reached : List Reached := []
  /-- Set when the deadline has ended the walk. -/
  truncated : Bool := false
  deadline : Deadline

namespace QueueWalk

/-- Takes up a node at a depth unless it has been found before. -/
def add (depth : Nat) (w : QueueWalk) (node : NodeSummary) : QueueWalk :=
  if w.seen.contains node.id then w
  else { w with
    queue := w.queue ++ [(node.id, depth)]
    seen := w.seen.insert node.id
    reached := w.reached ++ [⟨node, depth⟩] }

/-- Takes the first node off the queue and looks at its neighbours, unless it lies too deep. -/
def round {σ : Type} [Backend σ] (kinds : List EdgeKind) (direction : Direction) (maxDepth : Nat)
    (w : QueueWalk) : Option (Session σ QueueWalk) :=
  if w.truncated then none
  else
    match w.queue with
    | [] => none
    | (id, depth) :: queue =>
      if maxDepth ≤ depth then some (return { w with queue })
      else
        match w.deadline.check with
        | (true, deadline) => some (return { w with queue, truncated := true, deadline })
        | (false, deadline) => some do
          let neighbors ← Backend.neighbors id kinds direction
          return (neighbors.map (·.node.summary)).foldl (add (depth + 1)) { w with queue, deadline }

end QueueWalk

/-! ## A stack -/

/-- A node of the path, its children, and which of them is next. -/
structure Frame where
  node : NodeId
  children : List NodeId
  next : Nat := 0

/-- A cycle search and where it stands. -/
structure StackWalk where
  /-- The frames of the path, beginning with the start. -/
  stack : List Frame
  /-- Where on the path a node is. -/
  positions : Std.ExtTreeMap NodeId Nat
  search : CycleSearch

namespace StackWalk

variable {σ : Type} [Backend σ]

/-- The walk that stands at its start. -/
def enter (start : NodeId) (deadline : Deadline) : Session σ StackWalk := do
  let (children, search) ← Query.successors start { deadline }
  return { stack := [⟨start, children, 0⟩], positions := .ofList [(start, 0)], search }

/-- Looks at the next child of the last frame, or goes back to the frame before it. -/
def round (budget maxDepth : Nat) (w : StackWalk) : Option (Session σ StackWalk) :=
  if w.search.stopped then none
  else
    match w.stack.getLast? with
    | none => none
    | some frame =>
      let below := w.stack.dropLast
      match frame.children[frame.next]? with
      | none => some (return { w with stack := below, positions := w.positions.erase frame.node })
      | some child =>
        let stack := below ++ [{ frame with next := frame.next + 1 }]
        let search := w.search.step budget
        if search.stopped then some (return { w with stack, search })
        else
          match w.positions[child]? with
          | some position =>
            some (return { w with stack, search := search.addCycle ((stack.drop position).map (·.node)) })
          | none =>
            if maxDepth ≤ stack.length then some (return { w with stack, search := search.cut })
            else some do
              let (children, search) ← Query.successors child search
              return { stack := stack ++ [⟨child, children, 0⟩],
                       positions := w.positions.insert child stack.length, search }

end StackWalk

namespace Query

variable {σ : Type} [Backend σ]

/-- An expansion, as a loop over a queue. -/
def expandLoop (rounds : Nat) (start : NodeId) (kinds : List EdgeKind) (direction : Direction)
    (maxDepth : Nat) (deadline : Deadline) : Session σ (Expansion × Deadline) := do
  let w ← Session.loop (QueueWalk.round kinds direction maxDepth) rounds
    { queue := [(start, 0)], seen := {start}, deadline }
  return ({ reached := Reached.sort w.reached, truncated := w.truncated }, w.deadline)

/-- A cycle search, as a loop over a stack. -/
def findCyclesLoop (rounds : Nat) (start : NodeId) (maxDepth stepBudget : Nat) (deadline : Deadline) :
    Session σ (CycleReport × Deadline) := do
  let w ← Session.loop (StackWalk.round stepBudget maxDepth) rounds (← StackWalk.enter start deadline)
  return (w.search.report, w.search.deadline)

end Query

end CodeAtlas
