import CodeAtlas.Query.Expansion

/-!
# Impact

What is affected when a node changes: everything that depends on it, the tests of all these nodes, and
how many names they wait for that nothing declares. The deadline is asked once more before each of
the affected nodes.
-/

set_option autoImplicit false

namespace CodeAtlas

/-- What is affected when a node changes. -/
structure ImpactReport where
  /-- What depends on the node, by distance and then by id. -/
  affected : List Reached
  /-- The tests of the node and of all that is affected, by id. -/
  affectedTests : List NodeSummary
  /-- How many distinct placeholders the node and all that is affected depend on. -/
  unresolved : Nat
  truncated : Bool
deriving DecidableEq, Repr

/-- The tests and placeholders that have been met so far. -/
structure ImpactTally where
  tests : List NodeSummary := []
  placeholders : Std.ExtTreeSet NodeId := ∅
  truncated : Bool := false

namespace Query

variable {σ : Type} [Backend σ]

/-- Collects the tests and placeholders of some nodes. -/
def tallyImpact : List NodeSummary → Deadline → ImpactTally → Session σ ImpactTally
  | [], _, tally => return tally
  | subject :: rest, deadline, tally => do
    match deadline.check with
    | (true, _) => return { tally with truncated := true }
    | (false, deadline) =>
      let own := if subject.kind = .testCase then [subject] else []
      let tests ← related subject.id .testedBy .outgoing
      let waiting := (← directDependencies subject.id).filter (·.kind = .unknown)
      tallyImpact rest deadline
        { tally with
          tests := tally.tests ++ own ++ tests
          placeholders := waiting.foldl (fun s n => s.insert n.id) tally.placeholders }

/-- What is affected when a node changes, which has to exist. -/
def impact (id : NodeId) (maxDepth : Nat) (deadline : Deadline) : Session σ ImpactReport := do
  let root ← requireNode id
  let (dependents, deadline) ← transitiveDependents id maxDepth deadline
  let subjects := root.summary :: dependents.reached.map (·.node)
  let tally ← tallyImpact subjects deadline { truncated := dependents.truncated }
  return { affected := dependents.reached
           affectedTests := NodeSummary.distinctById tally.tests
           unresolved := tally.placeholders.size
           truncated := tally.truncated }

end Query

end CodeAtlas
