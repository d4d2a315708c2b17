import CodeAtlas.Query.Cycles

/-!
# Metrics

Scores that rank nodes. The complexity of a node is a weighted sum of how much it depends on, how
many cycles it reaches and how tightly it is coupled; sums are taken from left to right.
-/

set_option autoImplicit false

namespace CodeAtlas

/-- The metrics of one node. -/
structure NodeMetrics where
  direct : Nat
  transitive : Nat
  cycles : Nat
  coupling : Float
  score : Float
  truncated : Bool

namespace Metrics

/-- A share of a whole, and a given value if the whole is nothing. -/
def ratio (part whole : Nat) (empty : Float) : Float :=
  if whole = 0 then empty else part.toFloat / whole.toFloat

/-- How close a number of direct dependencies comes to the number that counts as full coupling; never
above one. -/
def coupling (direct : Nat) (normalization : Float) : Float :=
  if normalization ≤ 0.0 then 1.0
  else
    let share := direct.toFloat / normalization
    if share < 1.0 then share else 1.0

/-- The weighted sum. -/
def score (direct transitive cycles : Nat) (coupling : Float) (weights : MetricsSettings) : Float :=
  direct.toFloat * weights.effectiveDirectWeight
    + transitive.toFloat * weights.effectiveTransitiveWeight
    + cycles.toFloat * weights.effectiveCycleWeight
    + coupling * weights.effectiveCouplingWeight

end Metrics

namespace Query

variable {σ : Type} [Backend σ]

/-- All metrics of a node. The cycle search keeps to the depth and budget of the settings. -/
def nodeMetrics (settings : Settings) (id : NodeId) (maxDepth : Nat) (deadline : Deadline) :
    Session σ NodeMetrics := do
  let direct ← directDependencies id
  let (transitive, deadline) ← transitiveDependencies id maxDepth deadline
  let (cycles, _) ← findCycles id settings.graph.effectiveMaxDepth
    settings.graph.effectiveCycleStepBudget deadline
  let coupling := Metrics.coupling direct.length settings.metrics.effectiveCouplingNormalization
  return { direct := direct.length
           transitive := transitive.reached.length
           cycles := cycles.cycles.length
           coupling
           score := Metrics.score direct.length transitive.reached.length cycles.cycles.length
             coupling settings.metrics
           truncated := transitive.truncated || cycles.truncated }

/-- The metrics of a node that has to exist. -/
def dependencyReport (settings : Settings) (id : NodeId) (deadline : Deadline) :
    Session σ NodeMetrics := do
  let _ ← requireNode id
  nodeMetrics settings id settings.graph.effectiveMaxDepth deadline

/-- The share of the calls made by the declarations of a module that stay inside it; none if they make
no calls. -/
def cohesion (module : NodeId) : Session σ (Option Float) := do
  let contained ← Backend.neighbors module [.contains] .outgoing
  let members := ((contained.filter fun n => n.node.kind.isCode || n.node.kind = .testCase).map
    (·.node.id)).foldl (fun s id => s.insert id) (∅ : Std.ExtTreeSet NodeId)
  let calls ← members.toList.mapM fun member => Backend.neighbors member [.calls] .outgoing
  let targets := calls.flatten.map (·.node.id)
  if targets.isEmpty then return none
  return some (Metrics.ratio (targets.countP members.contains) targets.length 0.0)

/-- The cohesion of a module that has to exist. -/
def moduleCohesion (module : NodeId) : Session σ (Option Float) := do
  let _ ← requireNode module
  cohesion module

end Query

end CodeAtlas
