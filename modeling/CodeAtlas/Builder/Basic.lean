import CodeAtlas.Builder.Plan
import CodeAtlas.Graph.Schema

/-!
# The builder

Folds parsed units into the graph behind a backend. A call makes its plan, writes it in three steps
(edges deleted, nodes deleted, the rest inserted), and adopts the new bookkeeping only when all three
have succeeded. A call that fails leaves the bookkeeping as it was, so that the same call can be made
again.
-/

set_option autoImplicit false

namespace CodeAtlas

/-- A builder: its settings and what it remembers. -/
structure Builder where
  markers : List String
  policy : RetryPolicy := {}
  book : Bookkeeping := {}

namespace Builder

variable {σ : Type} [Backend σ]

/-! ## Writing -/

/-- Writes a plan. Every node is checked first; steps with nothing to do are left out. -/
def commit (policy : RetryPolicy) (plan : Plan) : Session σ Unit := do
  for node in plan.upsertNodes.values do
    ExceptT.mk (pure node.validate)
  unless plan.deleteEdges.isEmpty do
    policy.session (Backend.deleteEdges plan.deleteEdges.toList)
  unless plan.deleteNodes.isEmpty do
    policy.session (Backend.delete plan.deleteNodes.toList)
  unless plan.upsertNodes.isEmpty && plan.upsertEdges.isEmpty do
    policy.session (Backend.upsert plan.upsertNodes.values plan.upsertEdges.values)

/-- Plans and writes some changes. -/
def apply (b : Builder) (changes : List UnitChange) : Session σ (Delta × Builder) := do
  let draft ← b.book.draft b.policy b.markers changes
  commit b.policy draft.plan
  return (draft.plan.toDelta, { b with book := draft.book })

/-! ## Units -/

/-- The units to ingest, by path. Of several with one path the last counts, and a unit whose hash is
known is left out. -/
def changesOf (b : Builder) (parsed : List ParsedUnit) : List UnitChange :=
  let latest := parsed.foldl (fun m p => m.insert p.unit.path p)
    (∅ : Std.ExtTreeMap String ParsedUnit)
  (latest.values.filter fun p => b.book.units[p.unit.path]?.map (·.hash) != some p.unit.hash).map .put

/-- Folds units into the graph. If none has changed, the graph is not touched. -/
def ingest (b : Builder) (parsed : List ParsedUnit) : Session σ (Delta × Builder) :=
  match b.changesOf parsed with
  | [] => return ({}, b)
  | changes => b.apply changes

/-- Removes a unit and all it owned; a path that is not known changes nothing. -/
def removeUnit (b : Builder) (path : String) : Session σ (Delta × Builder) :=
  if b.book.units.contains path then b.apply [.remove path] else return ({}, b)

/-! ## Links -/

/-- Adds a requirement or incident and its edge to a code node, which must exist. -/
def link (b : Builder) (node : Node) (edge : Edge) (code : NodeId) :
    Session σ (Delta × Builder) := do
  let known ← if b.book.index.contains code then pure true
    else (·.isSome) <$> b.policy.session (Backend.getNode code)
  if !known then throw (.nodeNotFound code.text)
  b.policy.session (Backend.upsert [node] [edge])
  return ({ upsertedNodes := [node], upsertedEdges := [edge] },
    { b with book := { b.book with index := b.book.index.add node } })

/-- Says that a code node implements a requirement. -/
def linkRequirement (b : Builder) (key : String) (code : NodeId) : Session σ (Delta × Builder) :=
  let node : Node := { id := .requirement key, kind := .requirement, displayName := key }
  b.link node { source := node.id, target := code, kind := .implements } code

/-- Says that a code node triggers an incident. -/
def linkIncident (b : Builder) (key : String) (code : NodeId) : Session σ (Delta × Builder) :=
  let node : Node := { id := .incident key, kind := .incident, displayName := key }
  b.link node { source := code, target := node.id, kind := .triggersIncident } code

/-! ## Questions -/

/-- The names that still wait for a declaration. -/
def unresolved (b : Builder) : List Unresolved := b.book.pending.placeholders

/-- The content hash of every unit, by path. -/
def unitHashes (b : Builder) : Std.ExtTreeMap String ContentHash :=
  b.book.units.map fun _ unit => unit.hash

end Builder

end CodeAtlas
