import CodeAtlas.Settings.Basic
import CodeAtlas.Store.Backend

/-!
# One hop

Questions that a single call to the backend answers. A node that several edges lead to is listed
once, and lists are sorted by id.
-/

set_option autoImplicit false

namespace CodeAtlas

namespace NodeSummary

/-- The summaries with distinct ids, each as it came first, by id. -/
def distinctById (summaries : List NodeSummary) : List NodeSummary :=
  ((summaries.foldl (fun m s => m.insertIfNew s.id s) (∅ : Std.ExtTreeMap NodeId NodeSummary))).values

end NodeSummary

namespace Query

variable {σ : Type} [Backend σ]

/-- The nodes one edge of the given kinds away. -/
def hop (id : NodeId) (kinds : List EdgeKind) (direction : Direction) :
    Session σ (List NodeSummary) := do
  let neighbors ← Backend.neighbors id kinds direction
  return NodeSummary.distinctById (neighbors.map (·.node.summary))

/-- What a node depends on directly. -/
def directDependencies (id : NodeId) : Session σ (List NodeSummary) :=
  hop id EdgeKind.structural .outgoing

/-- What depends on a node directly. -/
def directDependents (id : NodeId) : Session σ (List NodeSummary) :=
  hop id EdgeKind.structural .incoming

/-- The nodes one edge of a kind away. -/
def related (id : NodeId) (kind : EdgeKind) (direction : Direction) : Session σ (List NodeSummary) :=
  hop id [kind] direction

/-- A node that has to exist. -/
def requireNode (id : NodeId) : Session σ Node := do
  match ← Backend.getNode id with
  | some node => return node
  | none => throw (.nodeNotFound id.text)

def nodesOfKind (kind : NodeKind) : Session σ (List Node) := Backend.findNodes (some kind) {}

/-- The nodes whose name or id holds a text, by id; the empty text asks for all. -/
def findByName (kind : Option NodeKind) (text : String) : Session σ (List NodeSummary) := do
  let filter : NodeFilter := if text.isEmpty then {} else { nameContains := some text }
  return (← Backend.findNodes kind filter).map (·.summary)

/-- The neighbours of a node in both directions, in listing order and without repetition. -/
def neighborhood (id : NodeId) (kind : Option EdgeKind) : Session σ (List NodeSummary) := do
  let neighbors ← Backend.neighbors id kind.toList .both
  return (neighbors.map (·.node.summary)).eraseDups

end Query

end CodeAtlas
