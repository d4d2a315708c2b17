import CodeAtlas.Builder.Fragment
import CodeAtlas.Builder.NameIndex
import CodeAtlas.Builder.PendingQueue
import CodeAtlas.Graph.Delta
import CodeAtlas.Retry

/-!
# Planning a change

A call on the builder does not touch the graph before it knows everything it will do. It works on a
draft: a copy of the bookkeeping together with the plan of what to write. The steps are always the
same.

1. Take back what the changed units owned.
2. Add the fragments of those that are still there.
3. Ask the graph what else hung on nodes that have vanished or changed their kind, and turn these
   edges back into references.
4. Resolve waiting references that the new nodes satisfy.
5. Resolve the new references, or let them wait.
6. Make the placeholder nodes follow the queue.

Only the third step looks at the graph. When an id is claimed by two units, the first keeps it, and
the other's edges at that node are left out.
-/

set_option autoImplicit false

namespace CodeAtlas

/-- What the builder remembers of one unit. -/
structure UnitState where
  hash : ContentHash := ⟨0⟩
  nodes : Std.ExtTreeSet NodeId := ∅
  /-- The edges that come from this unit, those to placeholders included. -/
  edges : Std.ExtTreeSet EdgeKey := ∅

/-- What the builder remembers of the graph. -/
structure Bookkeeping where
  units : Std.ExtTreeMap String UnitState := ∅
  index : NameIndex := {}
  pending : PendingQueue := {}
  /-- The unit that owns each node. -/
  nodeUnit : Std.ExtTreeMap NodeId String := ∅

namespace Bookkeeping

/-- Changes what is remembered of a unit, if it is known. -/
def modifyUnit (book : Bookkeeping) (path : String) (f : UnitState → UnitState) : Bookkeeping :=
  { book with units := book.units.modify path f }

/-- Remembers that an edge comes from a unit. -/
def addEdge (book : Bookkeeping) (path : String) (key : EdgeKey) : Bookkeeping :=
  book.modifyUnit path fun unit => { unit with edges := unit.edges.insert key }

/-- Forgets that an edge comes from a unit. -/
def eraseEdge (book : Bookkeeping) (path : String) (key : EdgeKey) : Bookkeeping :=
  book.modifyUnit path fun unit => { unit with edges := unit.edges.erase key }

end Bookkeeping

/-! ## Plans -/

/-- What is to be written. -/
structure Plan where
  upsertNodes : Std.ExtTreeMap NodeId Node := ∅
  upsertEdges : Std.ExtTreeMap EdgeKey Edge := ∅
  deleteNodes : Std.ExtTreeSet NodeId := ∅
  deleteEdges : Std.ExtTreeSet EdgeKey := ∅

namespace Plan

def putNode (plan : Plan) (node : Node) : Plan :=
  { plan with upsertNodes := plan.upsertNodes.insert node.id node }

/-- Plans an edge; the first plan for a key stays. -/
def putEdge (plan : Plan) (edge : Edge) : Plan :=
  { plan with
    deleteEdges := plan.deleteEdges.erase edge.key
    upsertEdges := plan.upsertEdges.insertIfNew edge.key edge }

def dropEdge (plan : Plan) (key : EdgeKey) : Plan :=
  { plan with
    upsertEdges := plan.upsertEdges.erase key
    deleteEdges := plan.deleteEdges.insert key }

def deleteNode (plan : Plan) (id : NodeId) : Plan :=
  { plan with deleteNodes := plan.deleteNodes.insert id }

/-- The change that carrying out the plan makes. An edge that goes with one of its nodes is not
listed, nor is a node that is deleted only to be inserted anew. -/
def toDelta (plan : Plan) : Delta where
  upsertedNodes := plan.upsertNodes.values
  upsertedEdges := plan.upsertEdges.values
  removedIds := plan.deleteNodes.toList.filter fun id => !plan.upsertNodes.contains id
  removedEdges := plan.deleteEdges.toList.filter fun key =>
    !plan.deleteNodes.contains key.source && !plan.deleteNodes.contains key.target

end Plan

/-- One change to the set of units. -/
inductive UnitChange where
  | put (parsed : ParsedUnit)
  | remove (path : String)

namespace UnitChange

def path : UnitChange → String
  | put parsed => parsed.unit.path
  | remove path => path

end UnitChange

/-! ## Drafts -/

/-- A plan in the making. -/
structure Draft where
  book : Bookkeeping
  plan : Plan := {}
  /-- Nodes taken back and not added again, with their kinds. -/
  retracted : Std.ExtTreeMap NodeId NodeKind := ∅
  /-- Nodes added again with another kind. -/
  rekinded : List NodeId := []
  /-- References to resolve. -/
  refs : List Reference := []

namespace Draft

/-! ### Taking back -/

def retractEdge (d : Draft) (key : EdgeKey) : Draft := { d with plan := d.plan.dropEdge key }

def retractNode (d : Draft) (id : NodeId) : Draft :=
  { d with
    retracted := (d.book.index.kind? id).elim d.retracted (d.retracted.insert id ·)
    book := { d.book with
      index := d.book.index.remove id
      nodeUnit := d.book.nodeUnit.erase id } }

/-- Takes back what a unit owned. -/
def retractUnit (d : Draft) (path : String) : Draft :=
  let d := match d.book.units[path]? with
    | none => d
    | some old =>
      let d := { d with book := { d.book with units := d.book.units.erase path } }
      old.nodes.toList.foldl retractNode (old.edges.toList.foldl retractEdge d)
  { d with book := { d.book with pending := d.book.pending.dropUnit path } }

/-! ### Adding fragments -/

/-- A node of a fragment, with what is remembered of its unit. A node that another unit owns is left
out. -/
def addNode (path : String) : Draft × UnitState → Node → Draft × UnitState
  | (d, unit), node =>
    if d.book.nodeUnit.contains node.id then (d, unit)
    else
      let rekinded := match d.retracted[node.id]? with
        | some old => if old = node.kind then d.rekinded else d.rekinded ++ [node.id]
        | none => d.rekinded
      ({ d with
         rekinded
         retracted := d.retracted.erase node.id
         book := { d.book with
           index := d.book.index.add node
           nodeUnit := d.book.nodeUnit.insert node.id path }
         plan := d.plan.putNode node },
       { unit with nodes := unit.nodes.insert node.id })

/-- A node that belongs to no unit; one that is known stays as it is. -/
def addShared (d : Draft) (node : Node) : Draft :=
  if d.book.index.contains node.id then d
  else { d with
    book := { d.book with index := d.book.index.add node }
    plan := d.plan.putNode node }

/-- An edge of a fragment. Edges at nodes that another unit owns are left out. -/
def addEdge : Draft × UnitState → Edge → Draft × UnitState
  | (d, unit), edge =>
    let own := fun id => unit.nodes.contains id || !d.book.nodeUnit.contains id
    if own edge.source && own edge.target then
      ({ d with plan := d.plan.putEdge edge }, { unit with edges := unit.edges.insert edge.key })
    else (d, unit)

/-- Adds the fragment of a unit. -/
def addUnit (markers : List String) (d : Draft) (parsed : ParsedUnit) : Draft :=
  let path := parsed.unit.path
  let fragment := Fragment.build markers parsed
  let (d, unit) := fragment.nodes.foldl (addNode path) (d, { hash := parsed.unit.hash })
  let d := fragment.shared.foldl addShared d
  let (d, unit) := fragment.edges.foldl addEdge (d, unit)
  { d with
    refs := d.refs ++ fragment.refs.filter (unit.nodes.contains ·.owner)
    book := { d.book with units := d.book.units.insert path unit } }

def addChange (markers : List String) (d : Draft) : UnitChange → Draft
  | .put parsed => d.addUnit markers parsed
  | .remove _ => d

/-! ### Vanished nodes -/

/-- Turns an edge at a vanished node back into a reference, if it belongs to a unit that does not
change. -/
def reopenEdge (changed : Std.ExtTreeSet String) (gone : NodeId) (d : Draft) (hop : Neighbor) :
    Draft :=
  match hop.edge.unit? with
  | none => d
  | some unit =>
    if changed.contains unit then d
    else
      match Reference.ofEdge? hop.edge gone (some hop.node.kind) gone.text d.book.index.moduleOf? with
      | none => d
      | some r => { d with refs := d.refs ++ [r], book := d.book.eraseEdge unit hop.edge.key }

/-- Deletes a vanished node and takes care of what hung on it. -/
def vanish {σ : Type} [Backend σ] (policy : RetryPolicy) (changed : Std.ExtTreeSet String)
    (d : Draft) (gone : NodeId) : Session σ Draft := do
  let hops ← policy.session (Backend.neighbors gone [] .both)
  let d := { d with plan := d.plan.deleteNode gone }
  return hops.foldl (reopenEdge changed gone) d

/-! ### References -/

/-- A waiting reference whose target is known now. -/
def settle (d : Draft) (r : Reference) : Draft :=
  match d.book.index.resolve? r with
  | none => d
  | some (target, kind) =>
    let old := r.placeholderEdge.key
    let edge := r.edgeTo target kind
    let book := { d.book with pending := d.book.pending.erase r }
    { d with
      book := (book.eraseEdge r.unit old).addEdge r.unit edge.key
      plan := (d.plan.dropEdge old).putEdge edge }

/-- A new reference: an edge to its target, or to a placeholder where it waits. -/
def place (d : Draft) (r : Reference) : Draft :=
  let (edge, pending) := match d.book.index.resolve? r with
    | some (target, kind) => (r.edgeTo target kind, d.book.pending)
    | none => (r.placeholderEdge, d.book.pending.insert r)
  { d with
    book := { d.book with pending }.addEdge r.unit edge.key
    plan := d.plan.putEdge edge }

/-! ### Placeholders -/

/-- Adds the nodes of new placeholders and deletes those that nothing waits for any more. -/
def followQueue (before : List NodeId) (d : Draft) : Draft :=
  let after := d.book.pending.placeholders
  let plan := (after.filter fun p => !before.contains p.placeholder).foldl
    (fun plan p => plan.putNode (.placeholder p.awaited)) d.plan
  let gone := before.filter fun id => !after.any (·.placeholder = id)
  let plan := gone.foldl
    (fun plan id => { plan.deleteNode id with upsertNodes := plan.upsertNodes.erase id }) plan
  { d with plan }

end Draft

/-! ## The whole -/

/-- The bookkeeping after some changes and the plan that brings the graph there. -/
def Bookkeeping.draft {σ : Type} [Backend σ] (book : Bookkeeping) (policy : RetryPolicy)
    (markers : List String) (changes : List UnitChange) : Session σ Draft := do
  let before := book.pending.placeholderIds
  let changed := Std.ExtTreeSet.ofList (changes.map (·.path))
  let d := changed.toList.foldl Draft.retractUnit { book }
  let d := changes.foldl (Draft.addChange markers) d
  let d ← (d.retracted.keys ++ d.rekinded).foldlM (Draft.vanish policy changed) d
  let d := d.book.pending.toList.foldl Draft.settle d
  let d := d.refs.foldl Draft.place d
  return d.followQueue before

end CodeAtlas
