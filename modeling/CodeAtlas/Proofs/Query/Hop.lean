import CodeAtlas.Proofs.Query.Expansion

/-!
# One hop

What one call to a store tells: the nodes one edge away, each once and by id. In a graph these are the
nodes that an edge leads to (`mem_adjacent_iff`), whatever the list of neighbours repeats, and a hop over
any store that answers as the graph does gives them (`Query.hop_run`). What the reports ask is asked in
hops, or else it is all the nodes of a kind, so that nothing after this looks into a list of neighbours again.

An edge that is followed backwards leads back (`leads_incoming_iff`). That is all that relates what a node
depends on to what depends on it, and it carries over to walks and distances of any length.
-/

set_option autoImplicit false

namespace CodeAtlas

open Std

/-! ## Each node once -/

namespace NodeSummary

variable {summaries : List NodeSummary}

/-- The summaries stand in strict order of their ids. -/
theorem strict_distinctById (summaries : List NodeSummary) :
    (distinctById summaries).Pairwise fun a b => compare a.id b.id = .lt := by
  rw [← List.pairwise_map (f := NodeSummary.id) (R := fun a b => compare a b = .lt), distinctById,
    Maps.map_values_foldl_insertIfNew]
  exact ExtTreeMap.ordered_keys

/-- Where an id has one summary only, none gets lost. -/
theorem mem_distinctById (agree : ∀ a ∈ summaries, ∀ b ∈ summaries, a.id = b.id → a = b)
    {s : NodeSummary} : s ∈ distinctById summaries ↔ s ∈ summaries :=
  Maps.mem_values_foldl_insertIfNew NodeSummary.id agree

end NodeSummary

/-! ## One edge away -/

namespace PropertyGraph

variable {g : PropertyGraph} {kinds : List EdgeKind} {direction : Direction} {a b id : NodeId}

/-- Whether a graph is what some calls on an empty one lead to. -/
def Made (g : PropertyGraph) : Prop := ∃ ops, g = Operation.after {} ops

theorem Made.keyed (h : g.Made) : g.Keyed := by
  obtain ⟨ops, rfl⟩ := h
  exact keyed_after ops

theorem Made.closed (h : g.Made) : g.Closed := by
  obtain ⟨ops, rfl⟩ := h
  exact closed_after ops

/-- What queries return of the node with an id. -/
def summary? (g : PropertyGraph) (id : NodeId) : Option NodeSummary := (g.get? id).map Node.summary

/-- A graph has one node under an id. -/
theorem eq_of_summary? {s t : NodeSummary} (hs : g.summary? s.id = some s)
    (ht : g.summary? t.id = some t) (h : s.id = t.id) : s = t := by
  rw [h, ht] at hs
  exact (Option.some.inj hs).symm

/-- The nodes one edge away, by id. -/
def adjacent (g : PropertyGraph) (id : NodeId) (kinds : List EdgeKind) (direction : Direction) :
    List NodeSummary :=
  NodeSummary.distinctById ((g.neighbors id kinds direction).map (·.node.summary))

theorem summary?_of_hop (keyed : g.Keyed) {hop : Neighbor} (h : hop ∈ g.neighbors id kinds direction) :
    g.summary? hop.node.id = some hop.node.summary := by
  have hnode : ∃ k : NodeId, g.nodes[k]? = some hop.node := by
    obtain ⟨-, -, ⟨-, -, hn, -⟩ | ⟨-, -, hn, -⟩⟩ := mem_neighbors_iff.mp h
    · exact ⟨_, hn⟩
    · exact ⟨_, hn⟩
  obtain ⟨k, hk⟩ := hnode
  have hid := keyed.nodes k hop.node hk
  subst hid
  exact congrArg (Option.map Node.summary) hk

/-- The nodes that an edge leads to, as they stand in the graph. -/
theorem mem_adjacent_iff (keyed : g.Keyed) (closed : g.Closed) {s : NodeSummary} :
    s ∈ g.adjacent id kinds direction ↔
      g.Leads kinds direction id s.id ∧ g.summary? s.id = some s := by
  have hshown : ∀ t ∈ (g.neighbors id kinds direction).map (·.node.summary),
      g.summary? t.id = some t := by
    intro t ht
    obtain ⟨hop, hm, rfl⟩ := List.mem_map.mp ht
    exact summary?_of_hop keyed hm
  rw [adjacent, NodeSummary.mem_distinctById]
  · rw [leads_iff keyed closed]
    constructor
    · intro h
      obtain ⟨hop, hm, rfl⟩ := List.mem_map.mp h
      exact ⟨⟨hop, hm, rfl⟩, summary?_of_hop keyed hm⟩
    · intro h
      obtain ⟨⟨hop, hm, hid⟩, hs⟩ := h
      rw [← hid, summary?_of_hop keyed hm] at hs
      exact List.mem_map.mpr ⟨hop, hm, Option.some.inj hs⟩
  · intro s hs t ht hid
    exact eq_of_summary? (hshown s hs) (hshown t ht) hid

theorem strict_adjacent (g : PropertyGraph) (id : NodeId) (kinds : List EdgeKind)
    (direction : Direction) :
    (g.adjacent id kinds direction).Pairwise fun a b => compare a.id b.id = .lt :=
  NodeSummary.strict_distinctById _

/-- An edge leads from one of its ends to another that is there. -/
theorem Closed.summary?_of_leads (closed : g.Closed) (keyed : g.Keyed)
    (h : g.Leads kinds direction a b) : ∃ s, g.summary? b = some s ∧ s.id = b := by
  obtain ⟨hop, hm, rfl⟩ := (leads_iff keyed closed).mp h
  exact ⟨hop.node.summary, summary?_of_hop keyed hm, rfl⟩

theorem mem_map_adjacent_iff (keyed : g.Keyed) (closed : g.Closed) :
    b ∈ (g.adjacent a kinds direction).map (·.id) ↔ g.Leads kinds direction a b := by
  rw [List.mem_map]
  constructor
  · intro h
    obtain ⟨s, hs, hid⟩ := h
    exact hid ▸ ((mem_adjacent_iff keyed closed).mp hs).1
  · intro h
    obtain ⟨s, hs, hid⟩ := closed.summary?_of_leads keyed h
    exact ⟨s, (mem_adjacent_iff keyed closed).mpr ⟨hid.symm ▸ h, hid.symm ▸ hs⟩, hid⟩

theorem nodup_map_adjacent (g : PropertyGraph) (id : NodeId) (kinds : List EdgeKind)
    (direction : Direction) : ((g.adjacent id kinds direction).map (·.id)).Nodup := by
  refine List.pairwise_map.mpr ((g.strict_adjacent id kinds direction).imp fun {s t} h he => ?_)
  have hself : compare t.id t.id = .eq := ReflCmp.compare_self
  rw [he, hself] at h
  cases h

/-! ## All nodes of a kind -/

/-- Nodes are found in strict order of their ids. -/
theorem strict_find (keyed : g.Keyed) (kind : Option NodeKind) (filter : NodeFilter) :
    ((g.find kind filter).map (·.id)).Pairwise fun a b => compare a b = .lt :=
  List.pairwise_map.mpr ((Maps.pairwise_values keyed.nodes).sublist List.filter_sublist)

/-- Without a condition the kind alone decides. -/
theorem find_unfiltered (g : PropertyGraph) (kind : Option NodeKind) :
    g.find kind {} = g.nodes.values.filter fun node => kind.all (· = node.kind) := by
  have haccepts : ∀ node, ({} : NodeFilter).accepts node = true := fun _ => rfl
  simp only [find, haccepts, Bool.and_true]

/-- The nodes of a kind are those that the graph has. -/
theorem mem_map_find_iff (keyed : g.Keyed) {kind : NodeKind} :
    id ∈ (g.find (some kind) {}).map (·.id) ↔ ∃ node, g.get? id = some node ∧ node.kind = kind := by
  have hfind : ∀ node, node ∈ g.find (some kind) {} ↔
      (∃ k : NodeId, g.nodes[k]? = some node) ∧ kind = node.kind := by
    intro node
    simp [find_unfiltered, Maps.mem_values]
  rw [List.mem_map]
  constructor
  · intro h
    obtain ⟨node, hmem, rfl⟩ := h
    obtain ⟨⟨k, hk⟩, hkind⟩ := (hfind node).mp hmem
    refine ⟨node, ?_, hkind.symm⟩
    rw [keyed.nodes k node hk]
    exact hk
  · intro h
    obtain ⟨node, hnode, hkind⟩ := h
    exact ⟨node, (hfind node).mpr ⟨⟨id, hnode⟩, hkind.symm⟩, keyed.nodes id node hnode⟩

/-! ## There and back -/

theorem leads_incoming_iff : g.Leads kinds .incoming a b ↔ g.Leads kinds .outgoing b a := by
  simp only [Leads, Direction.followsOut, Direction.followsIn, Bool.false_eq_true, false_and, true_and,
    false_or, or_false]
  refine exists_congr fun edge => and_congr_right fun _ => and_congr_right fun _ => ?_
  exact and_comm

/-- A walk can begin with its first edge as well as end with its last. -/
theorem Walk.cons {n : Nat} {start : NodeId} (leads : g.Leads kinds direction start a)
    (walk : g.Walk kinds direction a n b) : g.Walk kinds direction start (n + 1) b := by
  induction walk with
  | here => exact .step .here leads
  | step _ hlast ih => exact .step ih hlast

theorem walk_incoming_iff {n : Nat} :
    g.Walk kinds .incoming a n b ↔ g.Walk kinds .outgoing b n a := by
  constructor
  · intro walk
    induction walk with
    | here => exact .here
    | step _ leads ih => exact ih.cons (leads_incoming_iff.mp leads)
  · intro walk
    induction walk with
    | here => exact .here
    | step _ leads ih => exact ih.cons (leads_incoming_iff.mpr leads)

/-- What is that far away against the direction of the edges is that far away along them. -/
theorem distance_incoming_iff {n : Nat} :
    g.Distance kinds .incoming a b n ↔ g.Distance kinds .outgoing b a n := by
  constructor
  · intro h
    exact ⟨walk_incoming_iff.mp h.walk, fun m walk => h.least m (walk_incoming_iff.mpr walk)⟩
  · intro h
    exact ⟨walk_incoming_iff.mpr h.walk, fun m walk => h.least m (walk_incoming_iff.mp walk)⟩

end PropertyGraph

/-! ## Over a store -/

section Store

variable {σ : Type} [Backend σ] {s : σ} {g : PropertyGraph}

/-- A store that answers every question about nodes and neighbours as a graph does. -/
structure ReadsAs (s : σ) (g : PropertyGraph) : Prop where
  neighbors : TellsNeighbors s g
  getNode : ∀ id, Backend.getNode id s = (.ok (g.get? id), s)
  findNodes : ∀ kind filter, Backend.findNodes kind filter s = (.ok (g.find kind filter), s)

theorem readsAs_graph (g : PropertyGraph) : ReadsAs g g :=
  ⟨tellsNeighbors_graph g, fun _ => rfl, fun _ _ => rfl⟩

theorem Tables.Stores.readsAs {t : Tables} (h : t.Stores g) : ReadsAs t g :=
  ⟨h.tellsNeighbors, fun id => Prod.ext (h.shows.get id) rfl,
    fun kind filter => Prod.ext (h.shows.find kind filter) rfl⟩

namespace Query

theorem hop_run (tells : TellsNeighbors s g) (id : NodeId) (kinds : List EdgeKind)
    (direction : Direction) : hop id kinds direction s = (.ok (g.adjacent id kinds direction), s) := by
  unfold hop
  rw [Session.bind_ok (tells id kinds direction)]
  rfl

theorem related_run (tells : TellsNeighbors s g) (id : NodeId) (kind : EdgeKind)
    (direction : Direction) :
    related id kind direction s = (.ok (g.adjacent id [kind] direction), s) :=
  hop_run tells id [kind] direction

theorem directDependencies_run (tells : TellsNeighbors s g) (id : NodeId) :
    directDependencies id s = (.ok (g.adjacent id EdgeKind.structural .outgoing), s) :=
  hop_run tells id EdgeKind.structural .outgoing

theorem requireNode_run (reads : ReadsAs s g) {id : NodeId} {node : Node}
    (h : g.get? id = some node) : requireNode id s = (.ok node, s) := by
  have hget := reads.getNode id
  rw [h] at hget
  unfold requireNode
  rw [Session.bind_ok hget]
  rfl

theorem nodesOfKind_run (reads : ReadsAs s g) (kind : NodeKind) :
    nodesOfKind kind s = (.ok (g.find (some kind) {}), s) :=
  reads.findNodes (some kind) {}

end Query

end Store

end CodeAtlas
