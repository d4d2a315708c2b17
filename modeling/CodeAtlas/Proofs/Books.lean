import CodeAtlas.Proofs.History
import Mathlib.Data.Set.Function

/-!
# Books and graph side by side

`Mirrors` is what calls keep. Here it is read by someone who holds a builder in one hand and its graph
in the other and compares the two.

Placeholders first. The nodes that stand for names are those that something waits for, and the edges
at them are the waiting references, one edge each (`placeholders_follow_queue`). An edge reaches a
placeholder at one end only: its other end belongs to a unit, and units claim no such ids.

Then ownership (`books_match_graph`). Two units may claim the same id. The node then carries the path
of the unit that came first, and so do the books, so that each node and each edge is on the list of
exactly the unit it names.
-/

set_option autoImplicit false

namespace CodeAtlas

open Std

namespace PropertyGraph

/-- Whether an id is that of a node which stands for a name. -/
def IsUnknown (g : PropertyGraph) (id : NodeId) : Prop :=
  ∃ node, g.get? id = some node ∧ node.kind = .unknown

/-- The keys of the edges at such nodes. -/
def openKeys (g : PropertyGraph) : Set EdgeKey :=
  {k | ∃ edge ∈ g.allEdges, edge.key = k ∧ (g.IsUnknown edge.source ∨ g.IsUnknown edge.target)}

end PropertyGraph

namespace Bookkeeping

variable {book : Bookkeeping} {path : String} {unit : UnitState}

theorem mem_nodes_iff_owns (h : book.units[path]? = some unit) (id : NodeId) :
    id ∈ unit.nodes ↔ book.Owns path id := by
  simp [Owns, h]

theorem mem_edges_iff_holds (h : book.units[path]? = some unit) (k : EdgeKey) :
    k ∈ unit.edges ↔ book.Holds path k := by
  simp [Holds, h]

theorem contains_of_owns {id : NodeId} (h : book.Owns path id) :
    book.units.contains path = true := by
  obtain ⟨unit, hunit, -⟩ := h
  exact (Maps.contains_iff _ _).mpr ⟨unit, hunit⟩

theorem contains_of_holds {k : EdgeKey} (h : book.Holds path k) :
    book.units.contains path = true := by
  obtain ⟨unit, hunit, -⟩ := h
  exact (Maps.contains_iff _ _).mpr ⟨unit, hunit⟩

end Bookkeeping

namespace Bookkeeping.Mirrors

variable {book : Bookkeeping} {g : PropertyGraph}

theorem mem_allEdges (m : book.Mirrors g) {edge : Edge} :
    edge ∈ g.allEdges ↔ g.edges[edge.key]? = some edge := by
  rw [PropertyGraph.allEdges, Maps.mem_values]
  constructor
  · rintro ⟨k, h⟩
    rw [m.edge_key k edge h]
    exact h
  · intro h
    exact ⟨_, h⟩

/-! ## Placeholders -/

theorem isUnknown_iff (m : book.Mirrors g) (id : NodeId) :
    g.IsUnknown id ↔ id ∈ book.pending.placeholderIds := by
  rw [PendingQueue.mem_placeholderIds]
  exact m.placeholders id

theorem mapsTo_placeholderKey (m : book.Mirrors g) :
    Set.MapsTo (fun r : Reference => r.placeholderEdge.key) {r | r ∈ book.pending.toList}
      g.openKeys := by
  intro r hr
  have hw := (PendingQueue.mem_toList m.keyed).mp hr
  have hunknown : g.IsUnknown r.placeholderId := (m.placeholders _).mpr ⟨_, r, hw, rfl⟩
  refine ⟨r.placeholderEdge, m.mem_allEdges.mpr (m.waiting _ r hw).2.1, rfl, ?_⟩
  rcases (m.refEdge_waiting hw).target_mem with he | he
  · exact .inl (he ▸ hunknown)
  · exact .inr (he ▸ hunknown)

theorem injOn_placeholderKey (m : book.Mirrors g) :
    Set.InjOn (fun r : Reference => r.placeholderEdge.key) {r | r ∈ book.pending.toList} := by
  intro r hr s hs he
  have hrw := (PendingQueue.mem_toList m.keyed).mp hr
  have hsw := (PendingQueue.mem_toList m.keyed).mp hs
  have howner : ∀ {r : Reference}, book.pending.waiting[PendingQueue.keyOf r]? = some r →
      r.owner.isPlaceholder = false := fun hw =>
    (m.waiting _ _ hw).1.isPlaceholder_owner m.unreserved
  rw [Reference.keyOf_eq_of_placeholderKey (howner hrw) (howner hsw) he, hsw] at hrw
  exact (Option.some.inj hrw).symm

theorem surjOn_placeholderKey (m : book.Mirrors g) :
    Set.SurjOn (fun r : Reference => r.placeholderEdge.key) {r | r ∈ book.pending.toList}
      g.openKeys := by
  rintro k ⟨edge, he, rfl, hends⟩
  have hplaceholder : ∀ {id : NodeId}, g.IsUnknown id → id.isPlaceholder = true := fun h =>
    Planned.isPlaceholder_of_awaits m.keyed ((m.placeholders _).mp h)
  have hopen : edge.key.isOpen = true := by
    rcases hends with h | h
    · exact Bool.or_eq_true_iff.mpr (.inl (hplaceholder h))
    · exact Bool.or_eq_true_iff.mpr (.inr (hplaceholder h))
  obtain ⟨r, rfl, hw⟩ := m.waiting_of_open (m.mem_allEdges.mp he) hopen
  exact ⟨r, (PendingQueue.mem_toList m.keyed).mpr hw, rfl⟩

/-! ## Ownership -/

theorem owns_iff (m : book.Mirrors g) (path : String) (id : NodeId) :
    book.Owns path id ↔ ∃ node, g.get? id = some node ∧ node.unit? = some path := by
  rw [m.owns, m.nodeUnit, Option.bind_eq_some_iff]
  rfl

theorem holds_iff (m : book.Mirrors g) (path : String) (k : EdgeKey) :
    book.Holds path k ↔ ∃ edge ∈ g.allEdges, edge.key = k ∧ edge.unit? = some path := by
  rw [m.holds]
  constructor
  · rintro ⟨edge, he, hu⟩
    have hkey := m.edge_key k edge he
    exact ⟨edge, m.mem_allEdges.mpr (hkey ▸ he), hkey, hu⟩
  · rintro ⟨edge, he, rfl, hu⟩
    exact ⟨edge, m.mem_allEdges.mp he, hu⟩

theorem index_contains_iff (m : book.Mirrors g) (id : NodeId) :
    book.index.contains id = true ↔ ∃ node, g.get? id = some node ∧ node.kind ≠ .unknown := by
  constructor
  · intro h
    obtain ⟨entry, he⟩ := (Maps.contains_iff _ _).mp h
    obtain ⟨node, hn, hk, -⟩ := m.node_of_entry he
    exact ⟨node, hn, hk⟩
  · rintro ⟨node, hn, hk⟩
    exact (Maps.contains_iff _ _).mpr ⟨_, m.entry_of_node hn hk⟩

end Bookkeeping.Mirrors

namespace Builder

variable {markers : List String} {policy : RetryPolicy} {units : ParsedUnit → Prop} {b : Builder}
  {g : PropertyGraph}

/-- **Placeholders follow the queue.** The nodes that stand for names are the placeholders of the
queue, and each waiting reference has one edge at such a node, its own. -/
theorem placeholders_follow_queue (hu : Unreserved markers units)
    (h : Reached markers policy units b g) :
    (∀ id, g.IsUnknown id ↔ id ∈ b.book.pending.placeholderIds) ∧
      Set.BijOn (fun r : Reference => r.placeholderEdge.key) {r | r ∈ b.book.pending.toList}
        g.openKeys := by
  have m := h.mirrors hu
  exact ⟨m.isUnknown_iff, m.mapsTo_placeholderKey, m.injOn_placeholderKey, m.surjOn_placeholderKey⟩

/-- One name is resolved, and two units wait for the other, each in its own spelling. -/
def sampleCrowd : List ParsedUnit :=
  [sampleUnit "u.bsl" "f" 1 ["g", "h"], sampleUnit "v.bsl" "h" 2 ["G"]]

theorem placeholders_follow_queue_sample :
    (firstCall [] sampleCrowd).1.unresolved = [⟨⟨"unknown::g"⟩, "g", 2⟩] ∧
    (∀ id, (firstCall [] sampleCrowd).2.IsUnknown id ↔
      id ∈ (firstCall [] sampleCrowd).1.book.pending.placeholderIds) ∧
    Set.BijOn (fun r : Reference => r.placeholderEdge.key)
      {r | r ∈ (firstCall [] sampleCrowd).1.book.pending.toList}
      (firstCall [] sampleCrowd).2.openKeys := by
  have unreserved : Unreserved [] (· ∈ sampleCrowd) := by
    unfold Unreserved
    decide +kernel
  exact ⟨by decide +kernel,
    placeholders_follow_queue unreserved (reached_firstCall (by decide +kernel) fun _ hp => hp)⟩

/-- **The books match the graph.** What is remembered of a unit is what names the unit in the graph;
nothing names a unit that is not known; each node is owned by the unit that remembers it; and the
index knows the nodes that do not just stand for names. -/
theorem books_match_graph (hu : Unreserved markers units) (h : Reached markers policy units b g) :
    (∀ path unit, b.book.units[path]? = some unit →
      (∀ id, id ∈ unit.nodes ↔ ∃ node, g.get? id = some node ∧ node.unit? = some path) ∧
      (∀ k, k ∈ unit.edges ↔ ∃ edge ∈ g.allEdges, edge.key = k ∧ edge.unit? = some path)) ∧
    (∀ id node path, g.get? id = some node → node.unit? = some path →
      b.book.units.contains path = true) ∧
    (∀ edge ∈ g.allEdges, ∀ path, edge.unit? = some path → b.book.units.contains path = true) ∧
    (∀ (id : NodeId) (path : String), b.book.nodeUnit[id]? = some path ↔
      ∃ unit, b.book.units[path]? = some unit ∧ id ∈ unit.nodes) ∧
    (∀ id, b.book.index.contains id = true ↔
      ∃ node, g.get? id = some node ∧ node.kind ≠ .unknown) := by
  have m := h.mirrors hu
  refine ⟨fun path unit hunit => ⟨fun id => ?_, fun k => ?_⟩, fun id node path hn hp => ?_,
    fun edge he path hp => ?_, fun id path => (m.owns path id).symm, m.index_contains_iff⟩
  · rw [Bookkeeping.mem_nodes_iff_owns hunit, m.owns_iff]
  · rw [Bookkeeping.mem_edges_iff_holds hunit, m.holds_iff]
  · exact Bookkeeping.contains_of_owns ((m.owns_iff path id).mpr ⟨node, hn, hp⟩)
  · exact Bookkeeping.contains_of_holds ((m.holds_iff path edge.key).mpr ⟨edge, he, rfl, hp⟩)

/-- Two units whose modules claim one id. -/
def sampleRivals : List ParsedUnit :=
  [sampleUnit "a/b.bsl" "f" 1 [], sampleUnit "a.b.bsl" "h" 2 ["f"]]

theorem books_match_graph_sample :
    (firstCall [] sampleRivals).1.book.nodeUnit[(⟨"a.b"⟩ : NodeId)]? = some "a.b.bsl" ∧
    (∀ path unit, (firstCall [] sampleRivals).1.book.units[path]? = some unit →
      (∀ id, id ∈ unit.nodes ↔ ∃ node, (firstCall [] sampleRivals).2.get? id = some node ∧
        node.unit? = some path) ∧
      (∀ k, k ∈ unit.edges ↔ ∃ edge ∈ (firstCall [] sampleRivals).2.allEdges, edge.key = k ∧
        edge.unit? = some path)) := by
  have unreserved : Unreserved [] (· ∈ sampleRivals) := by
    unfold Unreserved
    decide +kernel
  exact ⟨by decide +kernel,
    (books_match_graph unreserved (reached_firstCall (by decide +kernel) fun _ hp => hp)).1⟩

end Builder

end CodeAtlas
