import CodeAtlas.Graph.PropertyGraph
import CodeAtlas.Proofs.Collections
import Mathlib.Data.List.Nodup

/-!
# Neighbours of a node

The neighbours of a node are the other ends of its edges (`mem_neighbors_iff`), listed by kind, id and
direction. In a graph whose nodes and edges stand under their own ids and keys these three tell the
hops from one node apart. So no two hops are listed alike (`neighbors_strict`), and taking edges away
takes their hops out of the list and leaves the others in order (`neighbors_deleteEdges`).
-/

set_option autoImplicit false

namespace CodeAtlas

open Std

namespace Neighbor

instance : TransCmp compareListed :=
  inferInstanceAs (TransCmp (compareLex (compareOn fun hop : Neighbor => hop.edge.kind)
    (compareLex (compareOn fun hop : Neighbor => hop.node.id)
      (compareOn fun hop : Neighbor => hop.heading.rank))))

theorem eq_of_compareListed {a b : Neighbor} (h : compareListed a b = .eq) :
    a.edge.kind = b.edge.kind ∧ a.node.id = b.node.id ∧ a.heading = b.heading := by
  simp only [compareListed, compareLex, compareOn, Ordering.then_eq_eq,
    LawfulEqOrd.compare_eq_iff_eq] at h
  obtain ⟨hk, hid, hr⟩ := h
  refine ⟨hk, hid, ?_⟩
  cases ha : a.heading <;> cases hb : b.heading <;> simp [ha, hb, Heading.rank] at hr ⊢

theorem pairwise_sort (hops : List Neighbor) :
    (sort hops).Pairwise fun a b => (compareListed a b).isLE = true :=
  Maps.pairwise_mergeSort compareListed hops

/-- Hops in any order are listed alike where the order tells them apart. -/
theorem sort_congr {a b : List Neighbor} (perm : a.Perm b)
    (apart : ∀ x ∈ b, ∀ y ∈ b, compareListed x y = .eq → x = y) : sort a = sort b := by
  have hperm : (sort a).Perm (sort b) :=
    (List.mergeSort_perm a _).trans (perm.trans (List.mergeSort_perm b _).symm)
  refine hperm.eq_of_pairwise (fun x y hx hy hxy hyx => ?_) (pairwise_sort a) (pairwise_sort b)
  refine apart x ?_ y (List.mem_mergeSort.mp hy) (OrientedCmp.isLE_antisymm hxy hyx)
  exact perm.mem_iff.mp (List.mem_mergeSort.mp hx)

/-- Sorting and leaving hops out commute where the order tells hops apart. -/
theorem sort_filter {hops : List Neighbor} (keep : Neighbor → Bool)
    (apart : ∀ a ∈ hops, ∀ b ∈ hops, compareListed a b = .eq → a = b) :
    sort (hops.filter keep) = (sort hops).filter keep := by
  have hsorted : sort ((sort hops).filter keep) = (sort hops).filter keep :=
    List.mergeSort_of_pairwise ((pairwise_sort hops).filter keep)
  have hmem : ∀ hop ∈ (sort hops).filter keep, hop ∈ hops := fun hop h =>
    List.mem_mergeSort.mp (List.mem_filter.mp h).1
  rw [← hsorted]
  refine sort_congr ((List.mergeSort_perm hops _).filter keep).symm fun a ha b hb => ?_
  exact apart a (hmem a ha) b (hmem b hb)

end Neighbor

namespace PropertyGraph

/-- The neighbours of a node are the other ends of its edges, as far as these are asked for. -/
theorem mem_neighbors_iff {g : PropertyGraph} {id : NodeId} {kinds : List EdgeKind}
    {direction : Direction} {hop : Neighbor} :
    hop ∈ g.neighbors id kinds direction ↔
      (∃ k : EdgeKey, g.edges[k]? = some hop.edge) ∧ wants kinds hop.edge.kind = true ∧
      ((direction.followsOut = true ∧ hop.edge.source = id ∧
          g.nodes[hop.edge.target]? = some hop.node ∧ hop.heading = .outgoing) ∨
        (direction.followsIn = true ∧ hop.edge.target = id ∧
          g.nodes[hop.edge.source]? = some hop.node ∧ hop.heading = .incoming)) := by
  unfold neighbors Neighbor.sort
  dsimp only
  rw [List.mem_mergeSort, List.mem_filter, List.mem_append, List.mem_ite_nil_right,
    List.mem_ite_nil_right]
  simp only [outgoing, incoming, List.mem_filterMap, List.mem_filter, Maps.mem_values,
    decide_eq_true_eq, Option.map_eq_some_iff]
  constructor
  · rintro ⟨⟨hd, edge, ⟨hk, hs⟩, node, hn, rfl⟩ | ⟨hd, edge, ⟨hk, hs⟩, node, hn, rfl⟩, hw⟩
    · exact ⟨hk, hw, .inl ⟨hd, hs, hn, rfl⟩⟩
    · exact ⟨hk, hw, .inr ⟨hd, hs, hn, rfl⟩⟩
  · obtain ⟨edge, node, heading⟩ := hop
    rintro ⟨hk, hw, ⟨hd, hs, hn, rfl⟩ | ⟨hd, hs, hn, rfl⟩⟩
    · exact ⟨.inl ⟨hd, edge, ⟨hk, hs⟩, node, hn, rfl⟩, hw⟩
    · exact ⟨.inr ⟨hd, edge, ⟨hk, hs⟩, node, hn, rfl⟩, hw⟩

/-- Where everything is asked for, these are all its edges. -/
theorem mem_neighbors {g : PropertyGraph} {id : NodeId} {hop : Neighbor} :
    hop ∈ g.neighbors id [] .both ↔ (∃ k : EdgeKey, g.edges[k]? = some hop.edge) ∧
      ((hop.edge.source = id ∧ g.nodes[hop.edge.target]? = some hop.node ∧ hop.heading = .outgoing) ∨
        (hop.edge.target = id ∧ g.nodes[hop.edge.source]? = some hop.node ∧
          hop.heading = .incoming)) := by
  rw [mem_neighbors_iff]
  simp [wants, Direction.followsOut, Direction.followsIn]

/-- The hops from a node, out and in, as they are before they are sorted. -/
def hops (g : PropertyGraph) (id : NodeId) : List Neighbor := g.outgoing id ++ g.incoming id

theorem neighbors_eq_sort (g : PropertyGraph) (id : NodeId) :
    g.neighbors id [] .both = Neighbor.sort (g.hops id) := by
  have hall : (g.hops id).filter (fun hop => wants [] hop.edge.kind) = g.hops id :=
    List.filter_eq_self.mpr fun _ _ => rfl
  show Neighbor.sort ((g.hops id).filter _) = _
  rw [hall]

theorem neighbors_of_pairwise {g : PropertyGraph} {id : NodeId}
    (h : (g.hops id).Pairwise fun a b => (Neighbor.compareListed a b).isLE = true) :
    g.neighbors id [] .both = g.hops id := by
  rw [neighbors_eq_sort]
  exact List.mergeSort_of_pairwise h

/-- Nodes and edges stand under their own ids and keys. -/
structure Keyed (g : PropertyGraph) : Prop where
  nodes : ∀ (id : NodeId) node, g.nodes[id]? = some node → node.id = id
  edges : ∀ (k : EdgeKey) edge, g.edges[k]? = some edge → edge.key = k

/-- Hops from one node that are listed alike are the same. -/
theorem Keyed.hop_eq {g : PropertyGraph} (keyed : g.Keyed) {id : NodeId} {a b : Neighbor}
    (ha : a ∈ g.neighbors id [] .both) (hb : b ∈ g.neighbors id [] .both)
    (h : Neighbor.compareListed a b = .eq) : a = b := by
  obtain ⟨hkind, hid, hheading⟩ := Neighbor.eq_of_compareListed h
  obtain ⟨⟨k, hk⟩, hends⟩ := mem_neighbors.mp ha
  obtain ⟨⟨k', hk'⟩, hends'⟩ := mem_neighbors.mp hb
  have hkey : a.edge.key = b.edge.key := by
    rcases hends with ⟨hs, hn, hout⟩ | ⟨ht, hn, hin⟩ <;>
      rcases hends' with ⟨hs', hn', hout'⟩ | ⟨ht', hn', hin'⟩
    · have htarget := keyed.nodes _ _ hn
      rw [hid, keyed.nodes _ _ hn'] at htarget
      simp [Edge.key, hs, hs', htarget, hkind]
    · rw [hout, hin'] at hheading; simp at hheading
    · rw [hin, hout'] at hheading; simp at hheading
    · have hsource := keyed.nodes _ _ hn
      rw [hid, keyed.nodes _ _ hn'] at hsource
      simp [Edge.key, ht, ht', hsource, hkind]
  have hedge : a.edge = b.edge := by
    have hk'' := keyed.edges k _ hk
    rw [hkey, keyed.edges k' _ hk'] at hk''
    rw [← hk'', hk'] at hk
    exact (Option.some.inj hk).symm
  have hnode : a.node = b.node := by
    rcases hends with ⟨-, hn, hout⟩ | ⟨-, hn, hin⟩ <;>
      rcases hends' with ⟨-, hn', hout'⟩ | ⟨-, hn', hin'⟩
    · rw [hedge, hn'] at hn; exact (Option.some.inj hn).symm
    · rw [hout, hin'] at hheading; simp at hheading
    · rw [hin, hout'] at hheading; simp at hheading
    · rw [hedge, hn'] at hn; exact (Option.some.inj hn).symm
  obtain ⟨aedge, anode, aheading⟩ := a
  obtain ⟨bedge, bnode, bheading⟩ := b
  cases hedge
  cases hnode
  cases hheading
  rfl

/-- No two edges have the same key. -/
theorem Keyed.nodup_keys {g : PropertyGraph} (keyed : g.Keyed) :
    (g.allEdges.map Edge.key).Nodup := by
  rw [allEdges, Maps.map_values keyed.edges]
  exact ExtTreeMap.nodup_keys

theorem Keyed.nodup_hops {g : PropertyGraph} (keyed : g.Keyed) (id : NodeId) :
    (g.hops id).Nodup := by
  -- An edge gives at most one hop out and one hop in, and the two differ in their headings.
  have hopsOf : ∀ (start : Edge → Bool) (hop? : Edge → Option Neighbor),
      (∀ edge hop, hop? edge = some hop → hop.edge = edge) →
      ((g.edges.values.filter start).filterMap hop?).Nodup := by
    intro start hop? hedge
    have hedges : g.edges.values.Nodup := .of_map Edge.key keyed.nodup_keys
    refine List.Nodup.filterMap (fun edge edge' hop h h' => ?_) (hedges.filter start)
    rw [← hedge edge hop h, ← hedge edge' hop h']
  refine List.nodup_append'.mpr ⟨hopsOf _ _ ?_, hopsOf _ _ ?_, fun hop hout hin => ?_⟩
  · intro edge hop h
    obtain ⟨node, -, rfl⟩ := Option.map_eq_some_iff.mp h
    rfl
  · intro edge hop h
    obtain ⟨node, -, rfl⟩ := Option.map_eq_some_iff.mp h
    rfl
  · obtain ⟨edge, -, hout⟩ := List.mem_filterMap.mp hout
    obtain ⟨edge', -, hin⟩ := List.mem_filterMap.mp hin
    obtain ⟨node, -, rfl⟩ := Option.map_eq_some_iff.mp hout
    obtain ⟨node', -, h⟩ := Option.map_eq_some_iff.mp hin
    cases h

/-- The neighbours of a node stand in strict order. -/
theorem neighbors_strict {g : PropertyGraph} (keyed : g.Keyed) (id : NodeId)
    (kinds : List EdgeKind) (direction : Direction) :
    (g.neighbors id kinds direction).Pairwise fun a b => Neighbor.compareListed a b = .lt := by
  have hmem : ∀ hop ∈ g.neighbors id kinds direction, hop ∈ g.neighbors id [] .both := by
    intro hop h
    obtain ⟨hk, -, hends⟩ := mem_neighbors_iff.mp h
    exact mem_neighbors.mpr ⟨hk, hends.imp And.right And.right⟩
  have hnodup : (g.neighbors id kinds direction).Nodup := by
    refine (List.mergeSort_perm _ _).nodup_iff.mpr (.filter _ ?_)
    obtain ⟨hout, hin, -⟩ := List.nodup_append'.mp (keyed.nodup_hops id)
    cases direction with
    | outgoing => simpa [Direction.followsOut, Direction.followsIn] using hout
    | incoming => simpa [Direction.followsOut, Direction.followsIn] using hin
    | both => exact keyed.nodup_hops id
  refine ((Neighbor.pairwise_sort _).and hnodup).imp_of_mem fun {a b} ha hb h => ?_
  cases hab : Neighbor.compareListed a b with
  | lt => rfl
  | eq => exact absurd (keyed.hop_eq (hmem a ha) (hmem b hb) hab) h.2
  | gt =>
    have hle := h.1
    rw [hab] at hle
    cases hle

theorem values_deleteEdges {g : PropertyGraph} (keyed : g.Keyed) (keys : List EdgeKey) :
    (g.deleteEdges keys).edges.values = g.edges.values.filter fun edge => edge.key ∉ keys := by
  have hmap : (g.deleteEdges keys).edges = g.edges.filter fun k _ => decide (k ∉ keys) := by
    apply ExtTreeMap.ext_getElem?
    intro k
    rw [ExtTreeMap.getElem?_filter']
    refine (Maps.get_foldl_erase keys g.edges k).trans ?_
    by_cases hk : k ∈ keys <;> cases g.edges[k]? <;> simp [hk, Option.filter_some]
  rw [hmap, Maps.values_eq_map_toList, Maps.values_eq_map_toList, ExtTreeMap.toList_filter,
    List.filter_map]
  refine congrArg (List.map _) (List.filter_congr fun pair hp => ?_)
  have hkey := keyed.edges _ _ (ExtTreeMap.mem_toList_iff_getElem?_eq_some.mp hp)
  simp [hkey]

theorem filterMap_hops (edges : List Edge) (keep start : Edge → Bool)
    (hop? : Edge → Option Neighbor) (hhop : ∀ edge hop, hop? edge = some hop → hop.edge = edge) :
    ((edges.filter keep).filter start).filterMap hop? =
      ((edges.filter start).filterMap hop?).filter fun hop => keep hop.edge := by
  rw [List.filter_filter]
  induction edges with
  | nil => rfl
  | cons edge rest ih =>
    cases hk : keep edge <;> cases hs : start edge <;> cases hh : hop? edge with
    | none => simp [hk, hs, hh, ih]
    | some hop =>
      have he := hhop edge hop hh
      simp [hk, hs, hh, he, ih]

/-- Deleting edges takes their hops out of the list of neighbours. -/
theorem neighbors_deleteEdges {g : PropertyGraph} (keyed : g.Keyed) (keys : List EdgeKey)
    (id : NodeId) :
    (g.deleteEdges keys).neighbors id [] .both =
      (g.neighbors id [] .both).filter fun hop => hop.edge.key ∉ keys := by
  have hout : (g.deleteEdges keys).outgoing id =
      (g.outgoing id).filter fun hop => decide (hop.edge.key ∉ keys) := by
    unfold outgoing
    rw [values_deleteEdges keyed]
    refine filterMap_hops _ (fun edge => decide (edge.key ∉ keys)) _ _ fun edge hop h => ?_
    obtain ⟨node, -, rfl⟩ := Option.map_eq_some_iff.mp h
    rfl
  have hin : (g.deleteEdges keys).incoming id =
      (g.incoming id).filter fun hop => decide (hop.edge.key ∉ keys) := by
    unfold incoming
    rw [values_deleteEdges keyed]
    refine filterMap_hops _ (fun edge => decide (edge.key ∉ keys)) _ _ fun edge hop h => ?_
    obtain ⟨node, -, rfl⟩ := Option.map_eq_some_iff.mp h
    rfl
  rw [neighbors_eq_sort, neighbors_eq_sort, hops, hout, hin, ← List.filter_append]
  refine Neighbor.sort_filter _ fun a ha b hb hab => ?_
  have hmem : ∀ hop ∈ g.hops id, hop ∈ g.neighbors id [] .both := fun hop h => by
    rw [neighbors_eq_sort]; exact List.mem_mergeSort.mpr h
  exact keyed.hop_eq (hmem a ha) (hmem b hb) hab

end PropertyGraph

end CodeAtlas
