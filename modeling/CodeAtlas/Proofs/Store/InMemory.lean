import CodeAtlas.Proofs.Replay
import CodeAtlas.Proofs.Store.Indexed
import CodeAtlas.Proofs.Store.Operations

/-!
# The graph in memory is a graph

A graph in memory stands for the graph of the nodes and edges that are found in it
(`IndexedGraph.Holds`). Every call answers as that graph does and leaves what that graph becomes
(`Holds.run`), so the two are used alike from the beginning (`replies_indexed_eq`).

The checks before an insertion are what makes it all or nothing: after them no write can miss, since
the nodes come first and an edge finds both of its own.
-/

set_option autoImplicit false

namespace CodeAtlas

open Std Operation

namespace IndexedGraph

open StableGraph LawfulStableGraph

variable {G : Type} [StableGraph G Node Edge] {s : IndexedGraph G} {g : PropertyGraph}

/-- A graph in memory holds a graph if its parts fit together and the same is found in both. -/
structure Holds (s : IndexedGraph G) (g : PropertyGraph) : Prop where
  sound : s.Sound
  nodes : ∀ id : NodeId, g.nodes[id]? = s.node? id
  edges : ∀ key : EdgeKey, g.edges[key]? = s.edge? key

namespace Holds

theorem contains_eq (h : s.Holds g) (id : NodeId) : s.index.contains id = g.nodes.contains id := by
  rw [h.sound.contains_eq, ← h.nodes, ExtTreeMap.contains_eq_isSome_getElem?]

theorem getNode (h : s.Holds g) (id : NodeId) : s.getNode id = .ok (g.get? id) := by
  rw [PropertyGraph.get?, h.nodes, IndexedGraph.getNode]
  split
  next i hi =>
    obtain ⟨node, hnode, hfound⟩ := h.sound.node?_of_index hi
    rw [hnode, hfound]
    rfl
  next hi =>
    rw [IndexedGraph.node?, hi]
    rfl

/-- The nodes of the graph are those that have a number. -/
theorem mem_nodes_iff (h : s.Holds g) (node : Node) :
    (∃ i, StableGraph.node? s.graph i = some node) ↔ node ∈ g.nodes.values := by
  rw [Maps.mem_values]
  simp only [h.nodes, h.sound.node?_eq_some_iff]
  constructor
  · exact fun hi => ⟨_, rfl, hi⟩
  · rintro ⟨-, -, hi⟩
    exact hi

/-! ## Checks -/

/-- An item is known to the graph in memory if the index has it or it was accepted before. -/
theorem kindOf? (h : s.Holds g) (accepted : ExtTreeMap NodeId NodeKind) (id : NodeId) :
    s.kindOf? accepted id = .ok (g.kindOf? accepted id) := by
  rw [IndexedGraph.kindOf?, PropertyGraph.kindOf?, h.nodes]
  split
  next i hi =>
    obtain ⟨node, hnode, hfound⟩ := h.sound.node?_of_index hi
    rw [hnode, hfound]
    rfl
  next hi =>
    rw [node?, hi]
    rfl

theorem acceptNodes (h : s.Holds g) (accepted : ExtTreeMap NodeId NodeKind) (nodes : List Node) :
    s.acceptNodes accepted nodes = g.acceptNodes accepted nodes := by
  induction nodes generalizing accepted with
  | nil => rfl
  | cons node rest ih =>
    rw [IndexedGraph.acceptNodes, h.kindOf?, PropertyGraph.acceptNodes]
    cases g.kindOf? accepted node.id with
    | none => exact ih _
    | some existing =>
      show (if _ then _ else _) = if _ then _ else _
      split
      next => exact ih _
      next => rfl

theorem acceptEdges (h : s.Holds g) (accepted : ExtTreeMap NodeId NodeKind) (edges : List Edge) :
    s.acceptEdges accepted edges = g.acceptEdges accepted edges := by
  have hknown : ∀ id : NodeId,
      (s.index.contains id || accepted.contains id) = (g.kindOf? accepted id).isSome := by
    intro id
    rw [PropertyGraph.kindOf?, Option.isSome_or, Option.isSome_map, h.contains_eq,
      ExtTreeMap.contains_eq_isSome_getElem?, ExtTreeMap.contains_eq_isSome_getElem?]
  unfold PropertyGraph.acceptEdges
  simp only [← hknown]
  rfl

theorem check (h : s.Holds g) (nodes : List Node) (edges : List Edge) :
    s.check nodes edges = (g.acceptNodes ∅ nodes).bind (g.acceptEdges · edges) := by
  show (s.acceptNodes ∅ nodes).bind _ = _
  rw [h.acceptNodes]
  exact congrArg _ (funext fun accepted => h.acceptEdges accepted edges)

/-! ## Lists of nodes and edges -/

variable [LawfulStableGraph G Node Edge]

theorem mem_edges_iff (h : s.Holds g) (edge : Edge) :
    (∃ e l, link? s.graph e = some l ∧ l.weight = edge) ↔ edge ∈ g.edges.values := by
  rw [Maps.mem_values]
  simp only [h.edges, h.sound.edge?_eq_some_iff]
  constructor
  · exact fun he => ⟨_, rfl, he⟩
  · rintro ⟨-, -, he⟩
    exact he

theorem keyed (h : s.Holds g) : g.Keyed where
  nodes id _ hnode := (h.sound.node?_eq_some_iff.mp ((h.nodes id).symm.trans hnode)).1
  edges key _ hedge := (h.sound.edge?_eq_some_iff.mp ((h.edges key).symm.trans hedge)).1

theorem closed (h : s.Holds g) : g.Closed := by
  intro key hkey
  obtain ⟨edge, hedge⟩ := (Maps.contains_iff _ _).mp hkey
  obtain ⟨l, -, hsource, htarget, -⟩ := h.sound.index_of_edge? ((h.edges key).symm.trans hedge)
  rw [← h.contains_eq, ← h.contains_eq, Maps.contains_iff, Maps.contains_iff]
  exact ⟨⟨_, hsource⟩, ⟨_, htarget⟩⟩

/-- The store holds every node once. -/
theorem nodup_nodes (h : s.Holds g) : ((StableGraph.nodes s.graph).map (·.2)).Nodup := by
  refine (LawfulStableGraph.nodup_nodes s.graph).map_on ?_
  rintro ⟨i, node⟩ hi ⟨j, node'⟩ hj heq
  cases heq
  rw [LawfulStableGraph.mem_nodes] at hi hj
  have hindex := (h.sound.indexed node.id i).mpr ⟨node, hi, rfl⟩
  rw [(h.sound.indexed node.id j).mpr ⟨node, hj, rfl⟩] at hindex
  rw [Option.some.inj hindex]

theorem mem_weights_iff (h : s.Holds g) (node : Node) :
    node ∈ (StableGraph.nodes s.graph).map (·.2) ↔ node ∈ g.nodes.values := by
  rw [← h.mem_nodes_iff, List.mem_map]
  simp [LawfulStableGraph.mem_nodes]

/-- The store holds every edge once. -/
theorem nodup_edges (h : s.Holds g) : ((links s.graph).map (·.2.weight)).Nodup := by
  refine (nodup_links s.graph).map_on ?_
  rintro ⟨e, l⟩ he ⟨f, l'⟩ hf heq
  rw [mem_links] at he hf
  have hnumber := h.sound.single e f l l' he hf (congrArg Edge.key heq)
  subst hnumber
  rw [he] at hf
  cases hf
  rfl

theorem mem_linkWeights_iff (h : s.Holds g) (edge : Edge) :
    edge ∈ (links s.graph).map (·.2.weight) ↔ edge ∈ g.edges.values := by
  rw [← h.mem_edges_iff, List.mem_map]
  simp [mem_links]

theorem find (h : s.Holds g) (kind : Option NodeKind) (filter : NodeFilter) :
    s.find kind filter = g.find kind filter := by
  refine Maps.mergeSort_eq (compareOn Node.id) ((Maps.pairwise_values h.keyed.nodes).filter _)
    (h.nodup_nodes.filter _) fun node => ?_
  rw [List.mem_filter, PropertyGraph.find, List.mem_filter, h.mem_weights_iff]

theorem allEdges (h : s.Holds g) : s.allEdges = g.allEdges :=
  Maps.mergeSort_eq (compareOn Edge.key) (Maps.pairwise_values h.keyed.edges) h.nodup_edges
    h.mem_linkWeights_iff

theorem nodeCount (h : s.Holds g) : (StableGraph.nodes s.graph).length = g.nodeCount := by
  have hnodup : g.nodes.values.Nodup := by
    refine .of_map Node.id ?_
    rw [Maps.map_values h.keyed.nodes]
    exact ExtTreeMap.nodup_keys
  have hlength :=
    ((List.perm_ext_iff_of_nodup h.nodup_nodes hnodup).mpr h.mem_weights_iff).length_eq
  rwa [List.length_map, Maps.length_values] at hlength

theorem edgeCount (h : s.Holds g) : (links s.graph).length = g.edgeCount := by
  have hnodup : g.edges.values.Nodup := .of_map Edge.key h.keyed.nodup_keys
  have hlength :=
    ((List.perm_ext_iff_of_nodup h.nodup_edges hnodup).mpr h.mem_linkWeights_iff).length_eq
  rwa [List.length_map, Maps.length_values] at hlength

end Holds

/-! ## Neighbours -/

/-- The id of the node that an edge is seen from. -/
def nearId (edge : Edge) : Heading → NodeId
  | .outgoing => edge.source
  | .incoming => edge.target

/-- The id of the node at its other end. -/
def farId (edge : Edge) : Heading → NodeId
  | .outgoing => edge.target
  | .incoming => edge.source

theorem Sound.index_near (h : s.Sound) {e : Nat} {l : Link Edge} (hl : link? s.graph e = some l)
    (heading : Heading) : s.index[nearId l.weight heading]? = some (l.near heading) := by
  cases heading with
  | outgoing => exact (h.ends e l hl).1
  | incoming => exact (h.ends e l hl).2

theorem Sound.index_far (h : s.Sound) {e : Nat} {l : Link Edge} (hl : link? s.graph e = some l)
    (heading : Heading) : s.index[farId l.weight heading]? = some (l.far heading) := by
  cases heading with
  | outgoing => exact (h.ends e l hl).2
  | incoming => exact (h.ends e l hl).1

/-- The hop along a link, if there is a node at its other end. -/
def hop? (s : IndexedGraph G) (heading : Heading) (l : Link Edge) : Option Neighbor :=
  (StableGraph.node? s.graph (l.far heading)).map (⟨l.weight, ·, heading⟩)

variable [LawfulStableGraph G Node Edge] {i : Nat} {id : NodeId} {kinds : List EdgeKind}
  {heading : Heading}

/-- The hops along the links of a node that have a wanted kind. -/
def hopsOf (s : IndexedGraph G) (kinds : List EdgeKind) (heading : Heading) (i : Nat) :
    List Neighbor :=
  ((linksAt s.graph heading i).filter fun p => PropertyGraph.wants kinds p.2.weight.kind).filterMap
    fun p => s.hop? heading p.2

/-- No hop misses the node that it leads to. -/
theorem Sound.hopsAlong_eq (h : s.Sound) (kinds : List EdgeKind) (heading : Heading) (i : Nat) :
    s.hopsAlong kinds heading i = .ok (s.hopsOf kinds heading i) := by
  unfold hopsAlong hopsOf
  have there : ∀ p ∈ (linksAt s.graph heading i).filter fun p =>
      PropertyGraph.wants kinds p.2.weight.kind,
      ∃ node, StableGraph.node? s.graph (p.2.far heading) = some node := by
    rintro ⟨e, l⟩ hp
    obtain ⟨hl, -⟩ := (mem_linksAt _ _ _ _ _).mp (List.mem_of_mem_filter hp)
    obtain ⟨node, hnode, -⟩ := h.node?_of_index (h.index_far hl heading)
    exact ⟨node, hnode⟩
  generalize (linksAt s.graph heading i).filter (fun p =>
    PropertyGraph.wants kinds p.2.weight.kind) = wanted at there ⊢
  induction wanted with
  | nil => rfl
  | cons p rest ih =>
    obtain ⟨node, hnode⟩ := there p List.mem_cons_self
    rw [List.mapM_cons, ih fun q hq => there q (List.mem_cons_of_mem p hq), hnode]
    simp only [List.filterMap_cons, hop?, hnode, Option.map_some]
    rfl

theorem Holds.mem_hopsOf_iff (h : s.Holds g) (hi : s.index[id]? = some i) (hop : Neighbor) :
    hop ∈ s.hopsOf kinds heading i ↔
      (∃ k : EdgeKey, g.edges[k]? = some hop.edge) ∧ PropertyGraph.wants kinds hop.edge.kind = true ∧
      nearId hop.edge heading = id ∧ g.nodes[farId hop.edge heading]? = some hop.node ∧
      hop.heading = heading := by
  rw [← Maps.mem_values, ← h.mem_edges_iff, hopsOf, List.mem_filterMap]
  constructor
  · rintro ⟨⟨e, l⟩, hp, hhop⟩
    obtain ⟨hp, hwants⟩ := List.mem_filter.mp hp
    obtain ⟨hl, hnear⟩ := (mem_linksAt _ _ _ _ _).mp hp
    obtain ⟨node, hnode, rfl⟩ := Option.map_eq_some_iff.mp hhop
    refine ⟨⟨e, l, hl, rfl⟩, hwants, ?_, ?_, rfl⟩
    · exact h.sound.index_inj (h.sound.index_near hl _) (hnear ▸ hi)
    · rw [h.nodes, node?, h.sound.index_far hl _]
      exact hnode
  · obtain ⟨edge, node, side⟩ := hop
    rintro ⟨⟨e, l, hl, rfl⟩, hwants, hnear, hnode, rfl⟩
    have hside := h.sound.index_near hl side
    rw [hnear, hi] at hside
    refine ⟨(e, l), List.mem_filter.mpr ⟨(mem_linksAt _ _ _ _ _).mpr ⟨hl, ?_⟩, hwants⟩, ?_⟩
    · exact (Option.some.inj hside).symm
    · rw [h.nodes, node?, h.sound.index_far hl side, Option.bind_some] at hnode
      exact Option.map_eq_some_iff.mpr ⟨node, hnode, rfl⟩

theorem Sound.nodup_hopsOf (h : s.Sound) (kinds : List EdgeKind) (heading : Heading) (i : Nat) :
    (s.hopsOf kinds heading i).Nodup := by
  refine List.pairwise_filterMap.mpr ?_
  refine ((nodup_linksAt s.graph heading i).filter _).imp_of_mem fun {p q} hp hq hne => ?_
  intro hop hhop hop' hhop' heq
  obtain ⟨hl, -⟩ := (mem_linksAt _ _ _ _ _).mp (List.mem_of_mem_filter hp)
  obtain ⟨hl', -⟩ := (mem_linksAt _ _ _ _ _).mp (List.mem_of_mem_filter hq)
  obtain ⟨node, -, rfl⟩ := Option.map_eq_some_iff.mp hhop
  obtain ⟨node', -, rfl⟩ := Option.map_eq_some_iff.mp hhop'
  have hweight : p.2.weight = q.2.weight := congrArg Neighbor.edge heq
  have hnumber := h.single _ _ _ _ hl hl' (congrArg Edge.key hweight)
  rw [hnumber, hl'] at hl
  exact hne (Prod.ext hnumber (Option.some.inj hl).symm)

theorem Holds.neighbors (h : s.Holds g) (id : NodeId) (kinds : List EdgeKind)
    (direction : Direction) :
    s.neighbors id kinds direction = .ok (g.neighbors id kinds direction) := by
  cases hi : s.index[id]? with
  | none =>
    -- An edge at the node would have it in the index.
    have hnone : g.neighbors id kinds direction = [] := by
      refine List.eq_nil_iff_forall_not_mem.mpr fun hop hhop => ?_
      obtain ⟨⟨k, hk⟩, -, hends⟩ := PropertyGraph.mem_neighbors_iff.mp hhop
      obtain ⟨hsource, htarget⟩ := h.closed k ((Maps.contains_iff _ _).mpr ⟨_, hk⟩)
      rw [← h.keyed.edges k _ hk, ← h.contains_eq] at hsource htarget
      have hgone := (Maps.contains_eq_false_iff _ _).mpr hi
      rcases hends with ⟨-, rfl, -⟩ | ⟨-, rfl, -⟩
      · exact Bool.false_ne_true (hgone.symm.trans hsource)
      · exact Bool.false_ne_true (hgone.symm.trans htarget)
    rw [IndexedGraph.neighbors, hi, hnone]
  | some i =>
    have hruns : s.neighbors id kinds direction = .ok (Neighbor.sort
        ((if direction.followsOut then s.hopsOf kinds .outgoing i else []) ++
          if direction.followsIn then s.hopsOf kinds .incoming i else [])) := by
      rw [IndexedGraph.neighbors, hi]
      cases direction <;>
        simp only [Direction.followsOut, Direction.followsIn, if_true, h.sound.hopsAlong_eq] <;> rfl
    rw [hruns]
    refine congrArg Except.ok (Maps.mergeSort_eq Neighbor.compareListed
      (PropertyGraph.neighbors_strict h.keyed id kinds direction) ?_ fun hop => ?_)
    · refine List.nodup_append'.mpr ⟨?_, ?_, ?_⟩
      · split
        next => exact h.sound.nodup_hopsOf _ _ _
        next => exact .nil
      · split
        next => exact h.sound.nodup_hopsOf _ _ _
        next => exact .nil
      · intro hop hout hin
        obtain ⟨-, -, -, -, hout⟩ := (h.mem_hopsOf_iff hi hop).mp (List.mem_ite_nil_right.mp hout).2
        obtain ⟨-, -, -, -, hin⟩ := (h.mem_hopsOf_iff hi hop).mp (List.mem_ite_nil_right.mp hin).2
        rw [hout] at hin
        cases hin
    · rw [PropertyGraph.mem_neighbors_iff, List.mem_append, List.mem_ite_nil_right,
        List.mem_ite_nil_right, h.mem_hopsOf_iff hi, h.mem_hopsOf_iff hi]
      simp only [nearId, farId]
      constructor
      · rintro (⟨hd, hk, hw, hends⟩ | ⟨hd, hk, hw, hends⟩)
        · exact ⟨hk, hw, .inl ⟨hd, hends⟩⟩
        · exact ⟨hk, hw, .inr ⟨hd, hends⟩⟩
      · rintro ⟨hk, hw, ⟨hd, hends⟩ | ⟨hd, hends⟩⟩
        · exact .inl ⟨hd, hk, hw, hends⟩
        · exact .inr ⟨hd, hk, hw, hends⟩

/-! ## Insertions -/

namespace Holds

theorem putNode (h : s.Holds g) (node : Node) :
    ∃ t, s.putNode node = .ok t ∧ t.Holds { g with nodes := g.nodes.insert node.id node } := by
  obtain ⟨i, t, hput, p⟩ := h.sound.putNode node
  refine ⟨t, hput, ?_⟩
  exact {
    sound := p.sound h.sound
    nodes := fun id => by rw [Maps.get_insert, p.node?_eq h.sound, h.nodes]
    edges := fun key => by rw [h.sound.edge?_congr (p.sound h.sound) p.links, h.edges] }

theorem putEdge (h : s.Holds g) {edge : Edge} (hsource : g.nodes.contains edge.source = true)
    (htarget : g.nodes.contains edge.target = true) :
    ∃ t, s.putEdge edge = .ok t ∧ t.Holds { g with edges := g.edges.insert edge.key edge } := by
  rw [← h.contains_eq, h.sound.contains_eq] at hsource htarget
  obtain ⟨e, t, hput, p⟩ := h.sound.putEdge hsource htarget
  refine ⟨t, hput, ?_⟩
  exact {
    sound := p.sound h.sound
    nodes := fun id => by rw [p.node?_eq, h.nodes]
    edges := fun key => by rw [Maps.get_insert, p.edge?_eq h.sound, h.edges] }

theorem putNodes (h : s.Holds g) (nodes : List Node) :
    ∃ t, (forM nodes fun node => Session.change (·.putNode node)) s = (.ok (), t) ∧
      t.Holds { g with nodes := nodes.foldl (fun m node => m.insert node.id node) g.nodes } := by
  induction nodes generalizing s g with
  | nil => exact ⟨s, rfl, h⟩
  | cons node rest ih =>
    obtain ⟨t, hput, ht⟩ := h.putNode node
    obtain ⟨t', hrest, ht'⟩ := ih ht
    refine ⟨t', ?_, ht'⟩
    rw [List.forM_cons, Session.bind_ok (Session.run_change_ok hput), hrest]

/-- No edge misses a node, as all nodes are there before the first edge. -/
theorem putEdges (h : s.Holds g) {edges : List Edge}
    (ends : ∀ edge ∈ edges, g.nodes.contains edge.source = true ∧
      g.nodes.contains edge.target = true) :
    ∃ t, (forM edges fun edge => Session.change (·.putEdge edge)) s = (.ok (), t) ∧
      t.Holds { g with edges := edges.foldl (fun m edge => m.insert edge.key edge) g.edges } := by
  induction edges generalizing s g with
  | nil => exact ⟨s, rfl, h⟩
  | cons edge rest ih =>
    obtain ⟨hsource, htarget⟩ := ends edge List.mem_cons_self
    obtain ⟨t, hput, ht⟩ := h.putEdge hsource htarget
    obtain ⟨t', hrest, ht'⟩ := ih ht fun other hother => ends other (List.mem_cons_of_mem edge hother)
    refine ⟨t', ?_, ht'⟩
    rw [List.forM_cons, Session.bind_ok (Session.run_change_ok hput), hrest]

/-- An insertion that is refused leaves everything in its place; all others are carried out to the end. -/
theorem upsert (h : s.Holds g) (nodes : List Node) (edges : List Edge) :
    (∃ e, g.upsert nodes edges = .error e ∧ upsert nodes edges s = (.error e, s)) ∨
      ∃ g' t, g.upsert nodes edges = .ok g' ∧ upsert nodes edges s = (.ok (), t) ∧ t.Holds g' := by
  have hcheck : Session.ask (·.check nodes edges) s =
      ((g.acceptNodes ∅ nodes).bind (g.acceptEdges · edges), s) :=
    congrArg (·, s) (h.check nodes edges)
  have hup := PropertyGraph.upsert_eq g nodes edges
  cases hnodes : g.acceptNodes ∅ nodes with
  | error e =>
    rw [hnodes] at hcheck hup
    exact .inl ⟨e, hup, Session.bind_error hcheck⟩
  | ok accepted =>
    rw [hnodes] at hcheck hup
    cases hedges : g.acceptEdges accepted edges with
    | error e =>
      simp only [hedges, Except.bind] at hcheck hup
      exact .inl ⟨e, hup, Session.bind_error hcheck⟩
    | ok done =>
      simp only [hedges, Except.bind] at hcheck hup
      obtain ⟨-, -, ends⟩ := PropertyGraph.of_upsert hup
      obtain ⟨t, hput, ht⟩ := h.putNodes nodes
      obtain ⟨t', hput', ht'⟩ := ht.putEdges ends
      refine .inr ⟨_, t', hup, ?_, ht'⟩
      exact (Session.bind_ok hcheck).trans ((Session.bind_ok hput).trans hput')

/-! ## Deletions -/

/-- The nodes that are deleted go with their edges, in whatever order and each however often. -/
theorem dropNodes (h : s.Holds g) {unique ids : List NodeId} (same : ∀ id, id ∈ unique ↔ id ∈ ids) :
    (unique.foldl dropNode s).Holds (g.delete ids) := by
  have hfold : (unique.foldl dropNode s).Sound ∧
      (∀ id, (unique.foldl dropNode s).node? id = if id ∈ unique then none else s.node? id) ∧
      ∀ key : EdgeKey, (unique.foldl dropNode s).edge? key =
        if key.source ∈ unique ∨ key.target ∈ unique then none else s.edge? key := by
    have hsound := h.sound
    clear same h
    induction unique generalizing s with
    | nil => exact ⟨hsound, by simp, by simp⟩
    | cons id rest ih =>
      obtain ⟨hrest, hnodes, hedges⟩ := ih (hsound.dropNode id)
      refine ⟨hrest, fun a => ?_, fun key => ?_⟩
      · rw [List.foldl_cons, hnodes, hsound.node?_dropNode]
        by_cases ha : id = a <;> by_cases har : a ∈ rest <;> simp [ha, har, eq_comm]
      · rw [List.foldl_cons, hedges, hsound.edge?_dropNode]
        grind
  obtain ⟨hsound, hnodes, hedges⟩ := hfold
  refine ⟨hsound, fun id => ?_, fun key => ?_⟩
  · rw [PropertyGraph.get_delete_nodes, hnodes, h.nodes]
    simp only [same]
  · rw [PropertyGraph.get_delete_edges, hedges, h.edges]
    simp only [same]

theorem delete (h : s.Holds g) (ids : List NodeId) : (s.delete ids).Holds (g.delete ids) :=
  h.dropNodes fun _ => List.mem_eraseDups

theorem deleteEdges (h : s.Holds g) (keys : List EdgeKey) :
    (s.deleteEdges keys).Holds (g.deleteEdges keys) := by
  unfold IndexedGraph.deleteEdges PropertyGraph.deleteEdges
  induction keys generalizing s g with
  | nil => exact h
  | cons key rest ih =>
    refine ih (g := { g with edges := g.edges.erase key }) ?_
    exact {
      sound := h.sound.dropEdge key
      nodes := fun id => by rw [node?_dropEdge, h.nodes]
      edges := fun k => by rw [Maps.get_erase, h.sound.edge?_dropEdge, h.edges] }

/-! ## Any call -/

/-- Every call is answered as the graph answers it, and leaves what the graph becomes. -/
theorem run (h : s.Holds g) (op : Operation) :
    ∃ t, op.run s = ((op.run g).1, t) ∧ t.Holds (op.run g).2 := by
  have asked : ∀ {α : Type} (reply : α → Reply) {ofIndexed : IndexedGraph G → Except GraphError α}
      {ofGraph : PropertyGraph → Except GraphError α}, ofIndexed s = ofGraph g →
      ∃ t, (reply <$> Session.ask ofIndexed) s = (((reply <$> Session.ask ofGraph) g).1, t) ∧
        t.Holds ((reply <$> Session.ask ofGraph) g).2 := by
    intro α reply ofIndexed ofGraph hsame
    rw [Session.run_map, Session.run_map]
    exact ⟨s, congrArg (fun x => (Except.map reply x, s)) hsame, h⟩
  cases op with
  | getNode id => exact asked _ (h.getNode id)
  | findNodes kind filter => exact asked _ (congrArg Except.ok (h.find kind filter))
  | neighbors id kinds direction => exact asked _ (h.neighbors id kinds direction)
  | nodeCount => exact asked _ (congrArg Except.ok h.nodeCount)
  | edgeCount => exact asked _ (congrArg Except.ok h.edgeCount)
  | allEdges => exact asked _ (congrArg Except.ok h.allEdges)
  | delete ids => exact ⟨_, rfl, h.delete ids⟩
  | deleteEdges keys => exact ⟨_, rfl, h.deleteEdges keys⟩
  | upsert nodes edges =>
    have hindexed : (Operation.upsert nodes edges).run s =
        ((fun _ => Reply.done) <$> IndexedGraph.upsert nodes edges) s := rfl
    have hgraph : (Operation.upsert nodes edges).run g =
        ((fun _ => Reply.done) <$> Session.change fun g : PropertyGraph => g.upsert nodes edges) g :=
      rfl
    rw [hindexed, hgraph, Session.run_map, Session.run_map]
    rcases h.upsert nodes edges with ⟨e, hup, hrun⟩ | ⟨g', t, hup, hrun, ht⟩
    · rw [hrun, Session.run_change_error hup]
      exact ⟨s, rfl, h⟩
    · rw [hrun, Session.run_change_ok hup]
      exact ⟨t, rfl, ht⟩

theorem after (h : s.Holds g) (ops : List Operation) :
    (Operation.after s ops).Holds (Operation.after g ops) := by
  induction ops generalizing s g with
  | nil => exact h
  | cons op rest ih =>
    obtain ⟨t, hrun, ht⟩ := h.run op
    refine ih (s := (op.run s).2) ?_
    rw [hrun]
    exact ht

theorem replies_eq (h : s.Holds g) (ops : List Operation) : replies s ops = replies g ops := by
  induction ops generalizing s g with
  | nil => rfl
  | cons op rest ih =>
    obtain ⟨t, hrun, ht⟩ := h.run op
    rw [replies, replies, hrun, ih ht]

end Holds

theorem holds_empty : (∅ : IndexedGraph G).Holds {} where
  sound := sound_empty
  nodes id := by
    rw [node?, show (∅ : IndexedGraph G).index = ∅ from rfl, ExtTreeMap.getElem?_empty,
      ExtTreeMap.getElem?_empty]
    rfl
  edges key := by
    have hnone : (∅ : IndexedGraph G).findLink? key = none := by
      rw [findLink?, show (∅ : IndexedGraph G).index = ∅ from rfl, ExtTreeMap.getElem?_empty]
      rfl
    rw [edge?, hnone, ExtTreeMap.getElem?_empty]
    rfl

theorem holds_after (ops : List Operation) :
    (after (∅ : IndexedGraph G) ops).Holds (after ({} : PropertyGraph) ops) :=
  holds_empty.after ops

/-- **Numbers do not show.** Whatever the calls, the graph in memory answers as the graph of its nodes
and edges does, and no call ever breaks off. -/
theorem replies_indexed_eq (ops : List Operation) :
    replies (∅ : IndexedGraph G) ops = replies ({} : PropertyGraph) ops :=
  holds_empty.replies_eq ops

end IndexedGraph

end CodeAtlas
