import CodeAtlas.Proofs.Store.InMemory
import CodeAtlas.Proofs.Store.Slots

/-!
# The laws of the graph in memory

Whatever calls a graph in memory has seen, its index, its nodes and its edges fit together: the index leads
to each node by its own id, every edge runs between the nodes that it names, and edges are told apart by
their keys. And whatever call comes next does what it says and no more. `IndexedGraph.Lawful` lists what this
means call by call, and `lawful_after` says that it holds after every use that begins with nothing, whatever
store the graph is kept in.

What a call does to nodes and edges is shown for the graph that stands behind them, which has no numbers and
no order in it. The list of neighbours belongs here as well. It is the only place where an edge is seen from
its two ends, and there it has to show the same edge at both.
-/

set_option autoImplicit false

namespace CodeAtlas

open Std Operation

namespace PropertyGraph

variable {g g' : PropertyGraph}

/-! ## One call -/

/-- An insertion that is refused leaves the graph as it is. -/
theorem run_upsert (g : PropertyGraph) (nodes : List Node) (edges : List Edge) :
    ((Operation.upsert nodes edges).run g).2 = (g.upsert nodes edges).toOption.getD g := by
  have hrun : ((Operation.upsert nodes edges).run g).2 =
      (Session.change (·.upsert nodes edges) g).2 := congrArg Prod.snd (Session.run_map _ _ g)
  rw [hrun]
  cases hu : g.upsert nodes edges with
  | ok g' =>
    rw [Session.run_change_ok hu]
    rfl
  | error e =>
    rw [Session.run_change_error hu]
    rfl

/-- What one call can do to a graph. -/
theorem step_cases (g : PropertyGraph) (op : Operation) :
    (op.run g).2 = g ∨
    (∃ nodes edges, op = .upsert nodes edges ∧ g.upsert nodes edges = .ok (op.run g).2) ∨
    (∃ ids, op = .delete ids ∧ (op.run g).2 = g.delete ids) ∨
    ∃ keys, op = .deleteEdges keys ∧ (op.run g).2 = g.deleteEdges keys := by
  cases op with
  | upsert nodes edges =>
    cases hu : g.upsert nodes edges with
    | ok g' =>
      refine .inr (.inl ⟨nodes, edges, rfl, ?_⟩)
      rw [run_upsert, hu]
      rfl
    | error e =>
      refine .inl ?_
      rw [run_upsert, hu]
      rfl
  | delete ids => exact .inr (.inr (.inl ⟨ids, rfl, rfl⟩))
  | deleteEdges keys => exact .inr (.inr (.inr ⟨keys, rfl, rfl⟩))
  | getNode | findNodes | neighbors | nodeCount | edgeCount | allEdges => exact .inl rfl

/-- After an insertion the last node given for an id is found, or else the one that was there. -/
theorem get_upsert_nodes {nodes : List Node} {edges : List Edge}
    (h : g.upsert nodes edges = .ok g') (id : NodeId) :
    g'.nodes[id]? = (nodes.filter (·.id = id)).getLast?.or g.nodes[id]? := by
  obtain ⟨rfl, -, -⟩ := of_upsert h
  exact Maps.get_foldl_insert Node.id nodes g.nodes id

theorem get_upsert_edges {nodes : List Node} {edges : List Edge}
    (h : g.upsert nodes edges = .ok g') (k : EdgeKey) :
    g'.edges[k]? = (edges.filter (·.key = k)).getLast?.or g.edges[k]? := by
  obtain ⟨rfl, -, -⟩ := of_upsert h
  exact Maps.get_foldl_insert Edge.key edges g.edges k

theorem keyed_empty : Keyed {} where
  nodes id node h := by simp at h
  edges k edge h := by simp at h

theorem Keyed.upsert (keyed : g.Keyed) {nodes : List Node} {edges : List Edge}
    (h : g.upsert nodes edges = .ok g') : g'.Keyed := by
  constructor
  · intro id node hn
    rw [get_upsert_nodes h] at hn
    rcases Option.or_eq_some_iff.mp hn with hn | ⟨-, hn⟩
    · simpa using (List.mem_filter.mp (List.mem_of_getLast? hn)).2
    · exact keyed.nodes id node hn
  · intro k edge he
    rw [get_upsert_edges h] at he
    rcases Option.or_eq_some_iff.mp he with he | ⟨-, he⟩
    · simpa using (List.mem_filter.mp (List.mem_of_getLast? he)).2
    · exact keyed.edges k edge he

/-- A part of a graph is found where the graph has it. -/
theorem Keyed.mono (keyed : g.Keyed)
    (hnodes : ∀ (id : NodeId) node, g'.nodes[id]? = some node → g.nodes[id]? = some node)
    (hedges : ∀ (k : EdgeKey) edge, g'.edges[k]? = some edge → g.edges[k]? = some edge) :
    g'.Keyed :=
  ⟨fun id node h => keyed.nodes id node (hnodes id node h),
    fun k edge h => keyed.edges k edge (hedges k edge h)⟩

theorem nodes_of_delete {ids : List NodeId} {id : NodeId} {node : Node}
    (h : (g.delete ids).nodes[id]? = some node) : g.nodes[id]? = some node := by
  rw [get_delete_nodes] at h
  split at h
  · cases h
  · exact h

theorem edges_of_delete {ids : List NodeId} {k : EdgeKey} {edge : Edge}
    (h : (g.delete ids).edges[k]? = some edge) : g.edges[k]? = some edge := by
  rw [get_delete_edges] at h
  split at h
  · cases h
  · exact h

theorem edges_of_deleteEdges {keys : List EdgeKey} {k : EdgeKey} {edge : Edge}
    (h : (g.deleteEdges keys).edges[k]? = some edge) : g.edges[k]? = some edge := by
  rw [get_deleteEdges] at h
  split at h
  · cases h
  · exact h

/-- Every call leaves nodes and edges under their own ids and keys. -/
theorem Keyed.step (keyed : g.Keyed) (op : Operation) : (op.run g).2.Keyed := by
  rcases step_cases g op with hsame | ⟨nodes, edges, -, hup⟩ | ⟨ids, -, hdel⟩ | ⟨keys, -, hdel⟩
  · rw [hsame]
    exact keyed
  · exact keyed.upsert hup
  · rw [hdel]
    exact keyed.mono (fun _ _ => nodes_of_delete) fun _ _ => edges_of_delete
  · rw [hdel]
    exact keyed.mono (fun _ _ h => h) fun _ _ => edges_of_deleteEdges

theorem Closed.step (closed : g.Closed) (op : Operation) : (op.run g).2.Closed := by
  rcases step_cases g op with hsame | ⟨nodes, edges, -, hup⟩ | ⟨ids, -, hdel⟩ | ⟨keys, -, hdel⟩
  · rw [hsame]
    exact closed
  · exact closed.upsert hup
  · rw [hdel]
    exact closed.delete ids
  · rw [hdel]
    exact closed.deleteEdges keys

/-- A node that is not deleted stays, and its kind with it. -/
theorem kind_step {id : NodeId} {node : Node} (h : g.nodes[id]? = some node) {op : Operation}
    (spared : ∀ ids, op = .delete ids → id ∉ ids) :
    ∃ node', (op.run g).2.nodes[id]? = some node' ∧ node'.kind = node.kind := by
  rcases step_cases g op with hsame | ⟨nodes, edges, -, hup⟩ | ⟨ids, hop, hdel⟩ | ⟨keys, -, hdel⟩
  · exact ⟨node, by rw [hsame, h], rfl⟩
  · rw [get_upsert_nodes hup, h]
    cases hlast : (nodes.filter (·.id = id)).getLast? with
    | none => exact ⟨node, rfl, rfl⟩
    | some given =>
      obtain ⟨hgiven, hid⟩ := List.mem_filter.mp (List.mem_of_getLast? hlast)
      rw [decide_eq_true_eq] at hid
      obtain ⟨-, hkinds, -⟩ := of_upsert hup
      exact ⟨given, rfl, (hkinds given hgiven node (hid ▸ h)).symm⟩
  · rw [hdel, get_delete_nodes, if_neg (spared ids hop)]
    exact ⟨node, h, rfl⟩
  · rw [hdel]
    exact ⟨node, h, rfl⟩

/-! ## Any number of calls -/

theorem keyed_after (ops : List Operation) : (after ({} : PropertyGraph) ops).Keyed :=
  List.foldlRecOn (motive := Keyed) ops _ keyed_empty fun _ keyed op _ => keyed.step op

theorem closed_after (ops : List Operation) : (after ({} : PropertyGraph) ops).Closed :=
  List.foldlRecOn (motive := Closed) ops _ closed_empty fun _ closed op _ => closed.step op

theorem after_upsert (nodes : List Node) (edges : List Edge) :
    after ({} : PropertyGraph) [.upsert nodes edges] =
      (({} : PropertyGraph).upsert nodes edges).toOption.getD {} :=
  run_upsert {} nodes edges

theorem kind_after {id : NodeId} {node : Node} (h : g.nodes[id]? = some node)
    {later : List Operation} (spared : ∀ ids, .delete ids ∈ later → id ∉ ids) :
    ∃ node', (after g later).nodes[id]? = some node' ∧ node'.kind = node.kind := by
  refine List.foldlRecOn (motive := fun g' : PropertyGraph =>
    ∃ node', g'.nodes[id]? = some node' ∧ node'.kind = node.kind) later _ ⟨node, h, rfl⟩ ?_
  rintro g' ⟨old, hold, hkind⟩ op hop
  obtain ⟨new, hnew, hsame⟩ := kind_step hold fun ids he => spared ids (he ▸ hop)
  exact ⟨new, hnew, hsame.trans hkind⟩

/-! ## Neighbours -/

/-- The hops through one edge: one for each direction in which it is followed, the one out first. -/
theorem hops_through (keyed : g.Keyed) {id : NodeId} {kinds : List EdgeKind} {direction : Direction}
    {edge : Edge} (he : edge ∈ g.allEdges) (hw : wants kinds edge.kind = true) {source target : Node}
    (hs : g.nodes[edge.source]? = some source) (ht : g.nodes[edge.target]? = some target) :
    (g.neighbors id kinds direction).filter (·.edge = edge) =
      (if direction.followsOut = true ∧ edge.source = id then [⟨edge, target, .outgoing⟩] else []) ++
      (if direction.followsIn = true ∧ edge.target = id then [⟨edge, source, .incoming⟩] else []) := by
  have hstrict := neighbors_strict keyed id kinds direction
  refine Maps.eq_of_strict (hstrict.filter _) ?_ fun hop => ?_
  · have hloop : edge.target = id → edge.source = id →
        Neighbor.compareListed ⟨edge, target, .outgoing⟩ ⟨edge, source, .incoming⟩ = .lt := by
      intro htarget hsource
      have hnodes : target.id = source.id := by
        rw [keyed.nodes _ _ ht, keyed.nodes _ _ hs, htarget, hsource]
      simp [Neighbor.compareListed, compareLex, compareOn, hnodes, Heading.rank]
      rfl
    split <;> split <;> simp_all
  · rw [List.mem_filter, mem_neighbors_iff, decide_eq_true_eq, List.mem_append,
      List.mem_ite_nil_right, List.mem_ite_nil_right, List.mem_singleton, List.mem_singleton]
    constructor
    · obtain ⟨hopEdge, node, heading⟩ := hop
      rintro ⟨⟨-, -, ⟨hd, hsource, hn, hh⟩ | ⟨hd, htarget, hn, hh⟩⟩, hedge⟩
      · cases hedge; cases hh
        rw [ht, Option.some.injEq] at hn
        exact .inl ⟨⟨hd, hsource⟩, by rw [hn]⟩
      · cases hedge; cases hh
        rw [hs, Option.some.injEq] at hn
        exact .inr ⟨⟨hd, htarget⟩, by rw [hn]⟩
    · have hk := (Maps.mem_values _ _).mp he
      rintro (⟨⟨hd, hsource⟩, rfl⟩ | ⟨⟨hd, htarget⟩, rfl⟩)
      · exact ⟨⟨hk, hw, .inl ⟨hd, hsource, ht, rfl⟩⟩, rfl⟩
      · exact ⟨⟨hk, hw, .inr ⟨hd, htarget, hs, rfl⟩⟩, rfl⟩

/-- An edge that leads out of one node leads into the other. -/
theorem outgoing_iff_incoming (keyed : g.Keyed) (closed : g.Closed) {a b : NodeId}
    {kinds : List EdgeKind} {edge : Edge} {there back : Direction} (hout : there.followsOut = true)
    (hin : back.followsIn = true) :
    (∃ hop ∈ g.neighbors a kinds there,
        hop.edge = edge ∧ hop.heading = .outgoing ∧ hop.node.id = b) ↔
      ∃ hop ∈ g.neighbors b kinds back,
        hop.edge = edge ∧ hop.heading = .incoming ∧ hop.node.id = a := by
  have node_at : ∀ {k : EdgeKey}, g.edges[k]? = some edge → ∀ id, id = edge.source ∨ id = edge.target →
      ∃ node, g.nodes[id]? = some node ∧ node.id = id := by
    intro k hk id hid
    obtain ⟨hs, ht⟩ := closed k ((Maps.contains_iff _ _).mpr ⟨edge, hk⟩)
    rw [← keyed.edges k edge hk] at hs ht
    have hthere : g.nodes.contains id = true := by
      rcases hid with rfl | rfl
      · exact hs
      · exact ht
    obtain ⟨node, hn⟩ := (Maps.contains_iff _ _).mp hthere
    exact ⟨node, hn, keyed.nodes id node hn⟩
  constructor
  · rintro ⟨hop, hm, rfl, hh, rfl⟩
    obtain ⟨⟨k, hk⟩, hw, ⟨-, hs, ht, -⟩ | ⟨-, -, -, hh'⟩⟩ := mem_neighbors_iff.mp hm
    · obtain ⟨node, hn, hid⟩ := node_at hk a (.inl hs.symm)
      refine ⟨⟨hop.edge, node, .incoming⟩, ?_, rfl, rfl, hid⟩
      exact mem_neighbors_iff.mpr ⟨⟨k, hk⟩, hw, .inr ⟨hin, (keyed.nodes _ _ ht).symm,
        by rw [hs]; exact hn, rfl⟩⟩
    · rw [hh] at hh'
      cases hh'
  · rintro ⟨hop, hm, rfl, hh, rfl⟩
    obtain ⟨⟨k, hk⟩, hw, ⟨-, -, -, hh'⟩ | ⟨-, ht, hs, -⟩⟩ := mem_neighbors_iff.mp hm
    · rw [hh] at hh'
      cases hh'
    · obtain ⟨node, hn, hid⟩ := node_at hk b (.inr ht.symm)
      refine ⟨⟨hop.edge, node, .outgoing⟩, ?_, rfl, rfl, hid⟩
      exact mem_neighbors_iff.mpr ⟨⟨k, hk⟩, hw, .inl ⟨hout, (keyed.nodes _ _ hs).symm,
        by rw [ht]; exact hn, rfl⟩⟩

end PropertyGraph

/-! ## All laws together -/

namespace IndexedGraph

open StableGraph PropertyGraph

variable {G : Type} [StableGraph G Node Edge] {s : IndexedGraph G} {g : PropertyGraph}

/-- What a list of neighbours shows of the edges at a node. -/
structure Lists (s : IndexedGraph G) (id : NodeId) (kinds : List EdgeKind) (direction : Direction)
    (hops : List Neighbor) : Prop where
  /-- Only edges that were asked for are listed. -/
  asked : ∀ hop ∈ hops, (∃ e l, link? s.graph e = some l ∧ l.weight = hop.edge) ∧
    wants kinds hop.edge.kind = true
  /-- An edge is listed once for each direction in which it is followed, a loop thus twice. -/
  through : ∀ e l, link? s.graph e = some l → wants kinds l.weight.kind = true →
    ∀ source target, StableGraph.node? s.graph l.source = some source →
    StableGraph.node? s.graph l.target = some target →
    hops.filter (·.edge = l.weight) =
      (if direction.followsOut = true ∧ l.weight.source = id then [⟨l.weight, target, .outgoing⟩]
        else []) ++
      (if direction.followsIn = true ∧ l.weight.target = id then [⟨l.weight, source, .incoming⟩]
        else [])
  ordered : hops.Pairwise fun a b => Neighbor.compareListed a b = .lt

/-- What a graph in memory promises, as it stands and for the calls to come. -/
structure Lawful (s : IndexedGraph G) : Prop where
  /-- The index leads to every node by its own id, and nowhere else. -/
  indexed : ∀ (id : NodeId) i, s.index[id]? = some i ↔
    ∃ node, StableGraph.node? s.graph i = some node ∧ node.id = id
  /-- An edge runs between the nodes that it names. -/
  ends : ∀ e l, link? s.graph e = some l → ∃ source target,
    StableGraph.node? s.graph l.source = some source ∧ source.id = l.weight.source ∧
    StableGraph.node? s.graph l.target = some target ∧ target.id = l.weight.target
  /-- Two nodes have one edge of each kind at most, though the store would take more. -/
  keys : ∀ e e' l l', link? s.graph e = some l → link? s.graph e' = some l' →
    l.weight.key = l'.weight.key → e = e'
  /-- An edge is found by its key wherever the store has it. -/
  found : ∀ (key : EdgeKey) edge, s.edge? key = some edge ↔
    edge.key = key ∧ ∃ e l, link? s.graph e = some l ∧ l.weight = edge
  getNode : ∀ id, Backend.getNode id s = (.ok (s.node? id), s)
  allEdges : ∃ edges, Backend.allEdges s = (.ok edges, s) ∧ (edges.map Edge.key).Nodup ∧
    ∀ edge, edge ∈ edges ↔ s.edge? edge.key = some edge
  /-- A node keeps its kind until it is deleted. -/
  kind : ∀ (later : List Operation) (id : NodeId) (node : Node), s.node? id = some node →
    (∀ ids, .delete ids ∈ later → id ∉ ids) →
    ∃ node', (after s later).node? id = some node' ∧ node'.kind = node.kind
  refused : ∀ nodes edges e s', Backend.upsert nodes edges s = (.error e, s') → s' = s
  /-- Of several items with one identity the last stays, and all else is as it was. -/
  accepted : ∀ nodes edges s', Backend.upsert nodes edges s = (.ok (), s') →
    (∀ id, s'.node? id = (nodes.filter (·.id = id)).getLast?.or (s.node? id)) ∧
    ∀ key, s'.edge? key = (edges.filter (·.key = key)).getLast?.or (s.edge? key)
  deleted : ∀ ids, ∃ s', Backend.delete ids s = (.ok (), s') ∧
    (∀ id, s'.node? id = if id ∈ ids then none else s.node? id) ∧
    ∀ key : EdgeKey, s'.edge? key =
      if key.source ∈ ids ∨ key.target ∈ ids then none else s.edge? key
  deletedEdges : ∀ keys, ∃ s', Backend.deleteEdges keys s = (.ok (), s') ∧
    (∀ id, s'.node? id = s.node? id) ∧
    ∀ key, s'.edge? key = if key ∈ keys then none else s.edge? key
  neighbors : ∀ id kinds direction, ∃ hops, Backend.neighbors id kinds direction s = (.ok hops, s) ∧
    s.Lists id kinds direction hops
  /-- The far end of an edge sees it too, from the other side. -/
  bothEnds : ∀ a b kinds edge there back out in_, there.followsOut = true → back.followsIn = true →
    Backend.neighbors a kinds there s = (.ok out, s) →
    Backend.neighbors b kinds back s = (.ok in_, s) →
    ((∃ hop ∈ out, hop.edge = edge ∧ hop.heading = .outgoing ∧ hop.node.id = b) ↔
      ∃ hop ∈ in_, hop.edge = edge ∧ hop.heading = .incoming ∧ hop.node.id = a)

variable [LawfulStableGraph G Node Edge]

theorem Holds.node?_of_link (h : s.Holds g) {e : Nat} {l : Link Edge}
    (hl : link? s.graph e = some l) (heading : Heading) :
    ∃ node, StableGraph.node? s.graph (l.near heading) = some node ∧
      node.id = nearId l.weight heading ∧ g.nodes[nearId l.weight heading]? = some node := by
  obtain ⟨node, hnode, hfound⟩ := h.sound.node?_of_index (h.sound.index_near hl heading)
  rw [← h.nodes] at hfound
  exact ⟨node, hnode, h.keyed.nodes _ _ hfound, hfound⟩

theorem Holds.lists (h : s.Holds g) (id : NodeId) (kinds : List EdgeKind) (direction : Direction) :
    s.Lists id kinds direction (g.neighbors id kinds direction) where
  asked hop hhop := by
    obtain ⟨hk, hw, -⟩ := mem_neighbors_iff.mp hhop
    exact ⟨(h.mem_edges_iff _).mpr ((Maps.mem_values _ _).mpr hk), hw⟩
  through e l hl hw source target hs ht := by
    obtain ⟨source', hs', -, hsource⟩ := h.node?_of_link hl .outgoing
    obtain ⟨target', ht', -, htarget⟩ := h.node?_of_link hl .incoming
    cases hs.symm.trans hs'
    cases ht.symm.trans ht'
    exact hops_through h.keyed ((h.mem_edges_iff _).mp ⟨e, l, hl, rfl⟩) hw hsource htarget
  ordered := neighbors_strict h.keyed id kinds direction

theorem Holds.lawful (h : s.Holds g) : s.Lawful where
  indexed := h.sound.indexed
  ends e l hl := by
    obtain ⟨source, hs, hsid, -⟩ := h.node?_of_link hl .outgoing
    obtain ⟨target, ht, htid, -⟩ := h.node?_of_link hl .incoming
    exact ⟨source, target, hs, hsid, ht, htid⟩
  keys := h.sound.single
  found _ _ := h.sound.edge?_eq_some_iff
  getNode id := by
    rw [← h.nodes]
    exact congrArg (·, s) (h.getNode id)
  allEdges := by
    refine ⟨g.allEdges, congrArg (fun edges => (Except.ok edges, s)) h.allEdges,
      h.keyed.nodup_keys, fun edge => ?_⟩
    rw [← h.edges, PropertyGraph.allEdges, Maps.mem_values]
    constructor
    · rintro ⟨k, hk⟩
      rwa [h.keyed.edges k _ hk]
    · exact fun hk => ⟨_, hk⟩
  kind later id node hnode spared := by
    rw [← h.nodes] at hnode
    obtain ⟨node', hnode', hkind⟩ := kind_after hnode spared
    exact ⟨node', ((h.after later).nodes id).symm.trans hnode', hkind⟩
  refused nodes edges e s' hrun := by
    rcases h.upsert nodes edges with ⟨e', -, hrun'⟩ | ⟨g', t, -, hrun', -⟩
    · exact (Prod.mk.inj (hrun.symm.trans hrun')).2
    · cases hrun.symm.trans hrun'
  accepted nodes edges s' hrun := by
    rcases h.upsert nodes edges with ⟨e', -, hrun'⟩ | ⟨g', t, hup, hrun', ht⟩
    · cases hrun.symm.trans hrun'
    · obtain rfl := (Prod.mk.inj (hrun.symm.trans hrun')).2
      refine ⟨fun id => ?_, fun key => ?_⟩
      · rw [← ht.nodes, ← h.nodes, get_upsert_nodes hup]
      · rw [← ht.edges, ← h.edges, get_upsert_edges hup]
  deleted ids := by
    have hdelete := h.delete ids
    refine ⟨_, rfl, fun id => ?_, fun key => ?_⟩
    · rw [← hdelete.nodes, ← h.nodes, get_delete_nodes]
    · rw [← hdelete.edges, ← h.edges, get_delete_edges]
  deletedEdges keys := by
    have hdelete := h.deleteEdges keys
    refine ⟨_, rfl, fun id => ?_, fun key => ?_⟩
    · rw [← hdelete.nodes, ← h.nodes]
      rfl
    · rw [← hdelete.edges, ← h.edges, get_deleteEdges]
  neighbors id kinds direction :=
    ⟨_, congrArg (·, s) (h.neighbors id kinds direction), h.lists id kinds direction⟩
  bothEnds a b kinds edge there back out in_ hout hin houtRun hinRun := by
    have hthere := (congrArg (·, s) (h.neighbors a kinds there)).symm.trans houtRun
    have hback := (congrArg (·, s) (h.neighbors b kinds back)).symm.trans hinRun
    cases hthere
    cases hback
    exact outgoing_iff_incoming h.keyed h.closed hout hin

/-- Whatever calls were made, the graph in memory is lawful. -/
theorem lawful_after (ops : List Operation) : (after (∅ : IndexedGraph G) ops).Lawful :=
  (holds_after ops).lawful

/-- A function that calls itself and another one. The first insertion gives a node twice, the next two
are refused, and the last one gives an edge again. -/
def sampleCalls : List Operation :=
  [.upsert
    [⟨⟨"f"⟩, .function, "f", ∅⟩, ⟨⟨"g"⟩, .function, "g", ∅⟩, ⟨⟨"g"⟩, .function, "again", ∅⟩]
    [⟨⟨"f"⟩, ⟨"g"⟩, .calls, ∅⟩, ⟨⟨"f"⟩, ⟨"f"⟩, .calls, ∅⟩],
   .upsert [⟨⟨"h"⟩, .function, "h", ∅⟩, ⟨⟨"f"⟩, .procedure, "f", ∅⟩] [],
   .upsert [⟨⟨"h"⟩, .function, "h", ∅⟩] [⟨⟨"h"⟩, ⟨"k"⟩, .calls, ∅⟩],
   .upsert [] [⟨⟨"f"⟩, ⟨"g"⟩, .calls, .ofList [("line", .int 3)]⟩]]

/-- Two nodes and two links are left in the slots, and the first link has been written over. -/
theorem lawful_after_slots :
    LawfulStableGraph (SlotGraph Node Edge) Node Edge ∧
      (after (∅ : IndexedGraph (SlotGraph Node Edge)) sampleCalls).Lawful ∧
      (nodes (after (∅ : IndexedGraph (SlotGraph Node Edge)) sampleCalls).graph).map
        (fun (i, node) => (i, node.displayName)) = [(0, "f"), (1, "again")] ∧
      (links (after (∅ : IndexedGraph (SlotGraph Node Edge)) sampleCalls).graph).map
        (fun (e, l) => (e, l.source, l.target, l.weight.props["line"]?)) =
          [(0, 0, 1, some (.int 3)), (1, 0, 0, none)] :=
  ⟨inferInstance, lawful_after sampleCalls, by decide +kernel, by decide +kernel⟩

end IndexedGraph

end CodeAtlas
