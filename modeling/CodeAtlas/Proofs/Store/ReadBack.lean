import CodeAtlas.Proofs.Store.Agreement
import CodeAtlas.Proofs.Store.Encoding

/-!
# What comes back from stored rows

An insertion writes whatever bags it is given, and nothing is looked at again before somebody asks. So
rows hold the same nodes and edges as a graph in memory after the same calls (`holds_after`), and what
the rows are read as is a question about single bags. It comes out the same whether a row is taken as
the bag that it was written from or as the text that stands in the database (`Tables.inText`).

Floats are the weak spot. One that is no finite number is written as null and takes its row with it,
and with the row every call that lists it. Some finite ones come back as their neighbours.
-/

set_option autoImplicit false

namespace CodeAtlas

open Std Operation

/-! ## Graphs as they are read -/

/-- The node with its bag as it is read. -/
def Node.asRead (node : Node) : Node := { node with props := node.props.asRead }

/-- The edge with its bag as it is read. -/
def Edge.asRead (edge : Edge) : Edge := { edge with props := edge.props.asRead }

namespace PropertyGraph

variable {g : PropertyGraph}

/-- The property bags of the nodes and edges. -/
def bags (g : PropertyGraph) : List Props :=
  g.nodes.values.map (·.props) ++ g.edges.values.map (·.props)

/-- The floats in all bags. -/
def floats (g : PropertyGraph) : List Float := g.bags.flatMap (·.floats)

/-- The graph with every float as it is after it was written and read again, where it can be. -/
def asRead (g : PropertyGraph) : PropertyGraph where
  nodes := g.nodes.map fun _ node => node.asRead
  edges := g.edges.map fun _ edge => edge.asRead

theorem node_bag {id : NodeId} {node : Node} (h : g.nodes[id]? = some node) : node.props ∈ g.bags :=
  List.mem_append_left _ (List.mem_map_of_mem ((Maps.mem_values _ _).mpr ⟨id, h⟩))

theorem edge_bag {k : EdgeKey} {edge : Edge} (h : g.edges[k]? = some edge) : edge.props ∈ g.bags :=
  List.mem_append_right _ (List.mem_map_of_mem ((Maps.mem_values _ _).mpr ⟨k, h⟩))

theorem mem_bags {props : Props} : props ∈ g.bags ↔
    (∃ (id : NodeId) (node : Node), g.nodes[id]? = some node ∧ node.props = props) ∨
      ∃ (k : EdgeKey) (edge : Edge), g.edges[k]? = some edge ∧ edge.props = props := by
  simp only [bags, List.mem_append, List.mem_map, Maps.mem_values]
  constructor
  · rintro (⟨node, ⟨id, h⟩, rfl⟩ | ⟨edge, ⟨k, h⟩, rfl⟩)
    · exact .inl ⟨id, node, h, rfl⟩
    · exact .inr ⟨k, edge, h, rfl⟩
  · rintro (⟨id, node, h, rfl⟩ | ⟨k, edge, h, rfl⟩)
    · exact .inl ⟨node, ⟨id, h⟩, rfl⟩
    · exact .inr ⟨edge, ⟨k, h⟩, rfl⟩

theorem floats_of_bag {props : Props} (h : props ∈ g.bags) {x : Float} (hx : x ∈ props.floats) :
    x ∈ g.floats := List.mem_flatMap.mpr ⟨props, h, hx⟩

theorem Keyed.asRead (keyed : g.Keyed) : g.asRead.Keyed where
  nodes id node h := by
    rw [PropertyGraph.asRead, ExtTreeMap.getElem?_map] at h
    obtain ⟨old, hold, rfl⟩ := Option.map_eq_some_iff.mp h
    exact keyed.nodes id old hold
  edges k edge h := by
    rw [PropertyGraph.asRead, ExtTreeMap.getElem?_map] at h
    obtain ⟨old, hold, rfl⟩ := Option.map_eq_some_iff.mp h
    exact keyed.edges k old hold

theorem asRead_eq_self (h : ∀ x ∈ g.floats, Json.reread? x = some x) : g.asRead = g := by
  have hnodes : g.asRead.nodes = g.nodes := by
    apply ExtTreeMap.ext_getElem?
    intro id
    rw [asRead, ExtTreeMap.getElem?_map]
    cases hn : g.nodes[id]? with
    | none => rfl
    | some node =>
      have hbag := Props.asRead_of_floats fun x hx => h x (floats_of_bag (node_bag hn) hx)
      rw [Option.map_some, Node.asRead, hbag]
  have hedges : g.asRead.edges = g.edges := by
    apply ExtTreeMap.ext_getElem?
    intro k
    rw [asRead, ExtTreeMap.getElem?_map]
    cases he : g.edges[k]? with
    | none => rfl
    | some edge =>
      have hbag := Props.asRead_of_floats fun x hx => h x (floats_of_bag (edge_bag he) hx)
      rw [Option.map_some, Edge.asRead, hbag]
  show mk g.asRead.nodes g.asRead.edges = mk g.nodes g.edges
  rw [hnodes, hedges]

theorem allEdges_asRead (g : PropertyGraph) : g.asRead.allEdges = g.allEdges.map Edge.asRead := by
  rw [allEdges, allEdges, asRead, Maps.values_eq_map_toList, Maps.values_eq_map_toList,
    ExtTreeMap.toList_map, List.map_map, List.map_map]
  rfl

end PropertyGraph

/-- A float that a bag is read with as it was stored. -/
theorem Props.reread?_of_asRead {props : Props} (h : props.asRead = props) {x : Float}
    (hx : x ∈ props.floats) (readable : (Json.reread? x).isSome) : Json.reread? x = some x := by
  obtain ⟨name, hn⟩ := mem_floats.mp hx
  obtain ⟨y, hy⟩ := Option.isSome_iff_exists.mp readable
  have hsame : props.asRead[name]? = props[name]? := congrArg (·[name]?) h
  rw [asRead, ExtTreeMap.getElem?_map, hn, Option.map_some, PropValue.asRead, hy] at hsame
  rw [hy]
  exact congrArg some (PropValue.float.inj (Option.some.inj hsame))

/-! ## Rows as texts -/

/-- The tables with every bag as the text that stands in the database. -/
def Tables.inText (t : Tables) : Tables :=
  { t with
    nodes := t.nodes.map fun _ row => { row with props := .foreign row.props.text }
    edges := t.edges.map fun _ row => { row with props := .foreign row.props.text } }

namespace Tables

variable {t : Tables} {g : PropertyGraph}

/-- Whether the rows of tables are read as the bags of a graph are read again. -/
structure Rereads (t : Tables) (g : PropertyGraph) : Prop where
  keyed : g.Keyed
  nodes : (t.nodes.map fun _ row => shownRow row) =
    g.nodes.map fun _ node => (node.kind.tag, node.displayName, node.props.reread?)
  edges : ∀ k : EdgeKey,
    t.edges[EdgeRowKey.ofKey k]?.map (·.props.read?) = g.edges[k]?.map (·.props.reread?)
  spelled : ∀ (key : EdgeRowKey) row, t.edges[key]? = some row → ∃ k, key = EdgeRowKey.ofKey k

theorem Holds.rereads (h : t.Holds g) : t.Rereads g where
  keyed := h.keyed
  nodes := by
    rw [h.nodes, ExtTreeMap.map_map]
    rfl
  edges k := by
    have hprops := congrArg (Option.map StoredProps.read?) (h.edges.props k)
    rw [Option.map_map, Option.map_map] at hprops
    exact hprops
  spelled := h.edges.spelled

theorem read?_text {props : Props} (h : props.Words) :
    (StoredProps.foreign (StoredProps.written props).text).read? = props.reread? :=
  Props.parse?_toJson h

theorem Holds.rereads_inText (h : t.Holds g) (words : ∀ props ∈ g.bags, props.Words) :
    t.inText.Rereads g where
  keyed := h.keyed
  nodes := by
    apply ExtTreeMap.ext_getElem?
    intro id
    simp only [inText, ExtTreeMap.getElem?_map, h.get_nodes]
    cases hn : g.nodes[id]? with
    | none => rfl
    | some node =>
      have hread := read?_text (words node.props (PropertyGraph.node_bag hn))
      simp only [Option.map_some, shownRow, rowOf, hread]
  edges k := by
    have hprops := h.edges.props k
    simp only [inText, ExtTreeMap.getElem?_map, Option.map_map]
    cases he : g.edges[k]? with
    | none =>
      rw [he, Option.map_none, Option.map_eq_none_iff] at hprops
      rw [hprops]
      rfl
    | some edge =>
      rw [he, Option.map_some] at hprops
      obtain ⟨row, hrow, hsame⟩ := Option.map_eq_some_iff.mp hprops
      have hread := read?_text (words edge.props (PropertyGraph.edge_bag he))
      simp only [hrow, Option.map_some, Function.comp_apply, hsame, hread]
  spelled key row hrow := by
    rw [inText, ExtTreeMap.getElem?_map] at hrow
    obtain ⟨old, hold, -⟩ := Option.map_eq_some_iff.mp hrow
    exact h.edges.spelled key old hold

theorem read?_of_decodeProps {table : String} {stored : StoredProps} {props : Props}
    (h : decodeProps table stored = .ok props) : stored.read?.isSome := by
  unfold decodeProps at h
  split at h
  next hread =>
    rw [hread]
    rfl
  next => cases h

theorem read?_of_decodeNode {id : NodeId} {row : NodeRow} {node : Node}
    (h : decodeNode id row = .ok node) : row.props.read?.isSome := by
  unfold decodeNode at h
  split at h
  next => cases h
  next =>
    obtain ⟨props, hprops, -⟩ := Except.of_bind_ok h
    exact read?_of_decodeProps hprops

theorem read?_of_decodeEdge {key : EdgeRowKey} {row : EdgeRow} {edge : Edge}
    (h : decodeEdge key row = .ok edge) : row.props.read?.isSome := by
  unfold decodeEdge at h
  split at h
  next => cases h
  next =>
    obtain ⟨props, hprops, -⟩ := Except.of_bind_ok h
    exact read?_of_decodeProps hprops

namespace Rereads

/-- If all floats can be read, the tables show the graph as it is read. -/
theorem shows (h : t.Rereads g) (readable : ∀ x ∈ g.floats, (Json.reread? x).isSome) :
    t.Shows g.asRead where
  keyed := h.keyed.asRead
  nodes := by
    rw [h.nodes]
    apply ExtTreeMap.ext_getElem?
    intro id
    simp only [PropertyGraph.asRead, ExtTreeMap.getElem?_map, Option.map_map]
    cases hn : g.nodes[id]? with
    | none => rfl
    | some node =>
      have hread := Props.reread?_eq_asRead fun x hx =>
        readable x (PropertyGraph.floats_of_bag (PropertyGraph.node_bag hn) hx)
      simp only [Option.map_some, Function.comp_apply, shownNode, Node.asRead, hread]
  edges k := by
    rw [h.edges, PropertyGraph.asRead, ExtTreeMap.getElem?_map, Option.map_map]
    cases he : g.edges[k]? with
    | none => rfl
    | some edge =>
      have hread := Props.reread?_eq_asRead fun x hx =>
        readable x (PropertyGraph.floats_of_bag (PropertyGraph.edge_bag he) hx)
      simp only [Option.map_some, Function.comp_apply, Edge.asRead, hread]
  spelled := h.spelled

/-- Whoever lists the nodes reads the bag of each. -/
theorem readable_of_find (h : t.Rereads g) {nodes : List Node} (hfind : t.find none {} = .ok nodes)
    {id : NodeId} {node : Node} (hn : g.nodes[id]? = some node) : node.props.reread?.isSome := by
  have hshown := congrArg (·[id]?) h.nodes
  simp only [ExtTreeMap.getElem?_map, hn, Option.map_some] at hshown
  obtain ⟨row, hrow, hsame⟩ := Option.map_eq_some_iff.mp hshown
  have hprops : row.props.read? = node.props.reread? := congrArg (·.2.2) hsame
  have hlisted : (id, row) ∈ t.nodes.toList.filter fun row =>
      (none : Option NodeKind).all (·.tag == row.2.kind) :=
    List.mem_filter.mpr ⟨ExtTreeMap.mem_toList_iff_getElem?_eq_some.mpr hrow, rfl⟩
  obtain ⟨found, hfound, -⟩ := Except.of_bind_ok hfind
  obtain ⟨read, hread⟩ := ok_of_mapM hfound hlisted
  rw [← hprops]
  exact read?_of_decodeNode hread

/-- Whoever lists the edges reads the bag of each. -/
theorem readable_of_allEdges (h : t.Rereads g) {edges : List Edge} (hall : t.allEdges = .ok edges)
    {k : EdgeKey} {edge : Edge} (he : g.edges[k]? = some edge) : edge.props.reread?.isSome := by
  have hshown := h.edges k
  rw [he, Option.map_some] at hshown
  obtain ⟨row, hrow, hprops⟩ := Option.map_eq_some_iff.mp hshown
  have hlisted : (EdgeRowKey.ofKey k, row) ∈ byAge t.edges.toList :=
    List.mem_mergeSort.mpr (ExtTreeMap.mem_toList_iff_getElem?_eq_some.mpr hrow)
  obtain ⟨found, hfound, -⟩ := Except.of_bind_ok hall
  obtain ⟨read, hread⟩ := ok_of_mapM hfound hlisted
  rw [← hprops]
  exact read?_of_decodeEdge hread

end Rereads

end Tables

/-! ## All calls -/

namespace Operation

/-- The property bags that a call stores. -/
def bags : Operation → List Props
  | upsert nodes edges => nodes.map (·.props) ++ edges.map (·.props)
  | _ => []

/-- A bag in the graph was there before a call or came with it. -/
theorem bags_step {g : PropertyGraph} {op : Operation} {props : Props}
    (h : props ∈ (op.run g).2.bags) : props ∈ g.bags ∨ props ∈ op.bags := by
  rcases PropertyGraph.step_cases g op with hsame | ⟨nodes, edges, rfl, hup⟩ | ⟨ids, -, hdel⟩ |
    ⟨keys, -, hdel⟩
  · exact .inl (hsame ▸ h)
  · rcases PropertyGraph.mem_bags.mp h with ⟨id, node, hn, rfl⟩ | ⟨k, edge, he, rfl⟩
    · rw [PropertyGraph.get_upsert_nodes hup] at hn
      rcases Option.or_eq_some_iff.mp hn with hn | ⟨-, hn⟩
      · have hnode := (List.mem_filter.mp (List.mem_of_getLast? hn)).1
        exact .inr (List.mem_append_left _ (List.mem_map_of_mem hnode))
      · exact .inl (PropertyGraph.node_bag hn)
    · rw [PropertyGraph.get_upsert_edges hup] at he
      rcases Option.or_eq_some_iff.mp he with he | ⟨-, he⟩
      · have hedge := (List.mem_filter.mp (List.mem_of_getLast? he)).1
        exact .inr (List.mem_append_right _ (List.mem_map_of_mem hedge))
      · exact .inl (PropertyGraph.edge_bag he)
  · rw [hdel] at h
    rcases PropertyGraph.mem_bags.mp h with ⟨id, node, hn, rfl⟩ | ⟨k, edge, he, rfl⟩
    · exact .inl (PropertyGraph.node_bag (PropertyGraph.nodes_of_delete hn))
    · exact .inl (PropertyGraph.edge_bag (PropertyGraph.edges_of_delete he))
  · rw [hdel] at h
    rcases PropertyGraph.mem_bags.mp h with ⟨id, node, hn, rfl⟩ | ⟨k, edge, he, rfl⟩
    · exact .inl (PropertyGraph.node_bag hn)
    · exact .inl (PropertyGraph.edge_bag (PropertyGraph.edges_of_deleteEdges he))

/-- Every bag in the graph came with one of the calls. -/
theorem bags_after {ops : List Operation} {props : Props}
    (h : props ∈ (after ({} : PropertyGraph) ops).bags) : ∃ op ∈ ops, props ∈ op.bags := by
  have hrun : ∀ (ops : List Operation) (g : PropertyGraph), props ∈ (after g ops).bags →
      props ∈ g.bags ∨ ∃ op ∈ ops, props ∈ op.bags := by
    intro ops
    induction ops with
    | nil => exact fun g h => .inl h
    | cons op rest ih =>
      intro g h
      rcases ih _ h with h | ⟨later, hl, h⟩
      · exact (bags_step h).imp_right fun h => ⟨op, List.mem_cons_self, h⟩
      · exact .inr ⟨later, List.mem_cons_of_mem op hl, h⟩
  refine (hrun ops {} h).resolve_left fun hempty => ?_
  rcases PropertyGraph.mem_bags.mp hempty with ⟨id, node, hn, -⟩ | ⟨k, edge, he, -⟩
  · simp at hn
  · simp at he

/-- A change is made, or it is refused and leaves all as it was. -/
theorem run_change {σ : Type} (step : σ → Except GraphError σ) (s : σ) :
    (((fun _ => Reply.done) <$> Session.change step) s).2 = (step s).toOption.getD s := by
  rw [Session.run_map, Session.change]
  cases step s <;> rfl

/-- Tables go on holding the graph, whatever bags are stored. -/
theorem holds_step {t : Tables} {g : PropertyGraph} (h : t.Holds g) (op : Operation) :
    (op.run t).2.Holds (op.run g).2 := by
  by_cases asks : op.Asks
  · rw [rows_of_asks t asks, graph_of_asks g asks]
    exact h
  cases op with
  | getNode | findNodes | neighbors | nodeCount | edgeCount | allEdges => exact absurd trivial asks
  | delete ids => exact h.delete ids
  | deleteEdges keys => exact h.deleteEdges keys
  | upsert nodes edges =>
    have hrows : ((Operation.upsert nodes edges).run t).2 = (t.upsert nodes edges).toOption.getD t :=
      run_change (fun t : Tables => t.upsert nodes edges) t
    have hgraph : ((Operation.upsert nodes edges).run g).2 = (g.upsert nodes edges).toOption.getD g :=
      run_change (fun g : PropertyGraph => g.upsert nodes edges) g
    rw [hrows, hgraph]
    rcases h.upsert nodes edges with ⟨e, ht, hg⟩ | ⟨t', g', ht, hg, hholds⟩
    · rw [ht, hg]
      exact h
    · rw [ht, hg]
      exact hholds

theorem holds_after (ops : List Operation) :
    (after ({} : Tables) ops).Holds (after ({} : PropertyGraph) ops) := by
  have hrun : ∀ (ops : List Operation) {t : Tables} {g : PropertyGraph}, t.Holds g →
      (after t ops).Holds (after g ops) := by
    intro ops
    induction ops with
    | nil => exact fun h => h
    | cons op rest ih => exact fun h => ih (holds_step h op)
  exact hrun ops Tables.holds_empty

/-- A graph in memory has an answer to every question. -/
theorem graph_answers (g : PropertyGraph) {op : Operation} (asks : op.Asks) :
    ∃ reply, (op.run g).1 = .ok reply := by
  cases op with
  | getNode | findNodes | neighbors | nodeCount | edgeCount | allEdges => exact ⟨_, rfl⟩
  | upsert | delete | deleteEdges => cases asks

section Questions

variable {t : Tables} {g : PropertyGraph}

/-- Rows whose floats can be read answer as the graph with its floats read again. -/
theorem answers_asRead (h : t.Rereads g) (readable : ∀ x ∈ g.floats, (Json.reread? x).isSome)
    {op : Operation} (asks : op.Asks) : (op.run t).1 = (op.run g.asRead).1 :=
  answers_of_shows (h.shows readable) asks

theorem readable_of_answers (h : t.Rereads g)
    (answered : ∀ op : Operation, op.Asks → ∃ reply, (op.run t).1 = .ok reply) :
    ∀ x ∈ g.floats, (Json.reread? x).isSome := by
  have hnodes : ((Operation.findNodes none {}).run t).1 = (t.find none {}).map Reply.nodes :=
    congrArg Prod.fst (Session.run_map _ _ t)
  have hedges : (Operation.allEdges.run t).1 = t.allEdges.map Reply.edges :=
    congrArg Prod.fst (Session.run_map _ _ t)
  obtain ⟨_, hfound⟩ := answered (.findNodes none {}) trivial
  obtain ⟨_, hlisted⟩ := answered .allEdges trivial
  obtain ⟨nodes, hfind, -⟩ := Except.of_map_ok (hnodes.symm.trans hfound)
  obtain ⟨edges, hall, -⟩ := Except.of_map_ok (hedges.symm.trans hlisted)
  intro x hx
  obtain ⟨props, hbag, hx⟩ := List.mem_flatMap.mp hx
  rcases PropertyGraph.mem_bags.mp hbag with ⟨id, node, hn, rfl⟩ | ⟨k, edge, he, rfl⟩
  · exact Props.isSome_of_reread? (h.readable_of_find hfind hn) hx
  · exact Props.isSome_of_reread? (h.readable_of_allEdges hall he) hx

/-- No question fails just if every float can be read. -/
theorem answered_iff (h : t.Rereads g) :
    (∀ op : Operation, op.Asks → ∃ reply, (op.run t).1 = .ok reply) ↔
      ∀ x ∈ g.floats, (Json.reread? x).isSome := by
  refine ⟨readable_of_answers h, fun readable op asks => ?_⟩
  rw [answers_asRead h readable asks]
  exact graph_answers g.asRead asks

/-- All answers are those of the graph just if every float is read as it was stored. -/
theorem answers_eq_iff (h : t.Rereads g) :
    (∀ op : Operation, op.Asks → (op.run t).1 = (op.run g).1) ↔
      ∀ x ∈ g.floats, Json.reread? x = some x := by
  constructor
  · intro same
    have readable := readable_of_answers h fun op asks => same op asks ▸ graph_answers g asks
    have hasRead : ∀ op : Operation, op.Asks → (op.run g.asRead).1 = (op.run g).1 :=
      fun op asks => (answers_asRead h readable asks).symm.trans (same op asks)
    intro x hx
    have hreadable := readable x hx
    obtain ⟨props, hbag, hx⟩ := List.mem_flatMap.mp hx
    refine Props.reread?_of_asRead ?_ hx hreadable
    rcases PropertyGraph.mem_bags.mp hbag with ⟨id, node, hn, rfl⟩ | ⟨k, edge, he, rfl⟩
    · have hget : g.asRead.get? id = g.get? id :=
        Reply.node.inj (Except.ok.inj (hasRead (.getNode id) trivial))
      rw [PropertyGraph.get?, PropertyGraph.get?, PropertyGraph.asRead, ExtTreeMap.getElem?_map, hn,
        Option.map_some] at hget
      exact congrArg Node.props (Option.some.inj hget)
    · have hall : g.asRead.allEdges = g.allEdges :=
        Reply.edges.inj (Except.ok.inj (hasRead .allEdges trivial))
      rw [PropertyGraph.allEdges_asRead] at hall
      have hedge := List.map_inj_left.mp (hall.trans (List.map_id _).symm) edge
        ((Maps.mem_values _ _).mpr ⟨k, he⟩)
      exact congrArg Edge.props hedge
  · intro exactly op asks
    rw [answers_asRead h (fun x hx => by simp [exactly x hx]) asks,
      PropertyGraph.asRead_eq_self exactly]

end Questions

/-- What rows give back after any calls, taken as the bags that were stored or as the texts in the
database. No question fails just if every float that is stored can be read. If so, the answers are
those of the graph in memory, with all floats read again and all else as it was stored. They are
exactly those of the graph in memory just if every float is read as it was stored. -/
theorem reads_back (ops : List Operation) (words : ∀ op ∈ ops, ∀ props ∈ op.bags, props.Words) :
    let g := after ({} : PropertyGraph) ops
    ∀ t ∈ [after ({} : Tables) ops, (after ({} : Tables) ops).inText],
      ((∀ op : Operation, op.Asks → ∃ reply, (op.run t).1 = .ok reply) ↔
        ∀ x ∈ g.floats, (Json.reread? x).isSome) ∧
      ((∀ x ∈ g.floats, (Json.reread? x).isSome) →
        ∀ op : Operation, op.Asks → (op.run t).1 = (op.run g.asRead).1) ∧
      ((∀ op : Operation, op.Asks → (op.run t).1 = (op.run g).1) ↔
        ∀ x ∈ g.floats, Json.reread? x = some x) := by
  intro g t ht
  have hholds := holds_after ops
  have hwords : ∀ props ∈ g.bags, props.Words := by
    intro props hp
    obtain ⟨op, hop, hprops⟩ := bags_after hp
    exact words op hop props hprops
  have h : t.Rereads g := by
    rcases List.mem_pair.mp ht with rfl | rfl
    · exact hholds.rereads
    · exact hholds.rereads_inText hwords
  exact ⟨answered_iff h, fun readable op asks => answers_asRead h readable asks, answers_eq_iff h⟩

/-- A node with a property of every sort, replaced once, and an edge with an integer. -/
def sampleBags : List Operation :=
  [.upsert [⟨⟨"f"⟩, .function, "f", .ofList [("weight", .text "heavy")]⟩] [],
   .upsert [⟨⟨"f"⟩, .function, "f", .ofList [("weight", .float 2.0), ("done", .bool true),
      ("name", .text "a \"b\"\n"), ("tags", .list ["1", ""])]⟩]
     [⟨⟨"f"⟩, ⟨"f"⟩, .calls, .ofList [("line", .int (-9223372036854775808))]⟩]]

theorem reads_back_sample :
    (after ({} : PropertyGraph) sampleBags).floats = [2.0] ∧
      ∀ op : Operation, op.Asks → (op.run (after ({} : Tables) sampleBags).inText).1 =
        (op.run (after ({} : PropertyGraph) sampleBags)).1 := by
  have hfloats : (after ({} : PropertyGraph) sampleBags).floats = [2.0] := by decide +kernel
  have words : ∀ op ∈ sampleBags, ∀ props ∈ op.bags, props.Words := by decide +kernel
  refine ⟨hfloats, ?_⟩
  have hread := reads_back sampleBags words _ (List.mem_pair.mpr (.inr rfl))
  refine hread.2.2.mpr fun x hx => ?_
  rw [hfloats, List.mem_singleton] at hx
  subst hx
  decide +kernel

/-- A node with a float that is no finite number, and one with a finite float. -/
def oddFloats : List Operation :=
  [.upsert [⟨⟨"f"⟩, .function, "f", .ofList [("x", .float (1 / 0))]⟩,
    ⟨⟨"g"⟩, .function, "g", .ofList [("x", .float 2.209414e-23)]⟩] []]

/-- Both nodes are stored. Then the first cannot be read, neither by itself nor in a list, and the second
is read with another float. -/
theorem floats_are_lost :
    replies ({} : Tables) oddFloats = [.ok .done] ∧
      replies (after ({} : Tables) oddFloats).inText
          [.getNode ⟨"f"⟩, .findNodes none {}, .getNode ⟨"g"⟩] =
        [.error (.unavailable "Corrupt row in nodes: bad props json"),
         .error (.unavailable "Corrupt row in nodes: bad props json"),
         .ok (.node (some ⟨⟨"g"⟩, .function, "g",
           .ofList [("x", .float 2.2094140000000002e-23)]⟩))] ∧
      (2.2094140000000002e-23 : Float) ≠ 2.209414e-23 := by
  decide +kernel

end Operation

end CodeAtlas
