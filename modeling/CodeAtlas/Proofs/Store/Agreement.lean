import CodeAtlas.Proofs.Store.Rows

/-!
# Rows and graphs answer alike

Whoever makes the same calls on an empty graph in memory and on empty tables gets the same answers
(`replies_rows_eq`). For the tables hold the graph at first, and every call keeps it so: it changes both
in the same way, or it is refused by both for the same reason.

Two things are worth a second look. The kind under which an id is known is looked up among the nodes of
the same call first by the one and last by the other, and only because kinds are never replaced do they
come to the same (`Bears`). And a property bag comes back from its row only as far as its floats do.
-/

set_option autoImplicit false

namespace CodeAtlas

open Std

/-! ## Accepting -/

namespace PropertyGraph

variable {g : PropertyGraph} {accepted kinds : ExtTreeMap NodeId NodeKind}

/-- Whether the kinds accepted so far are those of the nodes that are there. -/
def Bears (g : PropertyGraph) (accepted : ExtTreeMap NodeId NodeKind) : Prop :=
  ∀ (id : NodeId) kind old, accepted[id]? = some kind → g.nodes[id]? = some old → old.kind = kind

theorem bears_empty : g.Bears ∅ := by
  intro id kind old h
  simp at h

theorem Bears.insert (h : g.Bears accepted) {node : Node}
    (hkind : ∀ existing, g.kindOf? accepted node.id = some existing → existing = node.kind) :
    g.Bears (accepted.insert node.id node.kind) := by
  intro id kind old hacc hold
  rw [ExtTreeMap.getElem?_insert] at hacc
  split at hacc
  next he =>
    have hid := LawfulEqCmp.compare_eq_iff_eq.mp he
    subst hid
    rw [← Option.some.inj hacc]
    exact hkind old.kind (by rw [kindOf?, hold]; rfl)
  next => exact h id kind old hacc hold

theorem Bears.kindOf? (h : g.Bears accepted) {id : NodeId} {kind : NodeKind}
    (hacc : accepted[id]? = some kind) : g.kindOf? accepted id = some kind := by
  unfold PropertyGraph.kindOf?
  cases hold : g.nodes[id]? with
  | none => exact hacc
  | some old => exact congrArg some (h id kind old hacc hold)

/-- Nodes that are accepted together agree on their kinds. -/
theorem Bears.agree (h : g.Bears accepted) {nodes : List Node}
    (hok : g.acceptNodes accepted nodes = .ok kinds) :
    (∀ node ∈ nodes, ∀ kind, accepted[node.id]? = some kind → kind = node.kind) ∧
      nodes.Pairwise fun a b => a.id = b.id → a.kind = b.kind := by
  induction nodes generalizing accepted with
  | nil => simp
  | cons node rest ih =>
    obtain ⟨hkind, hrest⟩ := of_acceptNodes_cons hok
    obtain ⟨hacc, hpair⟩ := ih (h.insert hkind) hrest
    have hsame : ∀ m ∈ rest, node.id = m.id → node.kind = m.kind := fun m hm he =>
      hacc m hm node.kind (by simp [he])
    refine ⟨fun m hm kind hk => ?_, List.pairwise_cons.mpr ⟨hsame, hpair⟩⟩
    rcases List.mem_cons.mp hm with rfl | hm
    · exact hkind kind (h.kindOf? hk)
    · by_cases he : node.id = m.id
      · rw [hkind kind (h.kindOf? (he ▸ hk)), hsame m hm he]
      · exact hacc m hm kind (by simpa [ExtTreeMap.getElem?_insert, he] using hk)

end PropertyGraph

namespace Tables.Holds

variable {t t' : Tables} {g g' : PropertyGraph} {accepted : ExtTreeMap NodeId NodeKind}

/-- It makes no difference whether the rows or the nodes accepted so far are looked at first. -/
theorem kindOf? (h : t.Holds g) (bears : g.Bears accepted) (id : NodeId) :
    t.kindOf? accepted id = (g.kindOf? accepted id).map NodeKind.tag := by
  cases hacc : accepted[id]? with
  | some kind =>
    rw [bears.kindOf? hacc, Tables.kindOf?, hacc]
    rfl
  | none =>
    rw [Tables.kindOf?, PropertyGraph.kindOf?, hacc, h.get_nodes]
    cases g.nodes[id]? <;> rfl

theorem acceptNodes (h : t.Holds g) (bears : g.Bears accepted) (nodes : List Node) :
    t.acceptNodes accepted nodes = g.acceptNodes accepted nodes := by
  induction nodes generalizing accepted with
  | nil => rfl
  | cons node rest ih =>
    rw [Tables.acceptNodes, PropertyGraph.acceptNodes, h.kindOf? bears]
    cases hk : g.kindOf? accepted node.id with
    | none =>
      exact ih (bears.insert fun existing he => by rw [hk] at he; cases he)
    | some existing =>
      simp only [Option.map_some, NodeKind.tag_inj]
      split
      next hsame =>
        refine ih (bears.insert fun kind hkind => ?_)
        rw [hk, Option.some.injEq] at hkind
        rw [← hkind, hsame]
      next => rfl

theorem acceptEdges (h : t.Holds g) (edges : List Edge) :
    t.acceptEdges accepted edges = g.acceptEdges accepted edges := by
  have hknown : ∀ id, (t.kindOf? accepted id).isSome = (g.kindOf? accepted id).isSome := by
    intro id
    rw [Tables.kindOf?, PropertyGraph.kindOf?, h.get_nodes]
    simp [Option.isSome_or, Bool.or_comm]
  cases hf : edges.find? fun edge =>
      !(g.kindOf? accepted edge.source).isSome || !(g.kindOf? accepted edge.target).isSome with
  | none => simp only [Tables.acceptEdges, PropertyGraph.acceptEdges, hknown, hf]
  | some edge => simp only [Tables.acceptEdges, PropertyGraph.acceptEdges, hknown, hf]

end Tables.Holds

/-! ## Changes -/

namespace Tables

variable {t : Tables}

theorem nodes_putNode {nodes : ExtTreeMap NodeId Node} (h : t.nodes = nodes.map fun _ => rowOf)
    {node : Node} (hkind : ∀ old : Node, nodes[node.id]? = some old → old.kind = node.kind) :
    (t.putNode node).nodes = (nodes.insert node.id node).map fun _ => rowOf := by
  have hrow : (t.nodes[node.id]?.map (·.kind)).getD node.kind.tag = node.kind.tag := by
    rw [h, ExtTreeMap.getElem?_map]
    cases hold : nodes[node.id]? with
    | none => rfl
    | some old => exact congrArg NodeKind.tag (hkind old hold)
  apply ExtTreeMap.ext_getElem?
  intro id
  unfold putNode
  rw [hrow, h, ExtTreeMap.getElem?_map, ExtTreeMap.getElem?_insert, ExtTreeMap.getElem?_insert,
    ExtTreeMap.getElem?_map]
  split <;> rfl

theorem nodes_foldl_putNode {nodes : ExtTreeMap NodeId Node} (h : t.nodes = nodes.map fun _ => rowOf)
    {items : List Node}
    (hkind : ∀ node ∈ items, ∀ old : Node, nodes[node.id]? = some old → old.kind = node.kind)
    (agree : items.Pairwise fun a b => a.id = b.id → a.kind = b.kind) :
    (items.foldl putNode t).nodes =
      (items.foldl (fun m node => m.insert node.id node) nodes).map fun _ => rowOf := by
  induction items generalizing t nodes with
  | nil => exact h
  | cons node rest ih =>
    obtain ⟨hsame, hrest⟩ := List.pairwise_cons.mp agree
    refine ih (nodes_putNode h (hkind node List.mem_cons_self)) (fun m hm old hold => ?_) hrest
    rw [ExtTreeMap.getElem?_insert] at hold
    split at hold
    next he =>
      rw [← Option.some.inj hold]
      exact hsame m hm (LawfulEqCmp.compare_eq_iff_eq.mp he)
    next => exact hkind m (List.mem_cons_of_mem node hm) old hold

theorem edges_foldl_putNode (t : Tables) (items : List Node) :
    (items.foldl putNode t).edges = t.edges :=
  List.foldlRecOn (motive := fun s : Tables => s.edges = t.edges) items _ rfl fun _ hs _ _ => hs

theorem nodes_foldl_putEdge (t : Tables) (items : List Edge) :
    (items.foldl putEdge t).nodes = t.nodes := by
  refine List.foldlRecOn (motive := fun s : Tables => s.nodes = t.nodes) items _ rfl ?_
  intro s hs edge _
  unfold putEdge
  dsimp only
  split <;> exact hs

namespace SameEdges

variable {rows : ExtTreeMap EdgeRowKey EdgeRow} {edges : ExtTreeMap EdgeKey Edge}

theorem insert (h : SameEdges rows edges) {edge : Edge} {row : EdgeRow}
    (hrow : row.props = .written edge.props) :
    SameEdges (rows.insert (EdgeRowKey.ofKey edge.key) row) (edges.insert edge.key edge) where
  props k := by
    rw [ExtTreeMap.getElem?_insert, ExtTreeMap.getElem?_insert]
    by_cases hk : edge.key = k
    · subst hk
      simp [hrow]
    · have hkey : EdgeRowKey.ofKey edge.key ≠ EdgeRowKey.ofKey k := fun he =>
        hk (EdgeRowKey.ofKey_inj.mp he)
      simpa [hk, hkey] using h.props k
  spelled key row' hr := by
    rw [ExtTreeMap.getElem?_insert] at hr
    split at hr
    next he => exact ⟨edge.key, (LawfulEqCmp.compare_eq_iff_eq.mp he).symm⟩
    next => exact h.spelled key row' hr

theorem putEdge (h : SameEdges t.edges edges) (edge : Edge) :
    SameEdges (t.putEdge edge).edges (edges.insert edge.key edge) := by
  unfold Tables.putEdge
  dsimp only
  split
  · exact h.insert rfl
  · exact h.insert rfl

theorem foldl_putEdge (h : SameEdges t.edges edges) (items : List Edge) :
    SameEdges (items.foldl Tables.putEdge t).edges
      (items.foldl (fun m edge => m.insert edge.key edge) edges) := by
  induction items generalizing t edges with
  | nil => exact h
  | cons edge rest ih => exact ih (h.putEdge edge)

/-- Taking out rows takes out their edges. -/
theorem restrict (h : SameEdges rows edges) {rows' : ExtTreeMap EdgeRowKey EdgeRow}
    {edges' : ExtTreeMap EdgeKey Edge} (gone : EdgeRowKey → Prop) [DecidablePred gone]
    (hrows : ∀ key : EdgeRowKey, rows'[key]? = if gone key then none else rows[key]?)
    (hedges : ∀ k : EdgeKey, edges'[k]? = if gone (EdgeRowKey.ofKey k) then none else edges[k]?) :
    SameEdges rows' edges' where
  props k := by
    rw [hrows, hedges]
    split
    · rfl
    · exact h.props k
  spelled key row hr := by
    rw [hrows] at hr
    split at hr
    · cases hr
    · exact h.spelled key row hr

end SameEdges

namespace Holds

variable {t' : Tables} {g g' : PropertyGraph}

/-- An insertion is accepted by both or refused by both, for the same reason. -/
theorem upsert (h : t.Holds g) (nodes : List Node) (edges : List Edge) :
    (∃ e, t.upsert nodes edges = .error e ∧ g.upsert nodes edges = .error e) ∨
      ∃ t' g', t.upsert nodes edges = .ok t' ∧ g.upsert nodes edges = .ok g' ∧ t'.Holds g' := by
  unfold Tables.upsert
  rw [h.acceptNodes PropertyGraph.bears_empty]
  cases hn : g.acceptNodes ∅ nodes with
  | error e => exact .inl ⟨e, rfl, by rw [PropertyGraph.upsert_eq, hn]⟩
  | ok kinds =>
    simp only [bind, Except.bind, h.acceptEdges]
    cases he : g.acceptEdges kinds edges with
    | error e => exact .inl ⟨e, rfl, by rw [PropertyGraph.upsert_eq, hn]; simp only [he]⟩
    | ok done =>
      have hup : g.upsert nodes edges = .ok (g.inserted nodes edges) := by
        rw [PropertyGraph.upsert_eq, hn]
        simp only [he]
      refine .inr ⟨_, _, rfl, hup, h.keyed.upsert hup, ?_, ?_⟩
      · rw [nodes_foldl_putEdge]
        exact nodes_foldl_putNode h.nodes (PropertyGraph.of_acceptNodes hn).1
          (PropertyGraph.bears_empty.agree hn).2
      · exact SameEdges.foldl_putEdge (by rw [edges_foldl_putNode]; exact h.edges) edges

theorem delete (h : t.Holds g) (ids : List NodeId) : (t.delete ids).Holds (g.delete ids) where
  keyed := h.keyed.mono (fun _ _ => PropertyGraph.nodes_of_delete) fun _ _ =>
    PropertyGraph.edges_of_delete
  nodes := by
    apply ExtTreeMap.ext_getElem?
    intro id
    rw [ExtTreeMap.getElem?_map, PropertyGraph.get_delete_nodes]
    refine (Maps.get_foldl_erase ids t.nodes id).trans ?_
    rw [h.get_nodes]
    split <;> rfl
  edges := by
    refine h.edges.restrict (fun key => key.source ∈ ids ∨ key.target ∈ ids) (fun key => ?_)
      (PropertyGraph.get_delete_edges g ids)
    simp only [Tables.delete, ExtTreeMap.getElem?_filter']
    by_cases hs : key.source ∈ ids <;> by_cases ht : key.target ∈ ids <;>
      cases t.edges[key]? <;> simp [hs, ht]

theorem deleteEdges (h : t.Holds g) (keys : List EdgeKey) :
    (t.deleteEdges keys).Holds (g.deleteEdges keys) where
  keyed := h.keyed.mono (fun _ _ hn => hn) fun _ _ => PropertyGraph.edges_of_deleteEdges
  nodes := h.nodes
  edges := by
    refine h.edges.restrict (· ∈ keys.map EdgeRowKey.ofKey) (fun key => ?_) fun k => ?_
    · rw [← Maps.get_foldl_erase, List.foldl_map]
      rfl
    · rw [PropertyGraph.get_deleteEdges]
      refine if_congr ?_ rfl rfl
      rw [List.mem_map]
      exact ⟨fun hk => ⟨k, hk, rfl⟩, fun ⟨k', hk', he⟩ => EdgeRowKey.ofKey_inj.mp he ▸ hk'⟩

end Holds

namespace Stores

variable {g : PropertyGraph}

/-- Tables go on holding the graph in a way that can be read if what is inserted can be read. -/
theorem upsert (h : t.Stores g) {nodes : List Node} {edges : List Edge}
    (hnodes : ∀ node ∈ nodes, node.props.reread? = some node.props)
    (hedges : ∀ edge ∈ edges, edge.props.reread? = some edge.props) :
    (∃ e, t.upsert nodes edges = .error e ∧ g.upsert nodes edges = .error e) ∨
      ∃ t' g', t.upsert nodes edges = .ok t' ∧ g.upsert nodes edges = .ok g' ∧ t'.Stores g' := by
  refine (h.toHolds.upsert nodes edges).imp_right fun ⟨t', g', ht, hg, hholds⟩ =>
    ⟨t', g', ht, hg, hholds, fun id node hget => ?_, fun k edge hget => ?_⟩
  · rw [PropertyGraph.get_upsert_nodes hg] at hget
    rcases Option.or_eq_some_iff.mp hget with hget | ⟨-, hget⟩
    · exact hnodes node (List.mem_filter.mp (List.mem_of_getLast? hget)).1
    · exact h.readNode id node hget
  · rw [PropertyGraph.get_upsert_edges hg] at hget
    rcases Option.or_eq_some_iff.mp hget with hget | ⟨-, hget⟩
    · exact hedges edge (List.mem_filter.mp (List.mem_of_getLast? hget)).1
    · exact h.readEdge k edge hget

theorem delete (h : t.Stores g) (ids : List NodeId) : (t.delete ids).Stores (g.delete ids) where
  toHolds := h.toHolds.delete ids
  readNode id node hn := h.readNode id node (PropertyGraph.nodes_of_delete hn)
  readEdge k edge he := h.readEdge k edge (PropertyGraph.edges_of_delete he)

theorem deleteEdges (h : t.Stores g) (keys : List EdgeKey) :
    (t.deleteEdges keys).Stores (g.deleteEdges keys) where
  toHolds := h.toHolds.deleteEdges keys
  readNode := h.readNode
  readEdge k edge he := h.readEdge k edge (PropertyGraph.edges_of_deleteEdges he)

end Stores

end Tables

/-! ## All calls -/

namespace Operation

/-- The floats that a call stores. -/
def floats : Operation → List Float
  | upsert nodes edges => nodes.flatMap (·.props.floats) ++ edges.flatMap (·.props.floats)
  | _ => []

/-- Whether a call only asks. -/
def Asks : Operation → Prop
  | upsert _ _ | delete _ | deleteEdges _ => False
  | _ => True

theorem rows_of_asks (t : Tables) {op : Operation} (asks : op.Asks) : (op.run t).2 = t := by
  cases op with
  | getNode | findNodes | neighbors | nodeCount | edgeCount | allEdges =>
    exact congrArg Prod.snd (Session.run_map _ _ t)
  | upsert | delete | deleteEdges => cases asks

theorem graph_of_asks (g : PropertyGraph) {op : Operation} (asks : op.Asks) : (op.run g).2 = g := by
  cases op with
  | getNode | findNodes | neighbors | nodeCount | edgeCount | allEdges => rfl
  | upsert | delete | deleteEdges => cases asks

/-- Tables answer every question as the graph that they show. -/
theorem answers_of_shows {t : Tables} {g : PropertyGraph} (h : t.Shows g) {op : Operation}
    (asks : op.Asks) : (op.run t).1 = (op.run g).1 := by
  have replies : ∀ {α : Type} (reply : α → Reply) {ofRows : Tables → Except GraphError α}
      {ofGraph : PropertyGraph → Except GraphError α}, ofRows t = ofGraph g →
      ((reply <$> Session.ask ofRows) t).1 = ((reply <$> Session.ask ofGraph) g).1 := by
    intro α reply ofRows ofGraph hsame
    rw [Session.run_map, Session.run_map]
    exact congrArg (Except.map reply) hsame
  cases op with
  | getNode id => exact replies _ (h.get id)
  | findNodes kind filter => exact replies _ (h.find kind filter)
  | neighbors id kinds direction => exact replies _ (h.neighbors id kinds direction)
  | nodeCount => exact replies _ (congrArg Except.ok h.nodeCount)
  | edgeCount => exact replies _ (congrArg Except.ok h.edgeCount)
  | allEdges => exact replies _ h.allEdges
  | upsert | delete | deleteEdges => cases asks

/-- Every call is answered alike, and tables go on holding the graph. -/
theorem step_agrees {t : Tables} {g : PropertyGraph} (h : t.Stores g) (op : Operation)
    (hfloats : ∀ x ∈ op.floats, Json.reread? x = some x) :
    (op.run t).1 = (op.run g).1 ∧ (op.run t).2.Stores (op.run g).2 := by
  by_cases asks : op.Asks
  · rw [rows_of_asks t asks, graph_of_asks g asks]
    exact ⟨answers_of_shows h.shows asks, h⟩
  cases op with
  | getNode | findNodes | neighbors | nodeCount | edgeCount | allEdges => exact absurd trivial asks
  | delete ids => exact ⟨rfl, h.delete ids⟩
  | deleteEdges keys => exact ⟨rfl, h.deleteEdges keys⟩
  | upsert nodes edges =>
    have hnodes : ∀ node ∈ nodes, node.props.reread? = some node.props := fun node hn =>
      Props.reread?_of_floats fun x hx =>
        hfloats x (List.mem_append_left _ (List.mem_flatMap.mpr ⟨node, hn, hx⟩))
    have hedges : ∀ edge ∈ edges, edge.props.reread? = some edge.props := fun edge he =>
      Props.reread?_of_floats fun x hx =>
        hfloats x (List.mem_append_right _ (List.mem_flatMap.mpr ⟨edge, he, hx⟩))
    have hrows : (Operation.upsert nodes edges).run t =
        ((fun _ => Reply.done) <$> Session.change fun t : Tables => t.upsert nodes edges) t := rfl
    have hgraph : (Operation.upsert nodes edges).run g =
        ((fun _ => Reply.done) <$> Session.change fun g : PropertyGraph => g.upsert nodes edges) g :=
      rfl
    rw [hrows, hgraph, Session.run_map, Session.run_map]
    rcases h.upsert hnodes hedges with ⟨e, ht, hg⟩ | ⟨t', g', ht, hg, hstores⟩
    · rw [Session.run_change_error ht, Session.run_change_error hg]
      exact ⟨rfl, h⟩
    · rw [Session.run_change_ok ht, Session.run_change_ok hg]
      exact ⟨rfl, hstores⟩

theorem replies_of_stores {t : Tables} {g : PropertyGraph} (h : t.Stores g) {ops : List Operation}
    (hfloats : ∀ op ∈ ops, ∀ x ∈ op.floats, Json.reread? x = some x) :
    replies t ops = replies g ops := by
  induction ops generalizing t g with
  | nil => rfl
  | cons op rest ih =>
    obtain ⟨hanswer, hstores⟩ := step_agrees h op (hfloats op List.mem_cons_self)
    rw [replies, replies, hanswer, ih hstores fun o ho => hfloats o (List.mem_cons_of_mem op ho)]

/-- The graph in memory and the tables answer every use alike, if all floats are finite and the finite
ones are read as they were written. -/
theorem replies_rows_eq (ops : List Operation)
    (finite : ∀ op ∈ ops, ∀ x ∈ op.floats, x.isFinite = true)
    (json : ∀ op ∈ ops, ∀ x ∈ op.floats, x.isFinite = true → Json.reread? x = some x) :
    replies ({} : PropertyGraph) ops = replies ({} : Tables) ops := by
  refine (replies_of_stores Tables.stores_empty fun op hop x hx => ?_).symm
  exact json op hop x hx (finite op hop x hx)

/-- A use with a float, an edge that is refused because its nodes are missing, a loop, a node given
twice, a kind that is refused, and a node that goes with its edges. -/
def sampleUse : List Operation :=
  [.upsert [] [⟨⟨"f"⟩, ⟨"g"⟩, .calls, ∅⟩],
   .upsert [⟨⟨"f"⟩, .function, "f", .ofList [("weight", .float 1.5)]⟩, ⟨⟨"g"⟩, .procedure, "old", ∅⟩,
      ⟨⟨"g"⟩, .procedure, "new", ∅⟩]
     [⟨⟨"f"⟩, ⟨"g"⟩, .usesMetadata, ∅⟩, ⟨⟨"f"⟩, ⟨"f"⟩, .calls, .ofList [("share", .float (-0.25))]⟩],
   .neighbors ⟨"f"⟩ [] .both,
   .upsert [⟨⟨"g"⟩, .function, "g", ∅⟩] [],
   .delete [⟨"g"⟩],
   .findNodes (some .function) {},
   .edgeCount,
   .allEdges]

theorem replies_rows_eq_sample :
    sampleUse.flatMap floats = [1.5, -0.25] ∧
      replies ({} : PropertyGraph) sampleUse = replies ({} : Tables) sampleUse := by
  have hfloats : sampleUse.flatMap floats = [1.5, -0.25] := by decide +kernel
  have among : ∀ op ∈ sampleUse, ∀ x ∈ op.floats, x = 1.5 ∨ x = -0.25 := by
    intro op hop x hx
    have hmem : x ∈ sampleUse.flatMap floats := List.mem_flatMap.mpr ⟨op, hop, hx⟩
    rw [hfloats] at hmem
    simpa using hmem
  refine ⟨hfloats, replies_rows_eq sampleUse (fun op hop x hx => ?_) fun op hop x hx _ => ?_⟩
  · rcases among op hop x hx with rfl | rfl <;> decide +kernel
  · rcases among op hop x hx with rfl | rfl <;> decide +kernel

end Operation

end CodeAtlas
