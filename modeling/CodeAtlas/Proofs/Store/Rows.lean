import CodeAtlas.Proofs.ListRuns
import CodeAtlas.Proofs.Store.Laws
import CodeAtlas.Store.Rows

/-!
# Tables that hold a graph

A graph in memory and a pair of tables are two ways to keep the same nodes and edges. `Tables.Holds`
says when tables hold a graph: under every id there is the row of the node, under every key a row of
the edge, and there are no other rows. Whether what was written can be read is another matter.
`Tables.Shows` looks at the tables from that side, through what their rows read as, whoever wrote them:
tables that show a graph answer all questions as the graph does. `Tables.Stores` is both at once.

Rows stand in the order of the spelling of their kinds or of their age, while edges are listed by rank.
That makes no difference: rows are read as the edges of the graph in some order (`exists_edges`), and
whatever is answered is sorted first, in an order that tells all items apart.
-/

set_option autoImplicit false

namespace CodeAtlas

open Std Text

/-! ## Spelling -/

/-- A name is found in a list in which no two names agree up to case. -/
theorem find?_sameAscii {α : Type} {name : α → String} {items : List α}
    (apart : (items.map fun x => (name x).toList.map lowerAscii).Nodup) {x : α} (hx : x ∈ items) :
    items.find? (fun y => sameAscii (name y) (name x)) = some x := by
  have hself : sameAscii (name x) (name x) = true := by simp [sameAscii, sameAsciiChars]
  obtain ⟨y, hy⟩ : ∃ y, items.find? (fun y => sameAscii (name y) (name x)) = some y :=
    Option.isSome_iff_exists.mp (List.find?_isSome.mpr ⟨x, hx, hself⟩)
  have hsame := List.find?_some hy
  rw [sameAscii, sameAsciiChars, beq_iff_eq] at hsame
  rw [hy, List.inj_on_of_nodup_map apart (List.mem_of_find?_eq_some hy) hx hsame]

theorem MetadataKind.ofName?_name {kind : MetadataKind} (h : kind ≠ .other) :
    MetadataKind.ofName? kind.name = some kind := by
  refine find?_sameAscii (by decide +kernel) ?_
  cases kind with
  | other => contradiction
  | _ => decide

theorem EdgeKind.ofTag?_tag (kind : EdgeKind) : EdgeKind.ofTag? kind.tag = some kind := by
  refine find?_sameAscii (by decide +kernel) ?_
  cases kind <;> decide

theorem NodeKind.ofTag?_tag (kind : NodeKind) : NodeKind.ofTag? kind.tag = some kind := by
  cases kind with
  | metadataObject category =>
    have hpart : metadataPart? ("metadata:" ++ category.name) = some category.name := by
      simp [metadataPart?]
    rw [tag, ofTag?, hpart]
    by_cases hother : category = .other
    · rw [hother]
      rfl
    · have hname := MetadataKind.ofName?_name hother
      split
      next he =>
        -- "Other" is no name that can be read, so that it is not the name of this category.
        rw [Option.some.inj he, show MetadataKind.ofName? "Other" = none by decide +kernel] at hname
        cases hname
      next he =>
        rw [← Option.some.inj he, hname]
        rfl
      next he => cases he
  | _ => decide +kernel

theorem NodeKind.tag_inj {a b : NodeKind} : a.tag = b.tag ↔ a = b := by
  refine ⟨fun h => ?_, congrArg tag⟩
  have hread := ofTag?_tag a
  rw [h, ofTag?_tag] at hread
  exact (Option.some.inj hread).symm

theorem EdgeRowKey.ofKey_inj {a b : EdgeKey} : EdgeRowKey.ofKey a = EdgeRowKey.ofKey b ↔ a = b := by
  refine ⟨fun h => ?_, congrArg EdgeRowKey.ofKey⟩
  obtain ⟨source, target, kind⟩ := a
  obtain ⟨source', target', kind'⟩ := b
  simp only [EdgeRowKey.ofKey, EdgeRowKey.mk.injEq] at h
  obtain ⟨rfl, rfl, htag⟩ := h
  have hread := EdgeKind.ofTag?_tag kind
  rw [htag, EdgeKind.ofTag?_tag] at hread
  rw [Option.some.inj hread]

/-! ## Property bags -/

/-- The value as it is after it was written and read again, where it can be. Only floats can change, and
they stay floats. -/
def PropValue.asRead : PropValue → PropValue
  | float x => float ((Json.reread? x).getD x)
  | value => value

namespace Props

variable {props : Props}

/-- The floats of a bag. -/
def floats (props : Props) : List Float :=
  props.values.filterMap fun
    | .float x => some x
    | _ => none

theorem mem_floats {x : Float} : x ∈ props.floats ↔ ∃ name : String, props[name]? = some (.float x) := by
  rw [floats, List.mem_filterMap, ← Maps.mem_values]
  constructor
  · rintro ⟨value, hv, hx⟩
    cases value with
    | float y =>
      rw [← Option.some.inj hx]
      exact hv
    | bool | int | text | list => cases hx
  · exact fun hx => ⟨_, hx, rfl⟩

/-- The bag as it is after it was written and read again, where it can be. -/
def asRead (props : Props) : Props := props.map fun _ value => value.asRead

theorem ofList_toList (props : Props) : ofList props.toList = props := by
  apply ExtTreeMap.ext_getElem?
  intro name
  cases hn : props[name]? with
  | some value =>
    exact ExtTreeMap.getElem?_ofList_of_mem ReflCmp.compare_self ExtTreeMap.distinct_keys_toList
      (ExtTreeMap.mem_toList_iff_getElem?_eq_some.mpr hn)
  | none =>
    refine ExtTreeMap.getElem?_ofList_of_contains_eq_false ?_
    rw [ExtTreeMap.map_fst_toList_eq_keys, ← Bool.not_eq_true, List.contains_iff_mem,
      ExtTreeMap.mem_keys, ExtTreeMap.mem_iff_contains, ExtTreeMap.contains_eq_isSome_getElem?, hn]
    simp

theorem reread?_eq_map (props : Props) : props.reread? =
    (props.toList.mapM fun pair : String × PropValue =>
      pair.2.reread?.map (pair.1, ·)).map ofList := by
  have hpair : (fun pair : String × PropValue =>
      (do return (pair.1, ← pair.2.reread?) : Option (String × PropValue))) =
      fun pair : String × PropValue => pair.2.reread?.map (pair.1, ·) := by
    funext pair
    cases pair.2.reread? <;> rfl
  show (do
    let pairs ← props.toList.mapM fun pair : String × PropValue => do
      return (pair.1, ← pair.2.reread?)
    return ofList pairs) = _
  rw [hpair]
  cases props.toList.mapM fun pair : String × PropValue => pair.2.reread?.map (pair.1, ·) <;> rfl

/-- A bag can be read if its floats can. -/
theorem reread?_eq_asRead (h : ∀ x ∈ props.floats, (Json.reread? x).isSome) :
    props.reread? = some props.asRead := by
  have hvalue : ∀ pair ∈ props.toList, pair.2.reread? = some pair.2.asRead := by
    rintro ⟨name, value⟩ hp
    cases value with
    | float x =>
      have hx := h x (mem_floats.mpr ⟨name, ExtTreeMap.mem_toList_iff_getElem?_eq_some.mp hp⟩)
      obtain ⟨y, hy⟩ := Option.isSome_iff_exists.mp hx
      simp [PropValue.reread?, PropValue.asRead, hy]
    | bool | int | text | list => rfl
  have hpairs : (props.toList.mapM fun pair : String × PropValue =>
      pair.2.reread?.map (pair.1, ·)) = some props.asRead.toList := by
    rw [asRead, ExtTreeMap.toList_map]
    refine mapM_of_forall₂ (List.forall₂_map_right_iff.mpr (List.forall₂_same.mpr fun pair hp => ?_))
    rw [hvalue pair hp]
    rfl
  rw [reread?_eq_map, hpairs, Option.map_some, ofList_toList]

/-- A bag with a float that cannot be read cannot be read either. -/
theorem isSome_of_reread? (h : props.reread?.isSome) {x : Float} (hx : x ∈ props.floats) :
    (Json.reread? x).isSome := by
  obtain ⟨name, hn⟩ := mem_floats.mp hx
  rw [reread?_eq_map, Option.isSome_map] at h
  have hread := isSome_of_mapM h (ExtTreeMap.mem_toList_iff_getElem?_eq_some.mpr hn)
  simpa [PropValue.reread?] using hread

theorem asRead_of_floats (h : ∀ x ∈ props.floats, Json.reread? x = some x) : props.asRead = props := by
  apply ExtTreeMap.ext_getElem?
  intro name
  rw [asRead, ExtTreeMap.getElem?_map]
  cases hn : props[name]? with
  | none => rfl
  | some value =>
    cases value with
    | float x => simp [PropValue.asRead, h x (mem_floats.mpr ⟨name, hn⟩)]
    | bool | int | text | list => rfl

theorem reread?_of_floats (h : ∀ x ∈ props.floats, Json.reread? x = some x) :
    props.reread? = some props := by
  rw [reread?_eq_asRead fun x hx => by simp [h x hx], asRead_of_floats h]

end Props

namespace Tables

/-- The row of a node. -/
def rowOf (node : Node) : NodeRow := ⟨node.kind.tag, node.displayName, .written node.props⟩

/-- Whether the rows of an edge table are those of some edges. -/
structure SameEdges (rows : ExtTreeMap EdgeRowKey EdgeRow) (edges : ExtTreeMap EdgeKey Edge) :
    Prop where
  props : ∀ k : EdgeKey,
    rows[EdgeRowKey.ofKey k]?.map (·.props) = edges[k]?.map fun edge => .written edge.props
  /-- No row has a kind that is spelled in another way. -/
  spelled : ∀ (key : EdgeRowKey) row, rows[key]? = some row → ∃ k, key = EdgeRowKey.ofKey k

/-- Whether tables hold a graph. -/
structure Holds (t : Tables) (g : PropertyGraph) : Prop where
  keyed : g.Keyed
  nodes : t.nodes = g.nodes.map fun _ node => rowOf node
  edges : SameEdges t.edges g.edges

/-- Whether tables hold a graph and all of it can be read. -/
structure Stores (t : Tables) (g : PropertyGraph) : Prop extends t.Holds g where
  readNode : ∀ (id : NodeId) node, g.nodes[id]? = some node → node.props.reread? = some node.props
  readEdge : ∀ (k : EdgeKey) edge, g.edges[k]? = some edge → edge.props.reread? = some edge.props

theorem holds_empty : Holds {} {} where
  keyed := PropertyGraph.keyed_empty
  nodes := by
    apply ExtTreeMap.ext_getElem?
    intro id
    rw [ExtTreeMap.getElem?_map]
    rfl
  edges := ⟨fun _ => rfl, fun key row h => by simp at h⟩

theorem stores_empty : Stores {} {} where
  toHolds := holds_empty
  readNode id node h := by simp at h
  readEdge k edge h := by simp at h

theorem Holds.get_nodes {t : Tables} {g : PropertyGraph} (h : t.Holds g) (id : NodeId) :
    t.nodes[id]? = g.nodes[id]?.map rowOf := by
  rw [h.nodes, ExtTreeMap.getElem?_map]

/-! ## Reading rows -/

/-- What a row of the node table reads as, apart from its id. -/
def shownRow (row : NodeRow) : String × String × Option Props :=
  (row.kind, row.displayName, row.props.read?)

/-- What a row of the node table has to read as to be read as a node. -/
def shownNode (node : Node) : String × String × Option Props :=
  (node.kind.tag, node.displayName, some node.props)

/-- Whether tables show a graph: whether their rows are read as its nodes and edges. -/
structure Shows (t : Tables) (g : PropertyGraph) : Prop where
  keyed : g.Keyed
  nodes : (t.nodes.map fun _ row => shownRow row) = g.nodes.map fun _ node => shownNode node
  edges : ∀ k : EdgeKey,
    t.edges[EdgeRowKey.ofKey k]?.map (·.props.read?) = g.edges[k]?.map fun edge => some edge.props
  /-- No row has a kind that is spelled in another way. -/
  spelled : ∀ (key : EdgeRowKey) row, t.edges[key]? = some row → ∃ k, key = EdgeRowKey.ofKey k

theorem Stores.shows {t : Tables} {g : PropertyGraph} (h : t.Stores g) : t.Shows g where
  keyed := h.keyed
  nodes := by
    apply ExtTreeMap.ext_getElem?
    intro id
    rw [ExtTreeMap.getElem?_map, ExtTreeMap.getElem?_map, h.get_nodes]
    cases hn : g.nodes[id]? with
    | none => rfl
    | some node => simp [shownRow, shownNode, rowOf, StoredProps.read?, h.readNode id node hn]
  edges k := by
    have hprops := congrArg (Option.map StoredProps.read?) (h.edges.props k)
    rw [Option.map_map, Option.map_map] at hprops
    refine hprops.trans ?_
    cases he : g.edges[k]? with
    | none => rfl
    | some edge => exact congrArg some (h.readEdge k edge he)
  spelled := h.edges.spelled

/-- Whether a row of the edge table is that of an edge. -/
def Reads (row : EdgeRowKey × EdgeRow) (edge : Edge) : Prop :=
  row.1 = EdgeRowKey.ofKey edge.key ∧ decodeEdge row.1 row.2 = .ok edge

namespace Shows

variable {t t' : Tables} {g g' : PropertyGraph}

theorem get_nodes (h : t.Shows g) (id : NodeId) :
    t.nodes[id]?.map shownRow = g.nodes[id]?.map shownNode := by
  have hshown := congrArg (·[id]?) h.nodes
  simpa only [ExtTreeMap.getElem?_map] using hshown

theorem decodeNode_of_shown {row : NodeRow} {node : Node} (h : shownRow row = shownNode node) :
    Tables.decodeNode node.id row = .ok node := by
  simp only [shownRow, shownNode, Prod.mk.injEq] at h
  obtain ⟨hkind, hname, hprops⟩ := h
  simp only [Tables.decodeNode, hkind, hname, NodeKind.ofTag?_tag, decodeProps, hprops]
  rfl

/-- Under an id there is the row of the node that has it, or there is neither. -/
theorem decodeNode (h : t.Shows g) (id : NodeId) :
    (t.nodes[id]? = none ∧ g.nodes[id]? = none) ∨ ∃ row node, t.nodes[id]? = some row ∧
      g.nodes[id]? = some node ∧ Tables.decodeNode id row = .ok node := by
  have hshown := h.get_nodes id
  cases hn : g.nodes[id]? with
  | none =>
    rw [hn, Option.map_none, Option.map_eq_none_iff] at hshown
    exact .inl ⟨hshown, rfl⟩
  | some node =>
    rw [hn, Option.map_some] at hshown
    obtain ⟨row, hrow, hsame⟩ := Option.map_eq_some_iff.mp hshown
    exact .inr ⟨row, node, hrow, rfl, h.keyed.nodes id node hn ▸ decodeNode_of_shown hsame⟩

/-- Every row is read as an edge of the graph. -/
theorem edge_of_row (h : t.Shows g) {key : EdgeRowKey} {row : EdgeRow}
    (hrow : t.edges[key]? = some row) :
    ∃ edge, g.edges[edge.key]? = some edge ∧ Reads (key, row) edge := by
  obtain ⟨k, rfl⟩ := h.spelled key row hrow
  have hprops := h.edges k
  rw [hrow, Option.map_some] at hprops
  obtain ⟨edge, he, hsame⟩ := Option.map_eq_some_iff.mp hprops.symm
  have hk := h.keyed.edges k edge he
  subst hk
  refine ⟨edge, he, rfl, ?_⟩
  simp only [decodeEdge, EdgeRowKey.ofKey, Edge.key, EdgeKind.ofTag?_tag, decodeProps, ← hsame]
  rfl

/-- Every edge of the graph has its row. -/
theorem row_of_edge (h : t.Shows g) {k : EdgeKey} {edge : Edge} (he : g.edges[k]? = some edge) :
    ∃ row, t.edges[EdgeRowKey.ofKey k]? = some row := by
  have hprops := h.edges k
  rw [he, Option.map_some] at hprops
  obtain ⟨row, hrow, -⟩ := Option.map_eq_some_iff.mp hprops
  exact ⟨row, hrow⟩

/-- Rows that are chosen by their keys are read, in whatever order they come, as the edges of the graph
that are chosen likewise. -/
theorem exists_edges (h : t.Shows g) (keep : EdgeRowKey → Bool)
    (rows : List (EdgeRowKey × EdgeRow))
    (hrows : rows.Perm (t.edges.toList.filter fun row => keep row.1)) :
    ∃ edges, List.Forall₂ Reads rows edges ∧
      edges.Perm (g.allEdges.filter fun edge => keep (EdgeRowKey.ofKey edge.key)) := by
  have hmem : ∀ row, row ∈ rows ↔ t.edges[row.1]? = some row.2 ∧ keep row.1 = true := by
    intro row
    rw [hrows.mem_iff, List.mem_filter]
    exact and_congr_left' ExtTreeMap.mem_toList_iff_getElem?_eq_some
  obtain ⟨edges, hreads, hedges⟩ : ∃ edges, List.Forall₂ Reads rows edges ∧
      ∀ edge ∈ edges, g.edges[edge.key]? = some edge := by
    have hin : ∀ row ∈ rows, t.edges[row.1]? = some row.2 := fun row hr => ((hmem row).mp hr).1
    clear hmem hrows
    induction rows with
    | nil => exact ⟨[], .nil, by simp⟩
    | cons row rest ih =>
      obtain ⟨edges, hreads, hedges⟩ := ih fun r hr => hin r (List.mem_cons_of_mem row hr)
      obtain ⟨edge, he, hread⟩ := h.edge_of_row (hin row List.mem_cons_self)
      exact ⟨edge :: edges, .cons hread hreads, List.forall_mem_cons.mpr ⟨he, hedges⟩⟩
  -- Row by row the keys agree, and no key comes twice.
  have hkeys : edges.map (fun edge => EdgeRowKey.ofKey edge.key) = rows.map (·.1) := by
    clear hmem hrows hedges
    induction hreads with
    | nil => rfl
    | cons hread _ ih => rw [List.map_cons, List.map_cons, ih, hread.1]
  have hnodup : edges.Nodup := by
    refine .of_map (fun edge : Edge => EdgeRowKey.ofKey edge.key) ?_
    rw [hkeys, (hrows.map _).nodup_iff]
    refine List.Nodup.sublist (List.filter_sublist.map _) ?_
    rw [ExtTreeMap.map_fst_toList_eq_keys]
    exact ExtTreeMap.nodup_keys
  refine ⟨edges, hreads, (List.perm_ext_iff_of_nodup hnodup
    ((List.Nodup.of_map Edge.key h.keyed.nodup_keys).filter _)).mpr fun edge => ?_⟩
  rw [List.mem_filter, PropertyGraph.allEdges, Maps.mem_values]
  constructor
  · intro he
    have hkey : EdgeRowKey.ofKey edge.key ∈ rows.map (·.1) := by
      rw [← hkeys]
      exact List.mem_map.mpr ⟨edge, he, rfl⟩
    obtain ⟨row, hrow, hk⟩ := List.mem_map.mp hkey
    exact ⟨⟨edge.key, hedges edge he⟩, hk ▸ ((hmem row).mp hrow).2⟩
  · rintro ⟨⟨k, hk⟩, hkeep⟩
    have he := h.keyed.edges k edge hk
    subst he
    obtain ⟨row, hrow⟩ := h.row_of_edge hk
    have hkey : EdgeRowKey.ofKey edge.key ∈ edges.map fun edge => EdgeRowKey.ofKey edge.key := by
      rw [hkeys]
      exact List.mem_map.mpr ⟨(_, row), (hmem _).mpr ⟨hrow, hkeep⟩, rfl⟩
    obtain ⟨other, ho, hsame⟩ := List.mem_map.mp hkey
    have hget := hedges other ho
    rw [EdgeRowKey.ofKey_inj.mp hsame, hk] at hget
    rw [Option.some.inj hget]
    exact ho

end Shows

/-! ## Questions -/

namespace Shows

variable {t t' : Tables} {g g' : PropertyGraph}

theorem get (h : t.Shows g) (id : NodeId) : t.get id = .ok (g.get? id) := by
  unfold Tables.get PropertyGraph.get?
  rcases h.decodeNode id with ⟨hrow, hnode⟩ | ⟨row, node, hrow, hnode, hread⟩
  · rw [hrow, hnode]
  · rw [hrow, hnode]
    simp only [hread]
    rfl

/-- The rows of the node table stand in the order of the nodes. -/
theorem node_rows (h : t.Shows g) : List.Forall₂
    (fun row node => row.1 = node.id ∧ shownRow row.2 = shownNode node) t.nodes.toList
    g.nodes.values := by
  have hids : (g.nodes.toList.map fun pair => (pair.1, shownNode pair.2)) =
      g.nodes.values.map fun node => (node.id, shownNode node) := by
    rw [Maps.values_eq_map_toList, List.map_map]
    refine List.map_congr_left fun pair hp => ?_
    have hid := h.keyed.nodes pair.1 pair.2 (ExtTreeMap.mem_toList_iff_getElem?_eq_some.mp hp)
    exact congrArg (·, shownNode pair.2) hid.symm
  have hlists := congrArg ExtTreeMap.toList h.nodes
  rw [ExtTreeMap.toList_map, ExtTreeMap.toList_map, hids, ← List.forall₂_eq_eq_eq,
    List.forall₂_map_left_iff, List.forall₂_map_right_iff] at hlists
  exact hlists.imp fun row node hsame => Prod.mk.inj hsame

theorem find (h : t.Shows g) (kind : Option NodeKind) (filter : NodeFilter) :
    t.find kind filter = .ok (g.find kind filter) := by
  have hrows : List.Forall₂ (fun row node => Tables.decodeNode row.1 row.2 = .ok node)
      (t.nodes.toList.filter fun row => kind.all (·.tag == row.2.kind))
      (g.nodes.values.filter fun node => kind.all (· = node.kind)) := by
    refine (List.rel_filter ?_ h.node_rows).imp fun row node hsame =>
      hsame.1 ▸ decodeNode_of_shown hsame.2
    intro row node hsame
    have hkind : row.2.kind = node.kind.tag := congrArg Prod.fst hsame.2
    cases kind with
    | none => rfl
    | some kind => simp [hkind, NodeKind.tag_inj]
  show (do
    let nodes ← (t.nodes.toList.filter fun row => kind.all (·.tag == row.2.kind)).mapM fun row =>
      Tables.decodeNode row.1 row.2
    return nodes.filter filter.accepts) = Except.ok (g.find kind filter)
  rw [mapM_of_forall₂ hrows]
  refine congrArg Except.ok ?_
  rw [PropertyGraph.find, List.filter_filter]
  exact List.filter_congr fun node _ => Bool.and_comm _ _

/-- The hops through some rows are those through their edges. -/
theorem decodeHops (h : t.Shows g) (other : EdgeRowKey → NodeId) (heading : Heading)
    {rows : List (EdgeRowKey × EdgeRow)} {edges : List Edge} (hreads : List.Forall₂ Reads rows edges) :
    t.decodeHops other heading rows = .ok (edges.filterMap fun edge =>
      g.nodes[other (EdgeRowKey.ofKey edge.key)]?.map (⟨edge, ·, heading⟩)) := by
  unfold Tables.decodeHops
  dsimp only
  induction hreads with
  | nil => rfl
  | @cons row edge rows edges hread _ ih =>
    obtain ⟨hkey, hdecode⟩ := hread
    rw [List.filterMap_cons, List.filterMap_cons, ← hkey]
    rcases h.decodeNode (other row.1) with ⟨hrow, hnode⟩ | ⟨_, node, hrow, hnode, hread⟩
    · rw [hrow, hnode]
      exact ih
    · rw [hrow, hnode]
      simp only [Option.map_some]
      rw [List.mapM_cons, ih, hdecode, hread]
      rfl

theorem neighbors (h : t.Shows g) (id : NodeId) (kinds : List EdgeKind) (direction : Direction) :
    t.neighbors id kinds direction = .ok (g.neighbors id kinds direction) := by
  obtain ⟨out, hout, houtPerm⟩ : ∃ out, t.outgoing id = .ok out ∧ out.Perm (g.outgoing id) := by
    obtain ⟨edges, hreads, hperm⟩ := h.exists_edges (fun key => decide (key.source = id)) _ (.refl _)
    exact ⟨_, h.decodeHops _ _ hreads, hperm.filterMap _⟩
  obtain ⟨in_, hin, hinPerm⟩ : ∃ in_, t.incoming id = .ok in_ ∧ in_.Perm (g.incoming id) := by
    obtain ⟨edges, hreads, hperm⟩ := h.exists_edges (fun key => decide (key.target = id)) _
      (List.mergeSort_perm _ _)
    exact ⟨_, h.decodeHops _ _ hreads, hperm.filterMap _⟩
  have hsort : ∀ {a b : List Neighbor}, a.Perm b → (∀ hop ∈ b, hop ∈ g.hops id) →
      Neighbor.sort (a.filter (PropertyGraph.wants kinds ·.edge.kind)) =
        Neighbor.sort (b.filter (PropertyGraph.wants kinds ·.edge.kind)) := by
    intro a b hperm hhops
    have hb : ∀ hop ∈ b.filter (PropertyGraph.wants kinds ·.edge.kind),
        hop ∈ g.neighbors id [] .both := by
      intro hop hm
      rw [PropertyGraph.neighbors_eq_sort]
      exact List.mem_mergeSort.mpr (hhops hop (List.mem_filter.mp hm).1)
    refine Neighbor.sort_congr (hperm.filter _) fun x hx y hy hxy => ?_
    exact h.keyed.hop_eq (hb x hx) (hb y hy) hxy
  unfold Tables.neighbors PropertyGraph.neighbors
  rw [hout, hin]
  cases direction with
  | outgoing =>
    refine congrArg Except.ok (hsort (houtPerm.append_right []) fun hop hm => ?_)
    exact List.mem_append_left _ ((List.append_nil (g.outgoing id)) ▸ hm)
  | incoming => exact congrArg Except.ok (hsort hinPerm fun hop hm => List.mem_append_right _ hm)
  | both => exact congrArg Except.ok (hsort (houtPerm.append hinPerm) fun _ hm => hm)

theorem allEdges (h : t.Shows g) : t.allEdges = .ok g.allEdges := by
  obtain ⟨edges, hreads, hperm⟩ := h.exists_edges (fun _ => true) (byAge t.edges.toList) (by
    rw [List.filter_true]
    exact List.mergeSort_perm _ _)
  have hdecode : ((byAge t.edges.toList).mapM fun row => decodeEdge row.1 row.2) = .ok edges :=
    mapM_of_forall₂ (hreads.imp fun _ _ hread => hread.2)
  show (do
    let edges ← (byAge t.edges.toList).mapM fun row => decodeEdge row.1 row.2
    return edges.mergeSort fun a b => (compare a.key b.key).isLE) = Except.ok g.allEdges
  rw [hdecode]
  refine congrArg Except.ok ?_
  rw [List.filter_true] at hperm
  have hsorted : g.allEdges.Pairwise fun a b => (compare a.key b.key).isLE = true := by
    have hkeys : g.edges.keys.Pairwise fun a b => compare a b = .lt := ExtTreeMap.ordered_keys
    rw [← Maps.map_values h.keyed.edges, List.pairwise_map] at hkeys
    exact hkeys.imp fun hlt => by rw [hlt]; rfl
  refine List.Perm.eq_of_pairwise (fun a b ha hb hab hba => ?_)
    (Maps.pairwise_mergeSort (compareOn Edge.key) edges) hsorted
    ((List.mergeSort_perm _ _).trans hperm)
  have hkey : a.key = b.key := LawfulEqCmp.eq_of_compare (OrientedCmp.isLE_antisymm hab hba)
  exact List.inj_on_of_nodup_map h.keyed.nodup_keys (hperm.mem_iff.mp (List.mem_mergeSort.mp ha)) hb
    hkey

theorem nodeCount (h : t.Shows g) : t.nodes.size = g.nodeCount := by
  rw [← ExtTreeMap.size_map, h.nodes, ExtTreeMap.size_map]
  rfl

theorem edgeCount (h : t.Shows g) : t.edges.size = g.edgeCount := by
  obtain ⟨edges, hreads, hperm⟩ := h.exists_edges (fun _ => true) t.edges.toList (by
    rw [List.filter_true])
  rw [List.filter_true] at hperm
  calc t.edges.size = t.edges.toList.length := ExtTreeMap.length_toList.symm
    _ = edges.length := hreads.length_eq
    _ = g.edges.values.length := hperm.length_eq
    _ = g.edgeCount := by
      rw [Maps.values_eq_map_toList, List.length_map, ExtTreeMap.length_toList]
      rfl

end Shows

end Tables

end CodeAtlas
