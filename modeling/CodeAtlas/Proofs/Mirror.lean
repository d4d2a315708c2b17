import CodeAtlas.Proofs.PendingQueue
import CodeAtlas.Proofs.Planning.Resolve

/-!
# Bookkeeping that mirrors a graph

What the builder remembers and what the graph holds say the same thing twice. `Mirrors` spells out
how: the index has the nodes that are no placeholders, each unit has its nodes and its edges, the
placeholders are the names that wait, and each waiting reference has its edge. Every edge of the graph
is of one of two sorts, an edge within a unit or the edge of a reference, and the edge alone says
which unit it belongs to (`Conforms.unit?_eq`) and which reference it comes from
(`RefEdge.keyOf_eq`).
-/

set_option autoImplicit false

namespace CodeAtlas

open Std Text

namespace Bookkeeping

/-! ## Two sorts of edges -/

/-- A node at which the edge of a reference may end: a known node of a kind that fits, or the
placeholder for which the reference waits. -/
def Target (book : Bookkeeping) (r : Reference) (target : NodeId) (kind : NodeKind) : Prop :=
  (book.index.kind? target = some kind ∧ r.kind.admits kind = true) ∨
    (target = r.placeholderId ∧ kind = .unknown ∧
      book.pending.waiting[PendingQueue.keyOf r]? = some r)

/-- The edge of a reference. -/
structure RefEdge (book : Bookkeeping) (edge : Edge) (r : Reference) (target : NodeId)
    (kind : NodeKind) : Prop where
  own : book.OwnRef r
  eq : edge = r.edgeTo target kind
  target : book.Target r target kind

/-- An edge of one of the two sorts. -/
def Conforms (book : Bookkeeping) (edge : Edge) : Prop :=
  book.OwnEdge edge ∨ ∃ r target kind, book.RefEdge edge r target kind

/-- Nodes that a unit owns do not look like placeholders, requirements or incidents. -/
def Unreserved (book : Bookkeeping) : Prop :=
  ∀ (id : NodeId) p, book.nodeUnit[id]? = some p → id.isReserved = false

theorem OwnRef.owner_ne_placeholder {book : Bookkeeping} (unreserved : book.Unreserved)
    {r : Reference} (h : book.OwnRef r) (s : Reference) : r.owner ≠ s.placeholderId := by
  intro he
  have hid := unreserved _ _ h.unit
  rw [he, NodeId.isReserved_of_isPlaceholder (Reference.isPlaceholder_placeholderId s)] at hid
  simp at hid

theorem OwnRef.fitsOwner {book : Bookkeeping} {r : Reference} (h : book.OwnRef r) :
    r.FitsOwner (book.index.kind? r.owner) := by
  obtain ⟨kind, hk, hown⟩ := h.kind
  rw [hk]
  refine ⟨fun hc ht => ?_, fun hc => ?_⟩
  · rw [hc, Option.some.inj ht] at hown
    simp [RefKind.ownedBy, NodeKind.isModule, NodeKind.isCode] at hown
  · rw [hc] at hown
    simpa [RefKind.ownedBy] using hown

/-- Owner, kind and lower-cased name determine the edge of a reference. -/
theorem OwnRef.standing_key_eq {book : Bookkeeping} {r s : Reference} (hr : book.OwnRef r)
    (hs : book.OwnRef s) (h : PendingQueue.keyOf r = PendingQueue.keyOf s) :
    book.index.resolves r = book.index.resolves s ∧
      (book.index.standing r).key = (book.index.standing s).key := by
  obtain ⟨hp, ho, hk⟩ : r.placeholderId = s.placeholderId ∧ r.owner = s.owner ∧ r.kind = s.kind := by
    simpa [PendingQueue.keyOf] using h
  have hcontext : r.context = s.context := by rw [hr.context, hs.context, ho, hk]
  have hresolve : book.index.resolve? r = book.index.resolve? s :=
    NameIndex.resolve?_congr _ hk (Reference.placeholderId_eq_iff.mp hp) hcontext
  refine ⟨by simp only [NameIndex.resolves, hresolve], ?_⟩
  unfold NameIndex.standing
  rw [hresolve]
  cases book.index.resolve? s with
  | none => exact Reference.placeholderKey_of_keyOf h
  | some found => simp [Reference.edgeTo_key, Reference.keyTo, ho, hk]

/-! ## What an edge says -/

/-- The end of an edge that is the owner of its reference. -/
theorem RefEdge.source_or_target {book : Bookkeeping} {edge : Edge} {r : Reference} {t : NodeId}
    {k : NodeKind} (h : book.RefEdge edge r t k) :
    (edge.source = r.owner ∧ edge.target = t) ∨ (edge.source = t ∧ edge.target = r.owner) := by
  rw [h.eq]
  unfold Reference.edgeTo Reference.keyTo
  cases r.kind with
  | testCall => by_cases hk : k = .testCase <;> simp [hk]
  | _ => simp

theorem RefEdge.end_cases {book : Bookkeeping} {edge : Edge} {r : Reference} {t : NodeId}
    {k : NodeKind} (h : book.RefEdge edge r t k) {id : NodeId}
    (hid : id = edge.source ∨ id = edge.target) : id = r.owner ∨ id = t := by
  rcases h.source_or_target with ⟨hs, ht⟩ | ⟨hs, ht⟩ <;> rcases hid with rfl | rfl
  · exact .inl hs
  · exact .inr ht
  · exact .inr hs
  · exact .inl ht

theorem RefEdge.target_mem {book : Bookkeeping} {edge : Edge} {r : Reference} {t : NodeId}
    {k : NodeKind} (h : book.RefEdge edge r t k) : t = edge.source ∨ t = edge.target := by
  rcases h.source_or_target with ⟨-, ht⟩ | ⟨hs, -⟩
  · exact .inr ht.symm
  · exact .inl hs.symm

/-- Edges of units hold no name. -/
theorem OwnEdge.callee_eq_none {book : Bookkeeping} {edge : Edge} (h : book.OwnEdge edge) :
    edge.props.text? "callee" = none := by
  cases h <;>
    simp [Fragment.ownedEdge, Props.text?, Props.get_ofList_cons, Props.get_ofList_nil]

theorem OwnEdge.ne_edgeTo {book : Bookkeeping} {edge : Edge} (h : book.OwnEdge edge) (r : Reference)
    (t : NodeId) (k : NodeKind) : edge ≠ r.edgeTo t k := by
  have hnone := h.callee_eq_none
  intro he
  rw [he, Reference.edgeTo_props, Reference.text?_edgeProps_callee] at hnone
  simp at hnone

/-- A node that contains a module is told from one that the configuration contains. -/
theorem RefEdge.container_ne_child {book : Bookkeeping} (unreserved : book.Unreserved) {a b : Edge}
    {r s : Reference} {t u : NodeId} {k l : NodeKind} (ha : book.RefEdge a r t k)
    (hb : book.RefEdge b s u l) (hr : r.kind = .container) (hs : s.kind = .child) :
    a.key ≠ b.key := by
  intro h
  rw [ha.eq, hb.eq, Reference.edgeTo_key, Reference.edgeTo_key] at h
  simp only [Reference.keyTo, hr, hs, EdgeKey.mk.injEq, and_true] at h
  obtain ⟨kind, hk, hown⟩ := ha.own.kind
  rcases hb.target with ⟨hu, hadm⟩ | ⟨hu, -⟩
  · rw [← h.2, hk] at hu
    cases hu
    rw [hr] at hown
    rw [hs] at hadm
    cases l <;> simp [RefKind.ownedBy, RefKind.admits, NodeKind.isModule, NodeKind.isObject]
      at hown hadm
  · exact ha.own.owner_ne_placeholder unreserved s (h.2.trans hu)

/-- The kind of an edge says at which end the owner is, and what kind the reference has. -/
theorem RefEdge.owner_at {book : Bookkeeping} {edge : Edge} {r : Reference} {t : NodeId}
    {k : NodeKind} (h : book.RefEdge edge r t k) :
    match edge.kind with
    | .calls => r.owner = edge.source ∧ (r.kind = .call ∨ r.kind = .testCall)
    | .usesMetadata => r.owner = edge.source ∧ r.kind = .metadata
    | .dependsOn => r.owner = edge.source ∧ r.kind = .metadataType
    | .testedBy => r.owner = edge.target ∧ r.kind = .testCall
    | .contains => (r.owner = edge.source ∧ r.kind = .child) ∨
        (r.owner = edge.target ∧ r.kind = .container)
    | .implements | .triggersIncident => False := by
  rw [h.eq]
  unfold Reference.edgeTo Reference.keyTo
  cases hr : r.kind with
  | testCall => by_cases hk : k = .testCase <;> simp [hk]
  | _ => simp

/-- Edges of two references between the same nodes have the same owner and kind. -/
theorem RefEdge.owner_eq {book : Bookkeeping} (unreserved : book.Unreserved) {a b : Edge}
    {r s : Reference} {t u : NodeId} {k l : NodeKind} (ha : book.RefEdge a r t k)
    (hb : book.RefEdge b s u l) (h : a.key = b.key) : r.owner = s.owner ∧ r.kind = s.kind := by
  have hrs := ha.container_ne_child unreserved hb
  have hsr := hb.container_ne_child unreserved ha
  have hra := ha.owner_at
  have hsb := hb.owner_at
  obtain ⟨hsource, htarget, hkind⟩ : a.source = b.source ∧ a.target = b.target ∧ a.kind = b.kind := by
    simpa [Edge.key] using h
  rw [hsource, htarget, hkind] at hra
  cases hk : b.kind with
  | contains =>
    simp only [hk] at hra hsb
    rcases hra with ⟨ho, hr⟩ | ⟨ho, hr⟩ <;> rcases hsb with ⟨ho', hs⟩ | ⟨ho', hs⟩
    · exact ⟨ho.trans ho'.symm, hr.trans hs.symm⟩
    · exact absurd h.symm (hsr hs hr)
    · exact absurd h (hrs hr hs)
    · exact ⟨ho.trans ho'.symm, hr.trans hs.symm⟩
  | calls =>
    -- Whether a call is a test call depends on its owner.
    simp only [hk] at hra hsb
    have ho : r.owner = s.owner := hra.1.trans hsb.1.symm
    refine ⟨ho, ?_⟩
    have fr := ha.own.fitsOwner
    have fs := hb.own.fitsOwner
    rw [ho] at fr
    rcases hra.2 with hr | hr <;> rcases hsb.2 with hs | hs
    · exact hr.trans hs.symm
    · exact absurd (fs.2 hs) (fr.1 hr)
    · exact absurd (fr.2 hr) (fs.1 hs)
    · exact hr.trans hs.symm
  | usesMetadata | dependsOn | testedBy =>
    simp only [hk] at hra hsb
    exact ⟨hra.1.trans hsb.1.symm, hra.2.trans hsb.2.symm⟩
  | implements | triggersIncident => simp [hk] at hra

/-- An edge says which reference it comes from, as far as references are told apart. -/
theorem RefEdge.keyOf_eq {book : Bookkeeping} (unreserved : book.Unreserved) {edge : Edge}
    {r s : Reference} {t u : NodeId} {k l : NodeKind} (hr : book.RefEdge edge r t k)
    (hs : book.RefEdge edge s u l) : PendingQueue.keyOf r = PendingQueue.keyOf s := by
  obtain ⟨ho, hk⟩ := hr.owner_eq unreserved hs rfl
  have hname : r.awaited = s.awaited := by
    have hcallee := Reference.text?_edgeProps_callee r
    rw [← Reference.edgeTo_props r t k, ← hr.eq, hs.eq, Reference.edgeTo_props,
      Reference.text?_edgeProps_callee] at hcallee
    exact (Option.some.inj hcallee).symm
  simp [PendingQueue.keyOf, Reference.placeholderId, ho, hk, hname]

/-- The unit of an edge owns one of its ends. -/
theorem Conforms.anchored {book : Bookkeeping} {edge : Edge} (h : book.Conforms edge) :
    ∃ p id, edge.unit? = some p ∧ (id = edge.source ∨ id = edge.target) ∧
      book.nodeUnit[id]? = some p := by
  rcases h with h | ⟨r, t, k, h⟩
  · cases h with
    | declares hm _ _ _ _ _ => exact ⟨_, _, Fragment.ownedEdge_unit? _ _ _ _, .inl rfl, hm⟩
    | implements _ hd _ _ => exact ⟨_, _, Fragment.ownedEdge_unit? _ _ _ _, .inr rfl, hd⟩
    | triggers _ hd _ _ => exact ⟨_, _, Fragment.ownedEdge_unit? _ _ _ _, .inl rfl, hd⟩
  · have hunit : edge.unit? = some r.unit := by rw [h.eq, Reference.edgeTo_unit?]
    refine ⟨r.unit, r.owner, hunit, ?_, h.own.unit⟩
    rcases h.source_or_target with ⟨hs, -⟩ | ⟨-, ht⟩
    · exact .inl hs.symm
    · exact .inr ht.symm

/-- Both ends of an edge within a unit belong to it, if they belong to a unit. -/
theorem OwnEdge.unit?_of_end {book : Bookkeeping} (unreserved : book.Unreserved) {edge : Edge}
    (h : book.OwnEdge edge) {id : NodeId} {p : String} (hid : id = edge.source ∨ id = edge.target)
    (hp : book.nodeUnit[id]? = some p) : edge.unit? = some p := by
  cases h with
  | declares hm _ _ hd _ _ =>
    rw [Fragment.ownedEdge_unit?]
    rcases hid with rfl | rfl
    · exact hm.symm.trans hp
    · exact hd.symm.trans hp
  | implements _ hd _ _ =>
    rw [Fragment.ownedEdge_unit?]
    rcases hid with rfl | rfl
    · have hreserved := unreserved _ _ hp
      simp [Fragment.ownedEdge] at hreserved
    · exact hd.symm.trans hp
  | triggers _ hd _ _ =>
    rw [Fragment.ownedEdge_unit?]
    rcases hid with rfl | rfl
    · exact hd.symm.trans hp
    · have hreserved := unreserved _ _ hp
      simp [Fragment.ownedEdge] at hreserved

/-- The nodes at the ends of an edge and its kind say which unit it belongs to. -/
theorem Conforms.unit?_eq {book : Bookkeeping} (unreserved : book.Unreserved) {a b : Edge}
    (ha : book.Conforms a) (hb : book.Conforms b) (h : a.key = b.key) : a.unit? = b.unit? := by
  obtain ⟨hsource, htarget, -⟩ : a.source = b.source ∧ a.target = b.target ∧ a.kind = b.kind := by
    simpa [Edge.key] using h
  obtain ⟨p, x, hp, hx, hxp⟩ := ha.anchored
  obtain ⟨q, y, hq, hy, hyq⟩ := hb.anchored
  rcases ha with ha | ⟨r, t, k, ha⟩
  · rw [ha.unit?_of_end unreserved (hsource ▸ htarget ▸ hy) hyq, hq]
  · rcases hb with hb | ⟨s, u, l, hb⟩
    · rw [hb.unit?_of_end unreserved (hsource ▸ htarget ▸ hx) hxp, hp]
    · have ho := (ha.owner_eq unreserved hb h).1
      rw [ha.eq, hb.eq, Reference.edgeTo_unit?, Reference.edgeTo_unit?, ← ha.own.unit, ho, hb.own.unit]

/-! ## The ends of edges -/

theorem contains_of_kind? {ix : NameIndex} {id : NodeId} {kind : NodeKind}
    (h : ix.kind? id = some kind) : ix.contains id = true := by
  obtain ⟨entry, he, -⟩ := Option.map_eq_some_iff.mp h
  exact (Maps.contains_iff _ _).mpr ⟨entry, he⟩

theorem OwnEdge.known {book : Bookkeeping} {edge : Edge} (h : book.OwnEdge edge) {id : NodeId}
    (hid : id = edge.source ∨ id = edge.target) : book.index.contains id = true := by
  cases h with
  | declares _ hmk _ _ hdk _ =>
    rcases hid with rfl | rfl
    · exact contains_of_kind? hmk
    · exact contains_of_kind? hdk
  | implements hs _ hdk _ =>
    rcases hid with rfl | rfl
    · exact hs
    · exact contains_of_kind? hdk
  | triggers hs _ hdk _ =>
    rcases hid with rfl | rfl
    · exact contains_of_kind? hdk
    · exact hs

theorem RefEdge.known {book : Bookkeeping} {edge : Edge} {r : Reference} {t : NodeId}
    {kind : NodeKind} (h : book.RefEdge edge r t kind) {id : NodeId}
    (hid : id = edge.source ∨ id = edge.target) :
    book.index.contains id = true ∨ book.pending.Awaits id := by
  rcases h.end_cases hid with rfl | rfl
  · obtain ⟨kind, hk, -⟩ := h.own.kind
    exact .inl (contains_of_kind? hk)
  · rcases h.target with ⟨hk, -⟩ | ⟨rfl, -, hw⟩
    · exact .inl (contains_of_kind? hk)
    · exact .inr ⟨_, r, hw, rfl⟩

end Bookkeeping

/-! ## What references are resolved to -/

/-- Everything in the index is entered as the node it is, and no placeholder is in it. -/
def NameIndex.Real (ix : NameIndex) : Prop :=
  ∀ (id : NodeId) entry, ix.entries[id]? = some entry →
    (∃ node : Node, node.id = id ∧ .ofNode node = entry) ∧ id.isPlaceholder = false

/-- A reference is resolved to a node of a kind that fits. -/
theorem NameIndex.Real.admits {ix : NameIndex} (real : ix.Real) (sound : ix.Sound) {r : Reference}
    {target : NodeId} {kind : NodeKind} (h : ix.resolve? r = some (target, kind)) :
    ix.kind? target = some kind ∧ r.kind.admits kind = true := by
  obtain ⟨ht, hk⟩ := NameIndex.resolve?_eq_some_iff.mp h
  refine ⟨hk, ?_⟩
  obtain ⟨entry, he, rfl⟩ := Option.map_eq_some_iff.mp hk
  obtain ⟨⟨node, -, rfl⟩, -⟩ := real target entry he
  rw [IndexEntry.ofNode_kind]
  cases hc : r.kind.isCall with
  | true =>
    obtain ⟨name, hname⟩ := sound.declOf?_of_target? hc ht
    rw [NameIndex.declOf?, he, Option.bind_some] at hname
    have hdecl := IndexEntry.isDecl_of_decl hname
    cases hr : r.kind <;> simp [hr, RefKind.isCall, RefKind.admits, hdecl] at hc ⊢
  | false =>
    have hname := sound.objectOf?_of_target? hc ht
    rw [NameIndex.objectOf?, he, Option.bind_some] at hname
    have hobject := (IndexEntry.objectKey_eq_some_iff.mp hname).1
    cases hr : r.kind <;> simp [hr, RefKind.isCall, RefKind.admits, hobject] at hc ⊢

/-! ## Edges to placeholders -/

/-- Whether one end of an edge is a placeholder. -/
def EdgeKey.isOpen (k : EdgeKey) : Bool := k.source.isPlaceholder || k.target.isPlaceholder

theorem Reference.isOpen_keyTo (r : Reference) (target : NodeId) (kind : NodeKind) :
    (r.keyTo target kind).isOpen = (r.owner.isPlaceholder || target.isPlaceholder) := by
  unfold EdgeKey.isOpen Reference.keyTo
  cases r.kind with
  | testCall => by_cases hk : kind = .testCase <;> simp [hk, Bool.or_comm]
  | container => simp [Bool.or_comm]
  | _ => rfl

theorem Reference.isOpen_placeholderEdge (r : Reference) : r.placeholderEdge.key.isOpen = true := by
  rw [Reference.placeholderEdge_key, Reference.isOpen_keyTo, Reference.isPlaceholder_placeholderId,
    Bool.or_true]

/-- The edge of a reference ends at a placeholder as long as the reference is not resolved. -/
theorem NameIndex.Real.isOpen_standing {ix : NameIndex} (real : ix.Real) {r : Reference}
    (howner : r.owner.isPlaceholder = false) : (ix.standing r).key.isOpen = !ix.resolves r := by
  unfold NameIndex.standing NameIndex.resolves
  cases hr : ix.resolve? r with
  | none => exact r.isOpen_placeholderEdge
  | some found =>
    obtain ⟨entry, he, -⟩ := Option.map_eq_some_iff.mp (NameIndex.kind?_of_resolve? hr)
    dsimp only
    rw [Reference.edgeTo_key, Reference.isOpen_keyTo, howner, (real _ entry he).2]
    rfl

namespace Bookkeeping

theorem OwnRef.isPlaceholder_owner {book : Bookkeeping} (unreserved : book.Unreserved)
    {r : Reference} (h : book.OwnRef r) : r.owner.isPlaceholder = false :=
  NodeId.isPlaceholder_eq_false (unreserved _ _ h.unit)

theorem OwnEdge.isOpen {book : Bookkeeping} (unreserved : book.Unreserved) {edge : Edge}
    (h : book.OwnEdge edge) : edge.key.isOpen = false := by
  have hid : ∀ {id : NodeId} {p : String}, book.nodeUnit[id]? = some p → id.isPlaceholder = false :=
    fun hp => NodeId.isPlaceholder_eq_false (unreserved _ _ hp)
  cases h with
  | declares hm _ _ hd _ _ => simp [EdgeKey.isOpen, Edge.key, Fragment.ownedEdge, hid hm, hid hd]
  | implements _ hd _ _ => simp [EdgeKey.isOpen, Edge.key, Fragment.ownedEdge, hid hd]
  | triggers _ hd _ _ => simp [EdgeKey.isOpen, Edge.key, Fragment.ownedEdge, hid hd]

/-! ## The mirror -/

/-- What the builder remembers is what the graph holds. -/
structure Mirrors (book : Bookkeeping) (g : PropertyGraph) : Prop where
  node_id : ∀ (id : NodeId) node, g.nodes[id]? = some node → node.id = id
  edge_key : ∀ (k : EdgeKey) edge, g.edges[k]? = some edge → edge.key = k
  /-- The index has the nodes that are no placeholders. -/
  entries : ∀ id : NodeId, book.index.entries[id]? =
    (g.nodes[id]?.filter fun node => node.kind ≠ .unknown).map .ofNode
  sound : book.index.Sound
  /-- Nodes name their units. -/
  nodeUnit : ∀ id : NodeId, book.nodeUnit[id]? = g.nodes[id]?.bind Node.unit?
  owns : ∀ p id, book.Owns p id ↔ book.nodeUnit[id]? = some p
  unreserved : book.Unreserved
  /-- Nodes without a unit are placeholders, requirements or incidents. -/
  unowned : ∀ (id : NodeId) node, g.nodes[id]? = some node → node.unit? = none →
    (∃ name, node = .placeholder name) ∨
      ∃ key, node = Fragment.requirementNode key ∨ node = Fragment.incidentNode key
  placeholders : ∀ id : NodeId, (∃ node, g.nodes[id]? = some node ∧ node.kind = .unknown) ↔
    book.pending.Awaits id
  /-- Edges name their units. -/
  holds : ∀ p k, book.Holds p k ↔ ∃ edge, g.edges[k]? = some edge ∧ edge.unit? = some p
  conforms : ∀ (k : EdgeKey) edge, g.edges[k]? = some edge → book.Conforms edge
  keyed : book.pending.Keyed
  /-- A waiting reference has its edge. -/
  waiting : ∀ (key : PendingKey) r, book.pending.waiting[key]? = some r →
    book.OwnRef r ∧ g.edges[r.placeholderEdge.key]? = some r.placeholderEdge ∧
      book.index.resolves r = false
  /-- There are no two edges of one reference. -/
  single : ∀ (k k' : EdgeKey) edge edge' r r' t t' l l', g.edges[k]? = some edge →
    g.edges[k']? = some edge' → book.RefEdge edge r t l → book.RefEdge edge' r' t' l' →
    PendingQueue.keyOf r = PendingQueue.keyOf r' → k = k'

theorem mirrors_empty : Mirrors {} {} where
  node_id id node h := by simp at h
  edge_key k edge h := by simp at h
  entries id := by simp
  sound := NameIndex.faithful_empty.toSound
  nodeUnit id := by simp
  owns p id := by simp [Owns]
  unreserved id p h := by simp at h
  unowned id node h := by simp at h
  placeholders id := by simp [PendingQueue.Awaits]
  holds p k := by simp [Holds]
  conforms k edge h := by simp at h
  keyed := PendingQueue.keyed_empty
  waiting key r h := by simp at h
  single k k' edge edge' r r' t t' l l' h := by simp at h

namespace Mirrors

variable {book : Bookkeeping} {g : PropertyGraph}

theorem entry_of_node (m : book.Mirrors g) {id : NodeId} {node : Node}
    (hn : g.nodes[id]? = some node) (real : node.kind ≠ .unknown) :
    book.index.entries[id]? = some (.ofNode node) := by
  rw [m.entries, hn]
  simp [real]

theorem node_of_entry (m : book.Mirrors g) {id : NodeId} {entry : IndexEntry}
    (he : book.index.entries[id]? = some entry) :
    ∃ node, g.nodes[id]? = some node ∧ node.kind ≠ .unknown ∧ .ofNode node = entry := by
  rw [m.entries] at he
  obtain ⟨node, hn, rfl⟩ := Option.map_eq_some_iff.mp he
  obtain ⟨hn, hk⟩ := Option.filter_eq_some_iff.mp hn
  exact ⟨node, hn, by simpa using hk, rfl⟩

theorem node_of_kind? (m : book.Mirrors g) {id : NodeId} {kind : NodeKind}
    (hk : book.index.kind? id = some kind) : ∃ node, g.nodes[id]? = some node ∧ node.kind = kind := by
  obtain ⟨entry, he, rfl⟩ := Option.map_eq_some_iff.mp hk
  obtain ⟨node, hn, -, rfl⟩ := m.node_of_entry he
  exact ⟨node, hn, (IndexEntry.ofNode_kind node).symm⟩

/-- What has no unit and is no placeholder has a reserved id. -/
theorem reserved_of_unowned (m : book.Mirrors g) {id : NodeId} {entry : IndexEntry}
    (he : book.index.entries[id]? = some entry) (hu : book.nodeUnit[id]? = none) :
    id.isReserved = true ∧ id.isPlaceholder = false := by
  obtain ⟨node, hn, hreal, -⟩ := m.node_of_entry he
  have hunit : node.unit? = none := by simpa [m.nodeUnit, hn] using hu
  have hid := m.node_id id node hn
  rcases m.unowned id node hn hunit with ⟨name, rfl⟩ | ⟨key, rfl | rfl⟩
  · simp [Node.placeholder] at hreal
  · rw [← hid]; simp [Fragment.requirementNode]
  · rw [← hid]; simp [Fragment.incidentNode]

theorem real (m : book.Mirrors g) : book.index.Real := by
  intro id entry he
  obtain ⟨node, hn, -, heq⟩ := m.node_of_entry he
  refine ⟨⟨node, m.node_id id node hn, heq⟩, ?_⟩
  cases hu : book.nodeUnit[id]? with
  | none => exact (m.reserved_of_unowned he hu).2
  | some p => exact NodeId.isPlaceholder_eq_false (m.unreserved id p hu)

/-- The ends of every edge are nodes. -/
theorem known_of_edge (m : book.Mirrors g) {k : EdgeKey} {edge : Edge}
    (h : g.edges[k]? = some edge) {id : NodeId} (hid : id = edge.source ∨ id = edge.target) :
    ∃ node, g.nodes[id]? = some node := by
  have hknown : book.index.contains id = true ∨ book.pending.Awaits id := by
    rcases m.conforms k edge h with h | ⟨r, t, kind, h⟩
    · exact .inl (h.known hid)
    · exact h.known hid
  rcases hknown with hc | ha
  · obtain ⟨entry, he⟩ := (Maps.contains_iff _ _).mp hc
    exact (m.node_of_entry he).imp fun _ h => h.1
  · exact ((m.placeholders id).mpr ha).imp fun _ h => h.1

end Mirrors

end Bookkeeping

end CodeAtlas
