import CodeAtlas.Proofs.Fragment
import CodeAtlas.Proofs.Planning.Retract

/-!
# Adding fragments

The second thing a draft does is to add the fragments of the units that are still there. A fragment
comes in piece by piece: a node is accepted unless another unit owns its id, an edge if both its ends
were, a reference if its owner was. At every moment the maps of the draft are those it had before with
the accepted nodes on top, and the plan lists exactly these (`Adds`).
-/

set_option autoImplicit false

namespace CodeAtlas

open Std

theorem NameIndex.moduleOf?_eq_module? {ix : NameIndex} {node : Node}
    (h : ix.entries[node.id]? = some (.ofNode node)) : ix.moduleOf? node.id = node.module? := by
  unfold NameIndex.moduleOf? Node.module?
  rw [h]
  cases hd : (IndexEntry.ofNode node).decl with
  | none => cases hk : node.kind <;> simp [hd, hk]
  | some name => simp [hd]

theorem NameIndex.kind?_add {ix : NameIndex} {node : Node} (real : node.kind ≠ .unknown)
    (id : NodeId) :
    (ix.add node).kind? id = if node.id = id then some node.kind else ix.kind? id := by
  rw [kind?, entries_add real]
  split <;> simp [kind?]

namespace Bookkeeping

/-! ## Edges and references that a unit owns -/

/-- An edge between nodes of one unit, or from one of them to a requirement or an incident. -/
inductive OwnEdge (book : Bookkeeping) : Edge → Prop
  | declares {path : String} {module decl : NodeId} {mk dk : NodeKind}
      (hm : book.nodeUnit[module]? = some path) (hmk : book.index.kind? module = some mk)
      (module_kind : mk.isModule = true) (hd : book.nodeUnit[decl]? = some path)
      (hdk : book.index.kind? decl = some dk) (decl_kind : dk.isDecl = true) :
      OwnEdge book (Fragment.ownedEdge path module decl .contains)
  | implements {path key : String} {decl : NodeId} {dk : NodeKind}
      (hs : book.index.contains (.requirement key) = true) (hd : book.nodeUnit[decl]? = some path)
      (hdk : book.index.kind? decl = some dk) (decl_kind : dk.isDecl = true) :
      OwnEdge book (Fragment.ownedEdge path (.requirement key) decl .implements)
  | triggers {path key : String} {decl : NodeId} {dk : NodeKind}
      (hs : book.index.contains (.incident key) = true) (hd : book.nodeUnit[decl]? = some path)
      (hdk : book.index.kind? decl = some dk) (decl_kind : dk.isDecl = true) :
      OwnEdge book (Fragment.ownedEdge path decl (.incident key) .triggersIncident)

/-- A reference whose unit owns its owner, and whose kind and context fit the owner. -/
structure OwnRef (book : Bookkeeping) (r : Reference) : Prop where
  unit : book.nodeUnit[r.owner]? = some r.unit
  kind : ∃ kind, book.index.kind? r.owner = some kind ∧ r.kind.ownedBy kind = true
  context : r.context = if r.kind.isCall then book.index.moduleOf? r.owner else none

/-- What is known of a node in one bookkeeping is known of it in another. -/
structure KeepsAt (book book' : Bookkeeping) (id : NodeId) : Prop where
  nodeUnit : ∀ p, book.nodeUnit[id]? = some p → book'.nodeUnit[id]? = some p
  entries : ∀ e, book.index.entries[id]? = some e → book'.index.entries[id]? = some e

theorem KeepsAt.kind? {book book' : Bookkeeping} {id : NodeId} (h : KeepsAt book book' id)
    {kind : NodeKind} (hk : book.index.kind? id = some kind) : book'.index.kind? id = some kind := by
  obtain ⟨e, he, rfl⟩ := Option.map_eq_some_iff.mp hk
  rw [NameIndex.kind?, h.entries e he]
  rfl

theorem KeepsAt.contains {book book' : Bookkeeping} {id : NodeId} (h : KeepsAt book book' id)
    (hc : book.index.contains id = true) : book'.index.contains id = true := by
  obtain ⟨e, he⟩ := (Maps.contains_iff _ _).mp hc
  exact (Maps.contains_iff _ _).mpr ⟨e, h.entries e he⟩

theorem OwnEdge.keep {book book' : Bookkeeping} {edge : Edge} (h : book.OwnEdge edge)
    (hs : KeepsAt book book' edge.source) (ht : KeepsAt book book' edge.target) :
    book'.OwnEdge edge := by
  cases h with
  | declares hm hmk mkind hd hdk dkind =>
    exact .declares (hs.nodeUnit _ hm) (hs.kind? hmk) mkind (ht.nodeUnit _ hd) (ht.kind? hdk) dkind
  | implements hr hd hdk dkind =>
    exact .implements (hs.contains hr) (ht.nodeUnit _ hd) (ht.kind? hdk) dkind
  | triggers hr hd hdk dkind =>
    exact .triggers (ht.contains hr) (hs.nodeUnit _ hd) (hs.kind? hdk) dkind

/-- The nodes at the ends of an edge say which unit it belongs to. -/
theorem OwnEdge.unit?_eq {book : Bookkeeping} {a b : Edge} (ha : book.OwnEdge a)
    (hb : book.OwnEdge b) (h : a.key = b.key) : a.unit? = b.unit? := by
  have hunit : ∀ {p q : String} {id : NodeId}, book.nodeUnit[id]? = some p →
      book.nodeUnit[id]? = some q → some p = some q := fun hp hq => hp.symm.trans hq
  cases ha with
  | declares _ _ _ hd =>
    cases hb with
    | declares _ _ _ hd' =>
      obtain ⟨-, rfl⟩ : _ ∧ _ := by simpa [Fragment.ownedEdge, Edge.key] using h
      simpa using hunit hd hd'
    | _ => simp [Fragment.ownedEdge, Edge.key] at h
  | implements _ hd =>
    cases hb with
    | implements _ hd' =>
      obtain ⟨-, rfl⟩ : _ ∧ _ := by simpa [Fragment.ownedEdge, Edge.key] using h
      simpa using hunit hd hd'
    | _ => simp [Fragment.ownedEdge, Edge.key] at h
  | triggers _ hd =>
    cases hb with
    | triggers _ hd' =>
      obtain ⟨rfl, -⟩ : _ ∧ _ := by simpa [Fragment.ownedEdge, Edge.key] using h
      simpa using hunit hd hd'
    | _ => simp [Fragment.ownedEdge, Edge.key] at h

theorem OwnRef.keep {book book' : Bookkeeping} {r : Reference} (h : book.OwnRef r)
    (ho : KeepsAt book book' r.owner) : book'.OwnRef r := by
  obtain ⟨kind, hk, hok⟩ := h.kind
  refine ⟨ho.nodeUnit _ h.unit, ⟨kind, ho.kind? hk, hok⟩, ?_⟩
  obtain ⟨e, he, -⟩ := Option.map_eq_some_iff.mp hk
  rw [h.context]
  simp only [NameIndex.moduleOf?, he, ho.entries e he]

end Bookkeeping

namespace Draft

/-! ## Accepted nodes -/

/-- A draft with what is remembered of one more unit. -/
def withUnit (d : Draft) (path : String) (unit : UnitState) : Draft :=
  { d with book := { d.book with units := d.book.units.insert path unit } }

/-- What has to hold of a draft before fragments are added to it. -/
structure Ready (base : Draft) : Prop where
  /-- Nodes that belong to no unit have reserved ids, and the others have not. -/
  known : ∀ (id : NodeId) entry, base.book.index.entries[id]? = some entry →
    id.isReserved = false → ∃ p, base.book.nodeUnit[id]? = some p
  nodeUnit : ∀ (id : NodeId) p, base.book.nodeUnit[id]? = some p → id.isReserved = false
  owns : ∀ (id : NodeId) p, base.book.nodeUnit[id]? = some p → base.book.Owns p id
  retracted : ∀ (id : NodeId) kind, base.retracted[id]? = some kind → id.isReserved = false
  upsertNodes : base.plan.upsertNodes = ∅
  upsertEdges : base.plan.upsertEdges = ∅
  rekinded : base.rekinded = []
  refs : base.refs = []

/-- Units whose nodes are entered under names that nothing else is entered under. -/
structure Compatible (markers : List String) (base : Draft) (puts : List ParsedUnit) : Prop where
  faithful : base.book.index.Faithful
  free : ∀ p ∈ puts, ∀ node ∈ (Fragment.build markers p).nodes, base.book.index.Free node
  apart : ∀ p ∈ puts, ∀ q ∈ puts, p ≠ q → ∀ a ∈ (Fragment.build markers p).nodes,
    ∀ b ∈ (Fragment.build markers q).nodes, a.id ≠ b.id ∧
      (∀ name, (IndexEntry.ofNode a).commonModule = some name →
        (IndexEntry.ofNode b).commonModule ≠ some name) ∧
      (∀ name, (IndexEntry.ofNode a).objectKey = some name →
        (IndexEntry.ofNode b).objectKey ≠ some name)

/-- A draft to which pieces of the fragments of some units have been added. -/
structure Adds (markers : List String) (base : Draft) (puts : List ParsedUnit) (d : Draft) :
    Prop where
  named : ∀ (id : NodeId) node, d.plan.upsertNodes[id]? = some node → node.id = id
  source : ∀ (id : NodeId) node, d.plan.upsertNodes[id]? = some node →
    ∃ p ∈ puts, node ∈ (Fragment.build markers p).nodes ∨ node ∈ (Fragment.build markers p).shared
  fresh : ∀ (id : NodeId) node, d.plan.upsertNodes[id]? = some node →
    base.book.index.entries[id]? = none
  entries : ∀ id : NodeId, d.book.index.entries[id]? =
    (d.plan.upsertNodes[id]?.map IndexEntry.ofNode).or base.book.index.entries[id]?
  nodeUnit : ∀ id : NodeId, d.book.nodeUnit[id]? =
    (d.plan.upsertNodes[id]?.bind Node.unit?).or base.book.nodeUnit[id]?
  unreserved : ∀ (id : NodeId) q, d.book.nodeUnit[id]? = some q → id.isReserved = false
  owns : ∀ q id, d.book.Owns q id ↔
    base.book.Owns q id ∨ ∃ node, d.plan.upsertNodes[id]? = some node ∧ node.unit? = some q
  units : ∀ q : String, (∀ p ∈ puts, p.unit.path ≠ q) → d.book.units[q]? = base.book.units[q]?
  hash : ∀ p ∈ puts, ∃ unit, d.book.units[p.unit.path]? = some unit ∧ unit.hash = p.unit.hash
  sound : base.book.index.Sound → d.book.index.Sound
  faithful : Compatible markers base puts → d.book.index.Faithful
  retracted : ∀ id : NodeId, d.retracted[id]? =
    if d.plan.upsertNodes.contains id then none else base.retracted[id]?
  rekinded : ∀ id, id ∈ d.rekinded ↔ ∃ node kind, d.plan.upsertNodes[id]? = some node ∧
    base.retracted[id]? = some kind ∧ kind ≠ node.kind
  edges : ∀ (k : EdgeKey) edge, d.plan.upsertEdges[k]? = some edge → edge.key = k ∧
    d.book.OwnEdge edge ∧ ∃ p ∈ puts, edge ∈ (Fragment.build markers p).edges
  holds : ∀ q k, d.book.Holds q k ↔
    base.book.Holds q k ∨ ∃ edge, d.plan.upsertEdges[k]? = some edge ∧ edge.unit? = some q
  deleteEdges : ∀ k, k ∈ d.plan.deleteEdges ↔
    k ∈ base.plan.deleteEdges ∧ d.plan.upsertEdges[k]? = none
  deleteNodes : d.plan.deleteNodes = base.plan.deleteNodes
  pending : d.book.pending = base.book.pending
  refs : ∀ r ∈ d.refs, d.book.OwnRef r ∧ ∃ p ∈ puts, r ∈ (Fragment.build markers p).refs

variable {markers : List String} {base d : Draft} {puts : List ParsedUnit}

theorem Ready.adds (ready : Ready base) : Adds markers base [] base := by
  constructor
  case faithful => exact Compatible.faithful
  case unreserved => exact ready.nodeUnit
  all_goals simp [ready.upsertNodes, ready.upsertEdges, ready.rekinded, ready.refs]

theorem units_withUnit (d : Draft) (path q : String) (unit : UnitState) :
    (d.withUnit path unit).book.units[q]? = if path = q then some unit else d.book.units[q]? := by
  simp [withUnit, ExtTreeMap.getElem?_insert]

theorem owns_withUnit (d : Draft) (path q : String) (unit : UnitState) (id : NodeId) :
    (d.withUnit path unit).book.Owns q id ↔
      if path = q then id ∈ unit.nodes else d.book.Owns q id := by
  unfold Bookkeeping.Owns
  rw [units_withUnit]
  split <;> simp

theorem holds_withUnit (d : Draft) (path q : String) (unit : UnitState) (key : EdgeKey) :
    (d.withUnit path unit).book.Holds q key ↔
      if path = q then key ∈ unit.edges else d.book.Holds q key := by
  unfold Bookkeeping.Holds
  rw [units_withUnit]
  split <;> simp

/-- A unit of which nothing is remembered yet can start empty. -/
theorem owns_begin {path : String} (new : d.book.units[path]? = none) (hash : ContentHash) (q : String)
    (id : NodeId) : (d.withUnit path { hash }).book.Owns q id ↔ d.book.Owns q id := by
  rw [owns_withUnit]
  split
  next hq => subst hq; simp [Bookkeeping.Owns, new]
  next => rfl

theorem holds_begin {path : String} (new : d.book.units[path]? = none) (hash : ContentHash)
    (q : String) (k : EdgeKey) :
    (d.withUnit path { hash }).book.Holds q k ↔ d.book.Holds q k := by
  rw [holds_withUnit]
  split
  next hq => subst hq; simp [Bookkeeping.Holds, new]
  next => rfl

theorem Compatible.tail {p : ParsedUnit} (h : Compatible markers base (p :: puts)) :
    Compatible markers base puts where
  faithful := h.faithful
  free q hq := h.free q (List.mem_cons_of_mem p hq)
  apart q hq r hr := h.apart q (List.mem_cons_of_mem p hq) r (List.mem_cons_of_mem p hr)

/-- A new unit starts with no nodes and no edges. -/
theorem Adds.begin {p : ParsedUnit} (h : Adds markers base puts d)
    (new : ∀ q ∈ puts, q.unit.path ≠ p.unit.path) (hbase : base.book.units[p.unit.path]? = none) :
    Adds markers base (p :: puts) (d.withUnit p.unit.path { hash := p.unit.hash }) := by
  have hnone : d.book.units[p.unit.path]? = none := by rw [h.units _ new, hbase]
  constructor
  case named => exact h.named
  case source =>
    intro id node hn
    obtain ⟨q, hq, hs⟩ := h.source id node hn
    exact ⟨q, List.mem_cons_of_mem p hq, hs⟩
  case fresh => exact h.fresh
  case entries => exact h.entries
  case nodeUnit => exact h.nodeUnit
  case unreserved => exact h.unreserved
  case owns => exact fun q id => (owns_begin hnone _ q id).trans (h.owns q id)
  case units =>
    intro q hq
    have hp : p.unit.path ≠ q := hq p List.mem_cons_self
    rw [units_withUnit, if_neg hp]
    exact h.units q fun r hr => hq r (List.mem_cons_of_mem p hr)
  case hash =>
    intro q hq
    rcases List.mem_cons.mp hq with rfl | hq
    · exact ⟨_, by rw [units_withUnit, if_pos rfl], rfl⟩
    · obtain ⟨unit, hu, hh⟩ := h.hash q hq
      exact ⟨unit, by rw [units_withUnit, if_neg fun he => new q hq he.symm, hu], hh⟩
  case sound => exact h.sound
  case faithful => exact fun hc => h.faithful hc.tail
  case retracted => exact h.retracted
  case rekinded => exact h.rekinded
  case edges =>
    intro k edge he
    obtain ⟨hk, hown, q, hq, hs⟩ := h.edges k edge he
    exact ⟨hk, hown.keep ⟨fun _ => id, fun _ => id⟩ ⟨fun _ => id, fun _ => id⟩, q,
      List.mem_cons_of_mem p hq, hs⟩
  case holds => exact fun q k => (holds_begin hnone _ q k).trans (h.holds q k)
  case deleteEdges => exact h.deleteEdges
  case deleteNodes => exact h.deleteNodes
  case pending => exact h.pending
  case refs =>
    intro r hr
    obtain ⟨hown, q, hq, hs⟩ := h.refs r hr
    exact ⟨hown.keep ⟨fun _ => id, fun _ => id⟩, q, List.mem_cons_of_mem p hq, hs⟩

/-- An id that nothing owns and that is not reserved is not among the accepted nodes. -/
theorem Adds.upsertNodes_eq_none (h : Adds markers base puts d) {id : NodeId}
    (hfree : d.book.nodeUnit[id]? = none) (hid : id.isReserved = false) :
    d.plan.upsertNodes[id]? = none := by
  cases hn : d.plan.upsertNodes[id]? with
  | none => rfl
  | some node =>
    obtain ⟨p, -, hs | hs⟩ := h.source id node hn
    · have hunit := ((Fragment.wellFormed_build markers p).owned node hs).unit
      rw [h.nodeUnit, hn, Option.bind_some, hunit] at hfree
      simp at hfree
    · have hname := h.named id node hn
      obtain ⟨key, rfl | rfl⟩ := (Fragment.wellFormed_build markers p).shared node hs
      · rw [← hname] at hid; simp [Fragment.requirementNode] at hid
      · rw [← hname] at hid; simp [Fragment.incidentNode] at hid

/-- An id that nothing owns and that is not reserved is not known at all. -/
theorem Adds.entries_eq_none (h : Adds markers base puts d) (ready : Ready base) {id : NodeId}
    (hfree : d.book.nodeUnit[id]? = none) (hid : id.isReserved = false) :
    base.book.index.entries[id]? = none ∧ d.book.index.entries[id]? = none := by
  have hn := h.upsertNodes_eq_none hfree hid
  have hbase : base.book.index.entries[id]? = none := by
    cases he : base.book.index.entries[id]? with
    | none => rfl
    | some entry =>
      obtain ⟨q, hq⟩ := ready.known id entry he hid
      rw [h.nodeUnit, hn, hq] at hfree
      simp at hfree
  refine ⟨hbase, ?_⟩
  rw [h.entries, hn, hbase]
  rfl

/-- A node is known under the kind of the accepted node, else under the kind it had before. -/
theorem Adds.kind?_eq (h : Adds markers base puts d) (id : NodeId) :
    d.book.index.kind? id =
      (d.plan.upsertNodes[id]?.map (·.kind)).or (base.book.index.kind? id) := by
  rw [NameIndex.kind?, h.entries]
  cases d.plan.upsertNodes[id]? with
  | none => rfl
  | some node => simp

/-- Two nodes that are entered under no name in common. -/
structure NoClash (a b : Node) : Prop where
  decl : ∀ name, (IndexEntry.ofNode a).decl = some name → (IndexEntry.ofNode b).decl ≠ some name
  common : ∀ name, (IndexEntry.ofNode a).commonModule = some name →
    (IndexEntry.ofNode b).commonModule ≠ some name
  object : ∀ name, (IndexEntry.ofNode a).objectKey = some name →
    (IndexEntry.ofNode b).objectKey ≠ some name

/-- Requirements and incidents are entered under no name. -/
theorem noClash_of_shared {a : Node} {key : String}
    (h : a = Fragment.requirementNode key ∨ a = Fragment.incidentNode key) (b : Node) :
    NoClash a b := by
  rcases h with rfl | rfl <;>
    constructor <;>
    simp [IndexEntry.ofNode, Fragment.requirementNode, Fragment.incidentNode]

/-- Within a fragment, names tell nodes apart. -/
theorem noClash_of_ne {head : UnitMeta} {f : Fragment} (wf : f.WellFormed head) {a b : Node}
    (ha : a ∈ f.nodes) (hb : b ∈ f.nodes) (hne : a ≠ b) : NoClash a b where
  decl name h h' := hne ((wf.locals a ha name h).2 b hb h')
  common _ h h' := hne (wf.wholes a ha b hb
    (NodeKind.isDecl_eq_false_of_isModule (IndexEntry.isModule_of_commonModule h))
    (NodeKind.isDecl_eq_false_of_isModule (IndexEntry.isModule_of_commonModule h')))
  object _ h h' := hne (wf.wholes a ha b hb
    (NodeKind.isDecl_eq_false_of_isObject (IndexEntry.objectKey_eq_some_iff.mp h).1)
    (NodeKind.isDecl_eq_false_of_isObject (IndexEntry.objectKey_eq_some_iff.mp h').1))

/-- Between units, the ids of modules tell declarations apart. -/
theorem noClash_of_apart {p q : ParsedUnit} (hc : Compatible markers base puts) (hp : p ∈ puts)
    (hq : q ∈ puts) (hne : p ≠ q) {a b : Node} (ha : a ∈ (Fragment.build markers p).nodes)
    (hb : b ∈ (Fragment.build markers q).nodes) : NoClash a b where
  decl name h h' := by
    obtain ⟨m, hm, hmid⟩ := ((Fragment.wellFormed_build markers p).locals a ha name h).1
    obtain ⟨m', hm', hmid'⟩ := ((Fragment.wellFormed_build markers q).locals b hb name h').1
    exact (hc.apart p hp q hq hne m hm m' hm').1 (hmid.trans hmid'.symm)
  common := (hc.apart p hp q hq hne a ha b hb).2.1
  object := (hc.apart p hp q hq hne a ha b hb).2.2

/-- The names of a node of a compatible unit are free. -/
theorem Adds.free_of_compatible {p : ParsedUnit} (h : Adds markers base puts d)
    (hp : p ∈ puts) (hc : Compatible markers base puts) {node : Node}
    (hn : node ∈ (Fragment.build markers p).nodes)
    (hfree : d.book.index.entries[node.id]? = none) : d.book.index.Free node := by
  have hbase := hc.free p hp node hn
  have hnew : ∀ (id : NodeId) m, d.plan.upsertNodes[id]? = some m → NoClash m node := by
    intro id m hm
    obtain ⟨q, hq, hs | hs⟩ := h.source id m hm
    · by_cases hpq : q = p
      · subst hpq
        refine noClash_of_ne (Fragment.wellFormed_build markers q) hs hn ?_
        rintro rfl
        rw [h.entries, h.named id m hm, hm] at hfree
        simp at hfree
      · exact noClash_of_apart hc hq hp hpq hs hn
    · obtain ⟨key, hkey⟩ := (Fragment.wellFormed_build markers q).shared m hs
      exact noClash_of_shared hkey node
  refine NameIndex.free_iff.mpr ⟨hfree, fun id entry he => ?_⟩
  -- An entry is that of an accepted node or was there before.
  rw [h.entries, Option.or_eq_some_iff] at he
  rcases he with he | ⟨-, he⟩
  · obtain ⟨m, hm, rfl⟩ := Option.map_eq_some_iff.mp he
    have apart := hnew id m hm
    exact ⟨apart.decl, apart.common, apart.object⟩
  · exact (NameIndex.free_iff.mp hbase).2 id entry he

/-- The draft with one more node of a unit. -/
def accept (d : Draft) (path : String) (node : Node) : Draft :=
  { d with
    rekinded := match d.retracted[node.id]? with
      | some old => if old = node.kind then d.rekinded else d.rekinded ++ [node.id]
      | none => d.rekinded
    retracted := d.retracted.erase node.id
    book := { d.book with
      index := d.book.index.add node
      nodeUnit := d.book.nodeUnit.insert node.id path }
    plan := d.plan.putNode node }

theorem addNode_eq (path : String) (d : Draft) (unit : UnitState) (node : Node) :
    addNode path (d, unit) node =
      if d.book.nodeUnit[node.id]? = none then
        (d.accept path node, { unit with nodes := unit.nodes.insert node.id })
      else (d, unit) := by
  unfold addNode
  cases hn : d.book.nodeUnit[node.id]? with
  | none =>
    have hc : d.book.nodeUnit.contains node.id = false := (Maps.contains_eq_false_iff _ _).mpr hn
    simp only [hc]
    rfl
  | some q =>
    have hc : d.book.nodeUnit.contains node.id = true := (Maps.contains_iff _ _).mpr ⟨q, hn⟩
    simp [hc]

theorem mem_rekinded_accept (d : Draft) (path : String) (node : Node) (id : NodeId) :
    id ∈ (d.accept path node).rekinded ↔
      id ∈ d.rekinded ∨
        (node.id = id ∧ ∃ kind, d.retracted[id]? = some kind ∧ kind ≠ node.kind) := by
  unfold accept
  cases hr : d.retracted[node.id]? with
  | none =>
    constructor
    · exact .inl
    · rintro (h | ⟨rfl, kind, hk, -⟩)
      · exact h
      · rw [hr] at hk; simp at hk
  | some old =>
    by_cases hk : old = node.kind
    · simp only [hk, if_true]
      constructor
      · exact .inl
      · rintro (h | ⟨rfl, kind, hk', hne⟩)
        · exact h
        · rw [hr] at hk'
          exact absurd ((Option.some.inj hk').symm.trans hk) hne
    · simp only [hk, if_false, List.mem_append, List.mem_singleton]
      constructor
      · rintro (h | rfl)
        · exact .inl h
        · exact .inr ⟨rfl, old, hr, hk⟩
      · rintro (h | ⟨rfl, -⟩)
        · exact .inl h
        · exact .inr rfl

theorem get_upsertNodes_putNode (plan : Plan) (node : Node) (id : NodeId) :
    (plan.putNode node).upsertNodes[id]? =
      if node.id = id then some node else plan.upsertNodes[id]? := by
  simp [Plan.putNode, ExtTreeMap.getElem?_insert]

theorem get_nodeUnit_accept (d : Draft) (path : String) (node : Node) (id : NodeId) :
    (d.accept path node).book.nodeUnit[id]? =
      if node.id = id then some path else d.book.nodeUnit[id]? := by
  simp [accept, ExtTreeMap.getElem?_insert]

theorem get_retracted_accept (d : Draft) (path : String) (node : Node) (id : NodeId) :
    (d.accept path node).retracted[id]? = if node.id = id then none else d.retracted[id]? := by
  simp [accept, ExtTreeMap.getElem?_erase]

theorem owns_accept (d : Draft) (path q : String) (unit : UnitState) (node : Node) (id : NodeId) :
    ((d.accept path node).withUnit path
        { unit with nodes := unit.nodes.insert node.id }).book.Owns q id ↔
      (d.withUnit path unit).book.Owns q id ∨ node.id = id ∧ path = q := by
  rw [owns_withUnit, owns_withUnit]
  split
  next hq => simp [hq, ExtTreeSet.mem_insert, or_comm]
  next hq =>
    simp only [hq, and_false, or_false]
    rfl

theorem holds_accept (d : Draft) (path q : String) (unit : UnitState) (node : Node) (k : EdgeKey) :
    ((d.accept path node).withUnit path
        { unit with nodes := unit.nodes.insert node.id }).book.Holds q k ↔
      (d.withUnit path unit).book.Holds q k := by
  rw [holds_withUnit, holds_withUnit]
  rfl

theorem addShared_eq (d : Draft) (node : Node) :
    d.addShared node =
      if d.book.index.entries[node.id]? = none then
        { d with book := { d.book with index := d.book.index.add node }, plan := d.plan.putNode node }
      else d := by
  unfold addShared NameIndex.contains
  cases hn : d.book.index.entries[node.id]? with
  | none => simp [(Maps.contains_eq_false_iff _ _).mpr hn]
  | some e => simp [(Maps.contains_iff _ _).mpr ⟨e, hn⟩]

/-! ## One node more

A node of a unit and a shared node come in the same way: they differ in the unit that the node names,
and a shared node names none.
-/

/-- A draft and the same draft with one node more, of which nothing was known. -/
structure Enters (node : Node) (d d' : Draft) : Prop where
  unknown : d.book.index.entries[node.id]? = none
  unowned : d.book.nodeUnit[node.id]? = none
  index : d'.book.index = d.book.index.add node
  planned : ∀ id : NodeId, d'.plan.upsertNodes[id]? =
    if node.id = id then some node else d.plan.upsertNodes[id]?
  nodeUnit : ∀ id : NodeId, d'.book.nodeUnit[id]? =
    if node.id = id then node.unit? else d.book.nodeUnit[id]?
  owns : ∀ q id, d'.book.Owns q id ↔ d.book.Owns q id ∨ node.id = id ∧ node.unit? = some q
  units : ∀ q : String, node.unit? ≠ some q → d'.book.units[q]? = d.book.units[q]?
  hash : ∀ (q : String) unit, d.book.units[q]? = some unit →
    ∃ unit', d'.book.units[q]? = some unit' ∧ unit'.hash = unit.hash
  holds : ∀ q k, d'.book.Holds q k ↔ d.book.Holds q k
  retracted : ∀ id : NodeId, d'.retracted[id]? = if node.id = id then none else d.retracted[id]?
  rekinded : ∀ id, id ∈ d'.rekinded ↔
    id ∈ d.rekinded ∨ node.id = id ∧ ∃ kind, d.retracted[id]? = some kind ∧ kind ≠ node.kind
  upsertEdges : d'.plan.upsertEdges = d.plan.upsertEdges
  deleteEdges : d'.plan.deleteEdges = d.plan.deleteEdges
  deleteNodes : d'.plan.deleteNodes = d.plan.deleteNodes
  pending : d'.book.pending = d.book.pending
  refs : d'.refs = d.refs

theorem enters_accept {path : String} {unit : UnitState} {node : Node}
    (owner : node.unit? = some path) (unowned : d.book.nodeUnit[node.id]? = none)
    (unknown : d.book.index.entries[node.id]? = none) :
    Enters node (d.withUnit path unit)
      ((d.accept path node).withUnit path { unit with nodes := unit.nodes.insert node.id }) where
  unknown := unknown
  unowned := unowned
  index := rfl
  planned := get_upsertNodes_putNode d.plan node
  nodeUnit id := by
    rw [owner]
    exact get_nodeUnit_accept d path node id
  owns q id := by
    rw [owns_accept, owner, Option.some.injEq]
  units q hq := by
    rw [owner] at hq
    have hother : path ≠ q := fun he => hq (congrArg some he)
    rw [units_withUnit, units_withUnit, if_neg hother, if_neg hother]
    rfl
  hash q old hold := by
    rw [units_withUnit] at hold ⊢
    split at hold
    next he =>
      cases hold
      exact ⟨_, if_pos he, rfl⟩
    next he => exact ⟨old, (if_neg he).trans hold, rfl⟩
  holds q := holds_accept d path q unit node
  retracted := get_retracted_accept d path node
  rekinded := mem_rekinded_accept d path node
  upsertEdges := rfl
  deleteEdges := rfl
  deleteNodes := rfl
  pending := rfl
  refs := rfl

theorem enters_shared {node : Node} (nobody : node.unit? = none)
    (unowned : d.book.nodeUnit[node.id]? = none) (kept : d.retracted[node.id]? = none)
    (unknown : d.book.index.entries[node.id]? = none) :
    Enters node d
      { d with
        book := { d.book with index := d.book.index.add node }
        plan := d.plan.putNode node } where
  unknown := unknown
  unowned := unowned
  index := rfl
  planned := get_upsertNodes_putNode d.plan node
  nodeUnit id := by
    rw [nobody]
    split
    next he => rw [← he]; exact unowned
    next => rfl
  owns q id := by
    simp only [nobody, reduceCtorEq, and_false, or_false]
    rfl
  units _ _ := rfl
  hash _ old hold := ⟨old, hold, rfl⟩
  holds _ _ := .rfl
  retracted id := by
    split
    next he => rw [← he]; exact kept
    next => rfl
  rekinded id := by
    refine (or_iff_left ?_).symm
    rintro ⟨rfl, kind, hk, -⟩
    rw [kept] at hk
    cases hk
  upsertEdges := rfl
  deleteEdges := rfl
  deleteNodes := rfl
  pending := rfl
  refs := rfl

/-- What was known before is known afterwards. -/
theorem Enters.keeps {node : Node} {d' : Draft} (enters : Enters node d d')
    (real : node.kind ≠ .unknown) (id : NodeId) : Bookkeeping.KeepsAt d.book d'.book id where
  nodeUnit q hq := by
    rw [enters.nodeUnit, if_neg, hq]
    rintro rfl
    rw [enters.unowned] at hq
    cases hq
  entries e he := by
    rw [enters.index]
    exact NameIndex.extends_add real enters.unknown id e he

/-- A node of a fragment enters, under the unit of that fragment if under any. -/
theorem Adds.enter {p : ParsedUnit} {node : Node} {d' : Draft} (h : Adds markers base puts d)
    (enters : Enters node d d') (real : node.kind ≠ .unknown) (hp : p ∈ puts)
    (source : node ∈ (Fragment.build markers p).nodes ∨ node ∈ (Fragment.build markers p).shared)
    (owner : ∀ q, node.unit? = some q → p.unit.path = q ∧ node.id.isReserved = false)
    (free : Compatible markers base puts → d.book.index.Free node) :
    Adds markers base puts d' := by
  obtain ⟨hnone, hbase⟩ :
      d.plan.upsertNodes[node.id]? = none ∧ base.book.index.entries[node.id]? = none := by
    have hold := h.entries node.id
    rw [enters.unknown] at hold
    simpa using hold.symm
  have hunowned : base.book.nodeUnit[node.id]? = none := by
    have hold := h.nodeUnit node.id
    rw [enters.unowned, hnone] at hold
    exact hold.symm
  have hentries : ∀ id : NodeId, d'.book.index.entries[id]? =
      if node.id = id then some (.ofNode node) else d.book.index.entries[id]? := by
    rw [enters.index]
    exact NameIndex.entries_add real
  have hkept : d.retracted[node.id]? = base.retracted[node.id]? := by
    rw [h.retracted, (Maps.contains_eq_false_iff _ _).mpr hnone]
    rfl
  have keeps := enters.keeps real
  constructor
  case named =>
    intro id m hm
    rw [enters.planned] at hm
    split at hm
    next he => cases hm; exact he
    next => exact h.named id m hm
  case source =>
    intro id m hm
    rw [enters.planned] at hm
    split at hm
    next => cases hm; exact ⟨p, hp, source⟩
    next => exact h.source id m hm
  case fresh =>
    intro id m hm
    rw [enters.planned] at hm
    split at hm
    next he => exact he ▸ hbase
    next => exact h.fresh id m hm
  case entries =>
    intro id
    rw [hentries, enters.planned]
    split
    next => rfl
    next => exact h.entries id
  case nodeUnit =>
    intro id
    rw [enters.nodeUnit, enters.planned]
    split
    next he => rw [← he, hunowned, Option.bind_some, Option.or_none]
    next => exact h.nodeUnit id
  case unreserved =>
    intro id q hq
    rw [enters.nodeUnit] at hq
    split at hq
    next he => exact he ▸ (owner q hq).2
    next => exact h.unreserved id q hq
  case owns =>
    intro q id
    rw [enters.owns, h.owns, enters.planned]
    by_cases hid : node.id = id
    · subst hid
      simp [hnone]
    · simp [hid]
  case units =>
    intro q hq
    rw [enters.units q fun he => hq p hp (owner q he).1]
    exact h.units q hq
  case hash =>
    intro q hq
    obtain ⟨unit, hu, hh⟩ := h.hash q hq
    obtain ⟨unit', hu', hh'⟩ := enters.hash _ unit hu
    exact ⟨unit', hu', hh'.trans hh⟩
  case sound =>
    intro hs
    rw [enters.index]
    exact (h.sound hs).add real enters.unknown
  case faithful =>
    intro hc
    rw [enters.index]
    exact (h.faithful hc).add real (free hc)
  case retracted =>
    intro id
    rw [enters.retracted, ExtTreeMap.contains_eq_isSome_getElem?, enters.planned]
    split
    next => rfl
    next => rw [h.retracted, ExtTreeMap.contains_eq_isSome_getElem?]
  case rekinded =>
    intro id
    rw [enters.rekinded, h.rekinded, enters.planned]
    by_cases hid : node.id = id
    · subst hid
      simp [hnone, hkept]
    · simp [hid]
  case edges =>
    intro k edge he
    rw [enters.upsertEdges] at he
    obtain ⟨hk, hown, hs⟩ := h.edges k edge he
    exact ⟨hk, hown.keep (keeps _) (keeps _), hs⟩
  case holds =>
    intro q k
    rw [enters.holds, enters.upsertEdges]
    exact h.holds q k
  case deleteEdges =>
    intro k
    rw [enters.deleteEdges, enters.upsertEdges]
    exact h.deleteEdges k
  case deleteNodes => exact enters.deleteNodes.trans h.deleteNodes
  case pending => exact enters.pending.trans h.pending
  case refs =>
    intro r hr
    rw [enters.refs] at hr
    obtain ⟨hown, hs⟩ := h.refs r hr
    exact ⟨hown.keep (keeps _), hs⟩

theorem Adds.accept {p : ParsedUnit} {unit : UnitState} {node : Node}
    (h : Adds markers base puts (d.withUnit p.unit.path unit)) (ready : Ready base) (hp : p ∈ puts)
    (hn : node ∈ (Fragment.build markers p).nodes) (hid : node.id.isReserved = false)
    (hfree : d.book.nodeUnit[node.id]? = none) :
    Adds markers base puts ((d.accept p.unit.path node).withUnit p.unit.path
      { unit with nodes := unit.nodes.insert node.id }) := by
  have owned := (Fragment.wellFormed_build markers p).owned node hn
  have hunknown := (h.entries_eq_none ready hfree hid).2
  refine h.enter (enters_accept owned.unit hfree hunknown) owned.real hp (.inl hn) (fun q hq => ?_)
    fun hc => h.free_of_compatible hp hc hn hunknown
  rw [owned.unit] at hq
  exact ⟨Option.some.inj hq, hid⟩

theorem Adds.addShared {p : ParsedUnit} {unit : UnitState} {node : Node}
    (h : Adds markers base puts (d.withUnit p.unit.path unit)) (ready : Ready base) (hp : p ∈ puts)
    (hn : node ∈ (Fragment.build markers p).shared) :
    Adds markers base puts ((d.addShared node).withUnit p.unit.path unit) := by
  rw [addShared_eq]
  split
  case isFalse => exact h
  case isTrue hunknown =>
  obtain ⟨key, hkey⟩ := (Fragment.wellFormed_build markers p).shared node hn
  have real : node.kind ≠ .unknown := by
    rcases hkey with rfl | rfl <;> simp [Fragment.requirementNode, Fragment.incidentNode]
  have reserved : node.id.isReserved = true := by
    rcases hkey with rfl | rfl <;> simp [Fragment.requirementNode, Fragment.incidentNode]
  have nobody : node.unit? = none := by
    rcases hkey with rfl | rfl <;>
      simp [Node.unit?, Props.text?, Fragment.requirementNode, Fragment.incidentNode]
  -- A reserved id is nobody's, and was nobody's before.
  have unowned : d.book.nodeUnit[node.id]? = none := by
    refine Option.eq_none_iff_forall_ne_some.mpr fun q hq => ?_
    rw [h.unreserved node.id q hq] at reserved
    cases reserved
  have kept : d.retracted[node.id]? = none := by
    refine (h.retracted node.id).trans (ite_eq_left_iff.mpr fun _ => ?_)
    refine Option.eq_none_iff_forall_ne_some.mpr fun kind hk => ?_
    rw [ready.retracted node.id kind hk] at reserved
    cases reserved
  refine h.enter (enters_shared nobody unowned kept hunknown) real hp (.inr hn) (fun q hq => ?_)
    fun _ => ⟨hunknown, ?_, ?_, ?_⟩
  · rw [nobody] at hq
    cases hq
  all_goals
    intro id name _
    rcases hkey with rfl | rfl <;>
      simp [IndexEntry.ofNode, Fragment.requirementNode, Fragment.incidentNode]

/-! ## Edges -/

/-- Every unit is added once, and none of them was there before. -/
structure Apart (base : Draft) (puts : List ParsedUnit) : Prop where
  inj : ∀ p ∈ puts, ∀ q ∈ puts, p.unit.path = q.unit.path → p = q
  gone : ∀ p ∈ puts, base.book.units[p.unit.path]? = none

/-- A node of a fragment that its unit owns is the one that was accepted. -/
theorem Adds.accepted_of_owns {p : ParsedUnit} (h : Adds markers base puts d)
    (apart : Apart base puts) (hp : p ∈ puts) {node : Node}
    (hn : node ∈ (Fragment.build markers p).nodes) (howns : d.book.Owns p.unit.path node.id) :
    d.plan.upsertNodes[node.id]? = some node := by
  have wf := Fragment.wellFormed_build markers p
  rcases (h.owns _ _).mp howns with ⟨unit, hu, -⟩ | ⟨m, hm, hmu⟩
  · rw [apart.gone p hp] at hu; simp at hu
  · obtain ⟨q, hq, hs | hs⟩ := h.source _ m hm
    · have hunit := ((Fragment.wellFormed_build markers q).owned m hs).unit
      have hpq : q = p := apart.inj q hq p hp (Option.some.inj (hunit.symm.trans hmu))
      subst hpq
      rw [hm, List.inj_on_of_nodup_map wf.nodup hs hn (h.named _ m hm)]
    · obtain ⟨key, rfl | rfl⟩ := (Fragment.wellFormed_build markers q).shared m hs <;>
        simp [Node.unit?, Props.text?, Fragment.requirementNode, Fragment.incidentNode] at hmu

theorem Adds.entries_of_accepted (h : Adds markers base puts d) {node : Node}
    (hn : d.plan.upsertNodes[node.id]? = some node) :
    d.book.index.entries[node.id]? = some (.ofNode node) := by
  rw [h.entries, hn]
  rfl

theorem Adds.kind?_of_accepted (h : Adds markers base puts d) {node : Node}
    (hn : d.plan.upsertNodes[node.id]? = some node) :
    d.book.index.kind? node.id = some node.kind := by
  rw [h.kind?_eq, hn]
  rfl

theorem Adds.nodeUnit_of_accepted {p : ParsedUnit} (h : Adds markers base puts d) {node : Node}
    (hf : node ∈ (Fragment.build markers p).nodes)
    (hn : d.plan.upsertNodes[node.id]? = some node) :
    d.book.nodeUnit[node.id]? = some p.unit.path := by
  rw [h.nodeUnit, hn, Option.bind_some, ((Fragment.wellFormed_build markers p).owned node hf).unit]
  rfl

theorem Adds.ownEdge {p : ParsedUnit} (h : Adds markers base puts d) {edge : Edge}
    (inner : (Fragment.build markers p).Inner p.unit.path edge)
    (hnodes : ∀ node ∈ (Fragment.build markers p).nodes,
      node.id = edge.source ∨ node.id = edge.target → d.plan.upsertNodes[node.id]? = some node)
    (hshared : ∀ node ∈ (Fragment.build markers p).shared, d.book.index.contains node.id = true) :
    d.book.OwnEdge edge := by
  cases inner with
  | declares m c hm hmk hc hck =>
    have hm' := hnodes m hm (.inl rfl)
    have hc' := hnodes c hc (.inr rfl)
    exact .declares (h.nodeUnit_of_accepted hm hm') (h.kind?_of_accepted hm') hmk
      (h.nodeUnit_of_accepted hc hc') (h.kind?_of_accepted hc') hck
  | implements key c hs hc hck =>
    have hc' := hnodes c hc (.inr rfl)
    exact .implements (hshared _ hs) (h.nodeUnit_of_accepted hc hc') (h.kind?_of_accepted hc') hck
  | triggers key c hs hc hck =>
    have hc' := hnodes c hc (.inl rfl)
    exact .triggers (hshared _ hs) (h.nodeUnit_of_accepted hc hc') (h.kind?_of_accepted hc') hck

theorem get_upsertEdges_putEdge (plan : Plan) (edge : Edge) (k : EdgeKey) :
    (plan.putEdge edge).upsertEdges[k]? =
      if edge.key = k then some (plan.upsertEdges[k]?.getD edge) else plan.upsertEdges[k]? :=
  Maps.get_insertIfNew _ _ _ _

theorem contains_upsertEdges_putEdge (plan : Plan) (edge : Edge) (k : EdgeKey) :
    (plan.putEdge edge).upsertEdges.contains k = true ↔
      edge.key = k ∨ plan.upsertEdges.contains k = true := by
  simp only [Maps.contains_iff, get_upsertEdges_putEdge]
  by_cases hk : edge.key = k <;> simp [hk]

theorem mem_deleteEdges_putEdge (plan : Plan) (edge : Edge) (k : EdgeKey) :
    k ∈ (plan.putEdge edge).deleteEdges ↔ edge.key ≠ k ∧ k ∈ plan.deleteEdges := by
  simp [Plan.putEdge, ExtTreeSet.mem_erase]

theorem holds_putEdge (d : Draft) (path q : String) (unit : UnitState) (edge : Edge) (k : EdgeKey) :
    (Draft.withUnit { d with plan := d.plan.putEdge edge } path
        { unit with edges := unit.edges.insert edge.key }).book.Holds q k ↔
      (d.withUnit path unit).book.Holds q k ∨ path = q ∧ edge.key = k := by
  rw [holds_withUnit, holds_withUnit]
  split
  next hq => simp [hq, ExtTreeSet.mem_insert, or_comm]
  next hq => simp only [hq, false_and, or_false]

/-- An edge that is planned already has the unit of the edge that would be planned in its place. -/
theorem Adds.unit?_getD (h : Adds markers base puts d) {edge : Edge} (hown : d.book.OwnEdge edge) :
    (d.plan.upsertEdges[edge.key]?.getD edge).unit? = edge.unit? := by
  cases hold : d.plan.upsertEdges[edge.key]? with
  | none => rfl
  | some old =>
    obtain ⟨hkey, ho, -⟩ := h.edges _ old hold
    rw [Option.getD_some, ho.unit?_eq hown hkey]

theorem Adds.putEdge {p : ParsedUnit} {unit : UnitState} {edge : Edge}
    (h : Adds markers base puts (d.withUnit p.unit.path unit)) (hp : p ∈ puts)
    (hf : edge ∈ (Fragment.build markers p).edges)
    (hown : (d.withUnit p.unit.path unit).book.OwnEdge edge) :
    Adds markers base puts (Draft.withUnit { d with plan := d.plan.putEdge edge } p.unit.path
      { unit with edges := unit.edges.insert edge.key }) := by
  have hunit : edge.unit? = some p.unit.path :=
    ((Fragment.wellFormed_build markers p).edges edge hf).unit?
  let d' := Draft.withUnit { d with plan := d.plan.putEdge edge } p.unit.path
    { unit with edges := unit.edges.insert edge.key }
  have hput : ∀ k : EdgeKey, d'.plan.upsertEdges[k]? =
      if edge.key = k then some (d.plan.upsertEdges[k]?.getD edge) else d.plan.upsertEdges[k]? :=
    get_upsertEdges_putEdge d.plan edge
  have keeps : ∀ id, Bookkeeping.KeepsAt (d.withUnit p.unit.path unit).book d'.book id :=
    fun id => ⟨fun _ hq => hq, fun _ he => he⟩
  show Adds markers base puts d'
  constructor
  case named => exact h.named
  case source => exact h.source
  case fresh => exact h.fresh
  case entries => exact h.entries
  case nodeUnit => exact h.nodeUnit
  case unreserved => exact h.unreserved
  case owns =>
    intro q id
    have howns := h.owns q id
    rw [owns_withUnit] at howns ⊢
    exact howns
  case units =>
    intro q hq
    have hold := h.units q hq
    rw [units_withUnit, if_neg (hq p hp)] at hold ⊢
    exact hold
  case hash =>
    intro q hq
    obtain ⟨u, hu, hh⟩ := h.hash q hq
    rw [units_withUnit] at hu
    split at hu
    next he =>
      cases hu
      exact ⟨{ unit with edges := unit.edges.insert edge.key }, by rw [units_withUnit, if_pos he], hh⟩
    next he => exact ⟨u, by rw [units_withUnit, if_neg he]; exact hu, hh⟩
  case sound => exact h.sound
  case faithful => exact h.faithful
  case retracted => exact h.retracted
  case rekinded => exact h.rekinded
  case edges =>
    intro k e he
    rw [hput] at he
    split at he
    next hk =>
      cases hold : d.plan.upsertEdges[k]? with
      | none =>
        rw [hold] at he
        cases he
        exact ⟨hk, hown.keep (keeps _) (keeps _), p, hp, hf⟩
      | some old =>
        rw [hold] at he
        cases he
        obtain ⟨hk, ho, hs⟩ := h.edges k old hold
        exact ⟨hk, ho.keep (keeps _) (keeps _), hs⟩
    next =>
      obtain ⟨hk, ho, hs⟩ := h.edges k e he
      exact ⟨hk, ho.keep (keeps _) (keeps _), hs⟩
  case holds =>
    intro q k
    rw [holds_putEdge, h.holds, hput, or_assoc]
    refine or_congr_right ?_
    by_cases hk : edge.key = k
    · subst hk
      have hplanned : (d.plan.upsertEdges[edge.key]?.getD edge).unit? = some p.unit.path :=
        (h.unit?_getD hown).trans hunit
      rw [if_pos rfl]
      constructor
      · rintro (⟨e, he, heq⟩ | ⟨hq, -⟩)
        · have he : d.plan.upsertEdges[edge.key]? = some e := he
          exact ⟨_, rfl, by rw [he]; exact heq⟩
        · exact ⟨_, rfl, by rw [hplanned, hq]⟩
      · rintro ⟨e, he, heq⟩
        cases he
        exact .inr ⟨Option.some.inj (hplanned.symm.trans heq), rfl⟩
    · rw [if_neg hk]
      exact or_iff_left fun hq => hk hq.2
  case deleteEdges =>
    intro k
    have hold : k ∈ d.plan.deleteEdges ↔
      k ∈ base.plan.deleteEdges ∧ d.plan.upsertEdges[k]? = none := h.deleteEdges k
    show k ∈ (d.plan.putEdge edge).deleteEdges ↔ _
    rw [mem_deleteEdges_putEdge, hold, hput]
    by_cases hk : edge.key = k <;> simp [hk]
  case deleteNodes => exact h.deleteNodes
  case pending => exact h.pending
  case refs =>
    intro r hr
    obtain ⟨hown, hs⟩ := h.refs r hr
    exact ⟨hown.keep (keeps _), hs⟩

/-! ## Whole units -/

/-- What every node, shared node and edge of a unit keeps is kept when the unit is added, if it takes no
notice of what is remembered of the unit and of references. -/
theorem addUnit_induction {P : Draft → Prop} (markers : List String) (parsed : ParsedUnit) {d : Draft}
    (start : P d)
    (node : ∀ (x : Draft) (unit : UnitState), ∀ node ∈ (Fragment.build markers parsed).nodes,
      P x → P (Draft.addNode parsed.unit.path (x, unit) node).1)
    (shared : ∀ (x : Draft), ∀ node ∈ (Fragment.build markers parsed).shared,
      P x → P (x.addShared node))
    (edge : ∀ (x : Draft) (unit : UnitState), ∀ edge ∈ (Fragment.build markers parsed).edges,
      P x → P (Draft.addEdge (x, unit) edge).1)
    (finish : ∀ (x : Draft) (refs : List Reference) (unit : UnitState),
      P x → P (Draft.withUnit { x with refs } parsed.unit.path unit)) :
    P (d.addUnit markers parsed) := by
  have hnodes := List.foldlRecOn (motive := fun s : Draft × UnitState => P s.1)
    (Fragment.build markers parsed).nodes (Draft.addNode parsed.unit.path)
    (b := (d, { hash := parsed.unit.hash })) start fun s hs n hn => node s.1 s.2 n hn hs
  have hshared := List.foldlRecOn (motive := P) (Fragment.build markers parsed).shared
    Draft.addShared hnodes fun x hx n hn => shared x n hn hx
  have hedges := fun unit => List.foldlRecOn (motive := fun s : Draft × UnitState => P s.1)
    (Fragment.build markers parsed).edges Draft.addEdge (b := (_, unit)) hshared
    fun s hs e he => edge s.1 s.2 e he hs
  exact finish _ (_ ++ (Fragment.build markers parsed).refs.filter fun r => _) _ (hedges _)

/-- A draft that knows and plans at least what another does. -/
structure Grows (d d' : Draft) : Prop where
  keeps : ∀ id, Bookkeeping.KeepsAt d.book d'.book id
  edges : ∀ k : EdgeKey, d.plan.upsertEdges.contains k = true →
    d'.plan.upsertEdges.contains k = true
  refs : ∀ r ∈ d.refs, r ∈ d'.refs

theorem Grows.refl (d : Draft) : Grows d d :=
  ⟨fun _ => ⟨fun _ h => h, fun _ h => h⟩, fun _ h => h, fun _ h => h⟩

theorem Grows.trans {a b c : Draft} (hab : Grows a b) (hbc : Grows b c) : Grows a c where
  keeps id := ⟨fun p h => (hbc.keeps id).nodeUnit p ((hab.keeps id).nodeUnit p h),
    fun e h => (hbc.keeps id).entries e ((hab.keeps id).entries e h)⟩
  edges k h := hbc.edges k (hab.edges k h)
  refs r h := hbc.refs r (hab.refs r h)

/-- A draft in which nothing of some units is missing, but for what other units own. -/
structure Complete (markers : List String) (puts : List ParsedUnit) (d : Draft) : Prop where
  nodes : ∀ p ∈ puts, ∀ node ∈ (Fragment.build markers p).nodes, ∃ q, d.book.nodeUnit[node.id]? = some q
  shared : ∀ p ∈ puts, ∀ node ∈ (Fragment.build markers p).shared,
    d.book.index.contains node.id = true
  edges : ∀ p ∈ puts, ∀ edge ∈ (Fragment.build markers p).edges,
    (∀ node ∈ (Fragment.build markers p).nodes, node.id = edge.source ∨ node.id = edge.target →
      d.book.nodeUnit[node.id]? = some p.unit.path) →
    d.plan.upsertEdges.contains edge.key = true
  refs : ∀ p ∈ puts, ∀ r ∈ (Fragment.build markers p).refs,
    d.book.nodeUnit[r.owner]? = some p.unit.path → r ∈ d.refs

theorem complete_nil (d : Draft) : Complete markers [] d := by
  constructor <;> simp

theorem Complete.mono {d' : Draft} (h : Complete markers puts d) (grows : Grows d d') :
    Complete markers puts d' where
  nodes p hp node hn := by
    obtain ⟨q, hq⟩ := h.nodes p hp node hn
    exact ⟨q, (grows.keeps _).nodeUnit q hq⟩
  shared p hp node hn := (grows.keeps _).contains (h.shared p hp node hn)
  edges p hp edge he hends := by
    refine grows.edges _ (h.edges p hp edge he fun node hn hend => ?_)
    obtain ⟨q, hq⟩ := h.nodes p hp node hn
    rw [hq, ← hends node hn hend, (grows.keeps _).nodeUnit q hq]
  refs p hp r hr howner := by
    refine grows.refs r (h.refs p hp r hr ?_)
    obtain ⟨node, starts⟩ := (Fragment.wellFormed_build markers p).refs r hr
    obtain ⟨q, hq⟩ := h.nodes p hp node starts.mem
    rw [starts.owner] at hq
    rw [hq, ← howner, (grows.keeps _).nodeUnit q hq]

section Unit

variable {p : ParsedUnit} {unit : UnitState}

theorem Adds.addNode {node : Node} (h : Adds markers base puts (d.withUnit p.unit.path unit))
    (ready : Ready base) (hp : p ∈ puts) (hn : node ∈ (Fragment.build markers p).nodes)
    (hid : node.id.isReserved = false) :
    ∃ d' unit', Draft.addNode p.unit.path (d, unit) node = (d', unit') ∧
      Adds markers base puts (d'.withUnit p.unit.path unit') ∧ Grows d d' ∧
      ∃ q, d'.book.nodeUnit[node.id]? = some q := by
  rw [addNode_eq]
  cases hfree : d.book.nodeUnit[node.id]? with
  | some q => exact ⟨d, unit, by simp, h, .refl d, q, hfree⟩
  | none =>
    have owned := (Fragment.wellFormed_build markers p).owned node hn
    have hunknown := (h.entries_eq_none ready hfree hid).2
    have enters : Enters node (d.withUnit p.unit.path unit) _ :=
      enters_accept owned.unit hfree hunknown
    have keeps := enters.keeps owned.real
    exact ⟨_, _, if_pos rfl, h.accept ready hp hn hid hfree,
      ⟨fun id => ⟨(keeps id).nodeUnit, (keeps id).entries⟩, fun _ hk => hk, fun _ hr => hr⟩,
      p.unit.path, by rw [get_nodeUnit_accept, if_pos rfl]⟩

theorem Adds.foldl_addNode {nodes : List Node}
    (h : Adds markers base puts (d.withUnit p.unit.path unit)) (ready : Ready base) (hp : p ∈ puts)
    (hn : ∀ node ∈ nodes, node ∈ (Fragment.build markers p).nodes)
    (hid : ∀ node ∈ nodes, node.id.isReserved = false) :
    ∃ d' unit', nodes.foldl (Draft.addNode p.unit.path) (d, unit) = (d', unit') ∧
      Adds markers base puts (d'.withUnit p.unit.path unit') ∧ Grows d d' ∧
      ∀ node ∈ nodes, ∃ q, d'.book.nodeUnit[node.id]? = some q := by
  induction nodes generalizing d unit with
  | nil => exact ⟨d, unit, rfl, h, .refl d, by simp⟩
  | cons node rest ih =>
    obtain ⟨d₁, unit₁, h₁, adds₁, grows₁, q, hq⟩ := h.addNode ready hp (hn node List.mem_cons_self)
      (hid node List.mem_cons_self)
    obtain ⟨d₂, unit₂, h₂, adds₂, grows₂, hrest⟩ := ih adds₁
      (fun m hm => hn m (List.mem_cons_of_mem node hm))
      (fun m hm => hid m (List.mem_cons_of_mem node hm))
    refine ⟨d₂, unit₂, by rw [List.foldl_cons, h₁, h₂], adds₂, grows₁.trans grows₂, ?_⟩
    intro m hm
    rcases List.mem_cons.mp hm with rfl | hm
    · exact ⟨q, (grows₂.keeps _).nodeUnit q hq⟩
    · exact hrest m hm

theorem Adds.foldl_addShared {nodes : List Node}
    (h : Adds markers base puts (d.withUnit p.unit.path unit)) (ready : Ready base) (hp : p ∈ puts)
    (hn : ∀ node ∈ nodes, node ∈ (Fragment.build markers p).shared) :
    Adds markers base puts ((nodes.foldl Draft.addShared d).withUnit p.unit.path unit) ∧
      Grows d (nodes.foldl Draft.addShared d) ∧
      ∀ node ∈ nodes, (nodes.foldl Draft.addShared d).book.index.contains node.id = true := by
  induction nodes generalizing d with
  | nil => exact ⟨h, .refl d, by simp⟩
  | cons node rest ih =>
    have adds₁ := h.addShared ready hp (hn node List.mem_cons_self)
    obtain ⟨adds₂, grows₂, hrest⟩ := ih adds₁ fun m hm => hn m (List.mem_cons_of_mem node hm)
    have hreal : node.kind ≠ .unknown := by
      obtain ⟨key, rfl | rfl⟩ := (Fragment.wellFormed_build markers p).shared node
        (hn node List.mem_cons_self) <;>
        simp [Fragment.requirementNode, Fragment.incidentNode]
    have step : Grows d (d.addShared node) ∧ (d.addShared node).book.index.contains node.id = true := by
      rw [addShared_eq]
      split
      next hunknown =>
        refine ⟨⟨fun id => ⟨fun _ hq => hq, NameIndex.extends_add hreal hunknown id⟩,
          fun _ hk => hk, fun _ hr => hr⟩, (Maps.contains_iff _ _).mpr ⟨.ofNode node, ?_⟩⟩
        rw [NameIndex.entries_add hreal, if_pos rfl]
      next hknown =>
        exact ⟨.refl d, (Maps.contains_iff _ _).mpr (Option.ne_none_iff_exists'.mp hknown)⟩
    refine ⟨adds₂, step.1.trans grows₂, fun m hm => ?_⟩
    rcases List.mem_cons.mp hm with rfl | hm
    · exact (grows₂.keeps _).contains step.2
    · exact hrest m hm

theorem addEdge_eq (d : Draft) (unit : UnitState) (edge : Edge) :
    Draft.addEdge (d, unit) edge =
      if (unit.nodes.contains edge.source || !d.book.nodeUnit.contains edge.source) &&
          (unit.nodes.contains edge.target || !d.book.nodeUnit.contains edge.target) then
        ({ d with plan := d.plan.putEdge edge }, { unit with edges := unit.edges.insert edge.key })
      else (d, unit) := rfl

/-- A node that its unit owns is one of those remembered of the unit. -/
theorem Adds.owns_of_nodeUnit (h : Adds markers base puts d) (ready : Ready base) {path : String}
    {id : NodeId} (hu : d.book.nodeUnit[id]? = some path) : d.book.Owns path id := by
  rw [h.owns]
  rw [h.nodeUnit, Option.or_eq_some_iff] at hu
  rcases hu with hu | ⟨-, hu⟩
  · exact .inr (Option.bind_eq_some_iff.mp hu)
  · exact .inl (ready.owns id path hu)

theorem Adds.addEdge {edge : Edge} (h : Adds markers base puts (d.withUnit p.unit.path unit))
    (ready : Ready base) (apart : Apart base puts) (hp : p ∈ puts)
    (hf : edge ∈ (Fragment.build markers p).edges)
    (hnodes : ∀ node ∈ (Fragment.build markers p).nodes, ∃ q, d.book.nodeUnit[node.id]? = some q)
    (hshared : ∀ node ∈ (Fragment.build markers p).shared, d.book.index.contains node.id = true) :
    ∃ d' unit', Draft.addEdge (d, unit) edge = (d', unit') ∧
      Adds markers base puts (d'.withUnit p.unit.path unit') ∧ Grows d d' ∧
      ((∀ node ∈ (Fragment.build markers p).nodes, node.id = edge.source ∨ node.id = edge.target →
        d.book.nodeUnit[node.id]? = some p.unit.path) →
      d'.plan.upsertEdges.contains edge.key = true) := by
  have inner := (Fragment.wellFormed_build markers p).edges edge hf
  have howns : ∀ id, (d.withUnit p.unit.path unit).book.Owns p.unit.path id ↔ id ∈ unit.nodes :=
    fun id => by rw [owns_withUnit, if_pos rfl]
  rw [addEdge_eq]
  split
  next hends =>
    rw [Bool.and_eq_true] at hends
    have hplanned : ∀ node ∈ (Fragment.build markers p).nodes,
        node.id = edge.source ∨ node.id = edge.target →
        (d.withUnit p.unit.path unit).plan.upsertNodes[node.id]? = some node := by
      intro node hn hend
      have hown : (unit.nodes.contains node.id || !d.book.nodeUnit.contains node.id) = true := by
        rcases hend with he | he <;> rw [he]
        · exact hends.1
        · exact hends.2
      rw [(Maps.contains_iff _ _).mpr (hnodes node hn), Bool.not_true, Bool.or_false] at hown
      exact h.accepted_of_owns apart hp hn ((howns _).mpr (ExtTreeSet.contains_iff_mem.mp hown))
    refine ⟨_, _, rfl, h.putEdge hp hf (h.ownEdge inner hplanned hshared), ?_, fun _ => ?_⟩
    · exact ⟨fun _ => ⟨fun _ hq => hq, fun _ he => he⟩,
        fun k hk => (contains_upsertEdges_putEdge d.plan edge k).mpr (.inr hk), fun _ hr => hr⟩
    · exact (contains_upsertEdges_putEdge d.plan edge _).mpr (.inl rfl)
  next hends =>
    refine ⟨d, unit, rfl, h, .refl d, fun hall => absurd ?_ hends⟩
    have hnode : ∀ node ∈ (Fragment.build markers p).nodes,
        node.id = edge.source ∨ node.id = edge.target →
        (unit.nodes.contains node.id || !d.book.nodeUnit.contains node.id) = true := by
      intro node hn hend
      have hmem := (howns _).mp (h.owns_of_nodeUnit ready (hall node hn hend))
      rw [ExtTreeSet.contains_iff_mem.mpr hmem, Bool.true_or]
    have hreserved : ∀ id : NodeId, id.isReserved = true →
        (unit.nodes.contains id || !d.book.nodeUnit.contains id) = true := by
      intro id hid
      cases hu : d.book.nodeUnit[id]? with
      | none => simp [(Maps.contains_eq_false_iff _ _).mpr hu]
      | some q => rw [h.unreserved id q hu] at hid; simp at hid
    rw [Bool.and_eq_true]
    cases inner with
    | declares m c hm _ hc _ => exact ⟨hnode m hm (.inl rfl), hnode c hc (.inr rfl)⟩
    | implements key c _ hc _ =>
      exact ⟨hreserved _ (NodeId.isReserved_requirement key), hnode c hc (.inr rfl)⟩
    | triggers key c _ hc _ =>
      exact ⟨hnode c hc (.inl rfl), hreserved _ (NodeId.isReserved_incident key)⟩

theorem Adds.foldl_addEdge {edges : List Edge}
    (h : Adds markers base puts (d.withUnit p.unit.path unit)) (ready : Ready base)
    (apart : Apart base puts) (hp : p ∈ puts)
    (hf : ∀ edge ∈ edges, edge ∈ (Fragment.build markers p).edges)
    (hnodes : ∀ node ∈ (Fragment.build markers p).nodes, ∃ q, d.book.nodeUnit[node.id]? = some q)
    (hshared : ∀ node ∈ (Fragment.build markers p).shared, d.book.index.contains node.id = true) :
    ∃ d' unit', edges.foldl Draft.addEdge (d, unit) = (d', unit') ∧
      Adds markers base puts (d'.withUnit p.unit.path unit') ∧ Grows d d' ∧
      ∀ edge ∈ edges, (∀ node ∈ (Fragment.build markers p).nodes,
        node.id = edge.source ∨ node.id = edge.target →
        d'.book.nodeUnit[node.id]? = some p.unit.path) →
      d'.plan.upsertEdges.contains edge.key = true := by
  induction edges generalizing d unit with
  | nil => exact ⟨d, unit, rfl, h, .refl d, by simp⟩
  | cons edge rest ih =>
    obtain ⟨d₁, unit₁, h₁, adds₁, grows₁, hedge⟩ := h.addEdge ready apart hp
      (hf edge List.mem_cons_self) hnodes hshared
    obtain ⟨d₂, unit₂, h₂, adds₂, grows₂, hrest⟩ := ih adds₁
      (fun e he => hf e (List.mem_cons_of_mem edge he))
      (fun node hn => (hnodes node hn).imp fun q hq => (grows₁.keeps _).nodeUnit q hq)
      (fun node hn => (grows₁.keeps _).contains (hshared node hn))
    have grows := grows₁.trans grows₂
    refine ⟨d₂, unit₂, by rw [List.foldl_cons, h₁, h₂], adds₂, grows, ?_⟩
    intro e he hends
    rcases List.mem_cons.mp he with rfl | he
    · refine grows₂.edges _ (hedge fun node hn hend => ?_)
      obtain ⟨q, hq⟩ := hnodes node hn
      rw [hq, ← hends node hn hend, (grows.keeps _).nodeUnit q hq]
    · exact hrest e he hends

end Unit

/-- The references of a fragment whose owners were accepted. -/
theorem Adds.appendRefs {p : ParsedUnit} {refs : List Reference} (h : Adds markers base puts d)
    (apart : Apart base puts) (hp : p ∈ puts)
    (hrefs : ∀ r ∈ refs, r ∈ (Fragment.build markers p).refs ∧ d.book.Owns p.unit.path r.owner) :
    Adds markers base puts { d with refs := d.refs ++ refs } := by
  have hown : ∀ r ∈ refs, d.book.OwnRef r := by
    intro r hr
    obtain ⟨hf, howns⟩ := hrefs r hr
    obtain ⟨node, starts⟩ := (Fragment.wellFormed_build markers p).refs r hf
    rw [← starts.owner] at howns
    have hn := h.accepted_of_owns apart hp starts.mem howns
    constructor
    · rw [← starts.owner, starts.unit, h.nodeUnit_of_accepted starts.mem hn]
    · exact ⟨node.kind, by rw [← starts.owner, h.kind?_of_accepted hn], starts.kind⟩
    · rw [starts.context, ← starts.owner,
        NameIndex.moduleOf?_eq_module? (h.entries_of_accepted hn)]
  constructor
  case refs =>
    intro r hr
    rcases List.mem_append.mp hr with hr | hr
    · exact h.refs r hr
    · exact ⟨hown r hr, p, hp, (hrefs r hr).1⟩
  case named => exact h.named
  case source => exact h.source
  case fresh => exact h.fresh
  case entries => exact h.entries
  case nodeUnit => exact h.nodeUnit
  case unreserved => exact h.unreserved
  case owns => exact h.owns
  case units => exact h.units
  case hash => exact h.hash
  case sound => exact h.sound
  case faithful => exact h.faithful
  case retracted => exact h.retracted
  case rekinded => exact h.rekinded
  case edges => exact h.edges
  case holds => exact h.holds
  case deleteEdges => exact h.deleteEdges
  case deleteNodes => exact h.deleteNodes
  case pending => exact h.pending

/-- Adding a unit adds all of its fragment that no other unit owns. -/
theorem Adds.addUnit {p : ParsedUnit} (h : Adds markers base puts d) (ready : Ready base)
    (apart : Apart base (p :: puts)) (new : ∀ q ∈ puts, q.unit.path ≠ p.unit.path)
    (hid : ∀ node ∈ (Fragment.build markers p).nodes, node.id.isReserved = false)
    (complete : Complete markers puts d) :
    Adds markers base (p :: puts) (d.addUnit markers p) ∧
      Complete markers (p :: puts) (d.addUnit markers p) := by
  have hp : p ∈ p :: puts := List.mem_cons_self
  obtain ⟨d₁, unit₁, h₁, adds₁, grows₁, hnodes⟩ :=
    (h.begin new (apart.gone p hp)).foldl_addNode ready hp (fun _ hn => hn) hid
  obtain ⟨adds₂, grows₂, hshared⟩ := adds₁.foldl_addShared ready hp fun _ hn => hn
  have hnodes₂ : ∀ node ∈ (Fragment.build markers p).nodes, ∃ q,
      ((Fragment.build markers p).shared.foldl Draft.addShared d₁).book.nodeUnit[node.id]? = some q :=
    fun node hn => (hnodes node hn).imp fun q hq => (grows₂.keeps _).nodeUnit q hq
  obtain ⟨d₃, unit₃, h₃, adds₃, grows₃, hedges⟩ :=
    adds₂.foldl_addEdge ready apart hp (fun _ he => he) hnodes₂ hshared
  let refs := (Fragment.build markers p).refs.filter (unit₃.nodes.contains ·.owner)
  have heq : d.addUnit markers p =
      { d₃.withUnit p.unit.path unit₃ with
        refs := (d₃.withUnit p.unit.path unit₃).refs ++ refs } := by
    simp only [Draft.addUnit, h₁, h₃]
    rfl
  have howns : ∀ r : Reference, unit₃.nodes.contains r.owner = true ↔
      (d₃.withUnit p.unit.path unit₃).book.Owns p.unit.path r.owner := by
    intro r
    rw [owns_withUnit, if_pos rfl, ExtTreeSet.contains_iff_mem]
  have grows : Grows d (d.addUnit markers p) := by
    rw [heq]
    refine ((grows₁.trans grows₂).trans grows₃).trans
      ⟨fun _ => ⟨fun _ hq => hq, fun _ he => he⟩, fun _ hk => hk, fun r hr => ?_⟩
    exact List.mem_append_left _ hr
  have adds := adds₃.appendRefs apart hp fun r hr =>
    ⟨(List.mem_filter.mp hr).1, (howns r).mp (List.mem_filter.mp hr).2⟩
  rw [heq] at grows ⊢
  refine ⟨adds, ?_⟩
  have hold := complete.mono grows
  constructor
  case nodes =>
    intro q hq node hn
    rcases List.mem_cons.mp hq with rfl | hq
    · exact (hnodes₂ node hn).imp fun q hq => (grows₃.keeps _).nodeUnit q hq
    · exact hold.nodes q hq node hn
  case shared =>
    intro q hq node hn
    rcases List.mem_cons.mp hq with rfl | hq
    · exact (grows₃.keeps _).contains (hshared node hn)
    · exact hold.shared q hq node hn
  case edges =>
    intro q hq edge he hends
    rcases List.mem_cons.mp hq with rfl | hq
    · exact hedges edge he hends
    · exact hold.edges q hq edge he hends
  case refs =>
    intro q hq r hr howner
    rcases List.mem_cons.mp hq with rfl | hq
    · refine List.mem_append_right _ (List.mem_filter.mpr ⟨hr, (howns r).mpr ?_⟩)
      exact adds₃.owns_of_nodeUnit ready howner
    · exact hold.refs q hq r hr howner

/-- What adding some changes relies on: they are about different units, none of which is there any
more, and no unit claims a reserved id. -/
structure Addable (markers : List String) (base : Draft) (changes : List UnitChange) : Prop where
  ready : Ready base
  distinct : (changes.map (·.path)).Nodup
  gone : ∀ c ∈ changes, base.book.units[c.path]? = none
  unreserved : ∀ p, .put p ∈ changes → ∀ node ∈ (Fragment.build markers p).nodes,
    node.id.isReserved = false

theorem Addable.apart {changes : List UnitChange} (h : Addable markers base changes)
    (hputs : ∀ p ∈ puts, .put p ∈ changes) : Apart base puts where
  inj p hp q hq hpath := by
    have heq := List.inj_on_of_nodup_map h.distinct (hputs p hp) (hputs q hq) hpath
    cases heq
    rfl
  gone p hp := h.gone _ (hputs p hp)

/-- The second phase of a draft adds the fragments of all changed units that are still there. -/
theorem Addable.adds {changes : List UnitChange} (h : Addable markers base changes) :
    ∃ puts, (∀ p, p ∈ puts ↔ .put p ∈ changes) ∧
      Adds markers base puts (changes.foldl (addChange markers) base) ∧
      Complete markers puts (changes.foldl (addChange markers) base) := by
  -- The list of units already added grows from the front.
  have go : ∀ (rest done : List UnitChange) (d : Draft) (puts : List ParsedUnit),
      done ++ rest = changes → (∀ p, p ∈ puts ↔ .put p ∈ done) → Adds markers base puts d →
      Complete markers puts d →
      ∃ puts, (∀ p, p ∈ puts ↔ .put p ∈ changes) ∧
        Adds markers base puts (rest.foldl (addChange markers) d) ∧
        Complete markers puts (rest.foldl (addChange markers) d) := by
    intro rest
    induction rest with
    | nil =>
      intro done d puts hsplit hputs adds complete
      rw [List.append_nil] at hsplit
      exact ⟨puts, hsplit ▸ hputs, adds, complete⟩
    | cons change rest ih =>
      intro done d puts hsplit hputs adds complete
      have hsplit' : (done ++ [change]) ++ rest = changes := by simpa using hsplit
      have hmem : ∀ c ∈ done ++ [change], c ∈ changes := fun c hc => by
        rw [← hsplit']
        exact List.mem_append_left _ hc
      cases change with
      | remove path =>
        refine ih _ d puts hsplit' (fun p => ?_) adds complete
        simp [hputs]
      | put p =>
        have hapart : Apart base (p :: puts) := h.apart fun q hq => by
          rcases List.mem_cons.mp hq with rfl | hq
          · exact hmem _ (by simp)
          · exact hmem _ (List.mem_append_left _ ((hputs q).mp hq))
        have new : ∀ q ∈ puts, q.unit.path ≠ p.unit.path := by
          intro q hq hpath
          have hnodup := h.distinct
          rw [← hsplit, List.map_append, List.map_cons, List.nodup_append] at hnodup
          exact hnodup.2.2 q.unit.path (List.mem_map.mpr ⟨.put q, (hputs q).mp hq, rfl⟩)
            p.unit.path List.mem_cons_self hpath
        obtain ⟨adds', complete'⟩ := adds.addUnit h.ready hapart new
          (h.unreserved p (hmem _ (by simp))) complete
        refine ih _ _ (p :: puts) hsplit' (fun q => ?_) adds' complete'
        simp [hputs, or_comm]
  exact go changes [] base [] rfl (by simp) h.ready.adds (complete_nil base)

end Draft
end CodeAtlas
