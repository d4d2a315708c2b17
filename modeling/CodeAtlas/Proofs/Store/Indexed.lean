import CodeAtlas.Proofs.Collections
import CodeAtlas.Store.Indexed

/-!
# Index and store

What ties the index of a graph in memory to its store (`IndexedGraph.Sound`): the index leads to every
node, each by its own id; every edge runs between the nodes that it names; and no two edges have the
same key, though the store would take them.

Each change keeps this and has one equation for nodes and one for edges. Writing over something and
putting in something new come to the same here, as in both cases one number stands for the item
afterwards (`Sound.put`, `Sound.join`).
-/

set_option autoImplicit false

namespace CodeAtlas

open Std

namespace IndexedGraph

open StableGraph LawfulStableGraph

variable {G : Type} [StableGraph G Node Edge] {s : IndexedGraph G} {id : NodeId} {key : EdgeKey}

/-- The node under an id. -/
def node? (s : IndexedGraph G) (id : NodeId) : Option Node :=
  s.index[id]?.bind (StableGraph.node? s.graph)

/-- The edge under a key. -/
def edge? (s : IndexedGraph G) (key : EdgeKey) : Option Edge :=
  ((s.findLink? key).bind (link? s.graph)).map (·.weight)

/-- The index, the nodes and the edges of a graph fit together. -/
structure Sound (s : IndexedGraph G) : Prop where
  indexed : ∀ (id : NodeId) i, s.index[id]? = some i ↔
    ∃ node, StableGraph.node? s.graph i = some node ∧ node.id = id
  ends : ∀ e l, link? s.graph e = some l →
    s.index[l.weight.source]? = some l.source ∧ s.index[l.weight.target]? = some l.target
  single : ∀ e e' l l', link? s.graph e = some l → link? s.graph e' = some l' →
    l.weight.key = l'.weight.key → e = e'

namespace Sound

/-! ## Look-ups -/

theorem index_inj (h : s.Sound) {a b : NodeId} {i : Nat} (ha : s.index[a]? = some i)
    (hb : s.index[b]? = some i) : a = b := by
  obtain ⟨node, hnode, rfl⟩ := (h.indexed a i).mp ha
  obtain ⟨node', hnode', rfl⟩ := (h.indexed b i).mp hb
  rw [hnode] at hnode'
  cases hnode'
  rfl

theorem node?_of_index (h : s.Sound) {i : Nat} (hi : s.index[id]? = some i) :
    ∃ node, StableGraph.node? s.graph i = some node ∧ s.node? id = some node := by
  obtain ⟨node, hnode, -⟩ := (h.indexed id i).mp hi
  exact ⟨node, hnode, by rw [node?, hi, Option.bind_some, hnode]⟩

theorem node?_eq_some_iff (h : s.Sound) {node : Node} :
    s.node? id = some node ↔ node.id = id ∧ ∃ i, StableGraph.node? s.graph i = some node := by
  rw [node?, Option.bind_eq_some_iff]
  constructor
  · rintro ⟨i, hi, hnode⟩
    obtain ⟨node', hnode', hid⟩ := (h.indexed id i).mp hi
    rw [hnode] at hnode'
    cases hnode'
    exact ⟨hid, i, hnode⟩
  · rintro ⟨hid, i, hnode⟩
    exact ⟨i, (h.indexed id i).mpr ⟨node, hnode, hid⟩, hnode⟩

theorem contains_eq (h : s.Sound) (id : NodeId) : s.index.contains id = (s.node? id).isSome := by
  cases hi : s.index[id]? with
  | none => rw [(Maps.contains_eq_false_iff _ _).mpr hi, node?, hi]; rfl
  | some i =>
    obtain ⟨node, -, hnode⟩ := h.node?_of_index hi
    rw [(Maps.contains_iff _ _).mpr ⟨i, hi⟩, hnode]
    rfl

section Links

variable [LawfulStableGraph G Node Edge]

/-- What the search for a key finds has this key. -/
theorem of_findLink? (h : s.Sound) {e : Nat} (he : s.findLink? key = some e) :
    ∃ l, link? s.graph e = some l ∧ l.weight.key = key := by
  obtain ⟨a, ha, he⟩ := Option.bind_eq_some_iff.mp he
  obtain ⟨b, hb, he⟩ := Option.bind_eq_some_iff.mp he
  obtain ⟨⟨e', l⟩, hfind, rfl⟩ := Option.map_eq_some_iff.mp he
  obtain ⟨hl, hnear⟩ := (mem_linksAt _ _ _ _ _).mp (List.mem_of_find?_eq_some hfind)
  have hfound := List.find?_some hfind
  rw [Bool.and_eq_true, decide_eq_true_eq, decide_eq_true_eq] at hfound
  obtain ⟨hsource, htarget⟩ := h.ends _ _ hl
  have hs : l.weight.source = key.source := h.index_inj hsource (by rw [ha, ← hnear]; rfl)
  have ht : l.weight.target = key.target := h.index_inj htarget (by rw [hb, hfound.1])
  refine ⟨l, hl, ?_⟩
  rw [Edge.key, hs, ht, hfound.2]

theorem findLink?_eq_some_iff (h : s.Sound) {e : Nat} :
    s.findLink? key = some e ↔ ∃ l, link? s.graph e = some l ∧ l.weight.key = key := by
  refine ⟨h.of_findLink?, ?_⟩
  rintro ⟨l, hl, rfl⟩
  obtain ⟨hsource, htarget⟩ := h.ends _ _ hl
  have hfind : ((linksAt s.graph .outgoing l.source).find? fun p =>
      p.2.target = l.target && p.2.weight.kind = l.weight.kind).isSome = true :=
    List.find?_isSome.mpr ⟨(e, l), (mem_linksAt _ _ _ _ _).mpr ⟨hl, rfl⟩, by simp⟩
  obtain ⟨⟨e', l'⟩, hfind⟩ := Option.isSome_iff_exists.mp hfind
  have hfound : s.findLink? l.weight.key = some e' := by
    unfold findLink?
    rw [show l.weight.key.source = l.weight.source from rfl, hsource,
      show l.weight.key.target = l.weight.target from rfl, htarget]
    exact congrArg (Option.map _) hfind
  obtain ⟨l'', hl'', hkey⟩ := h.of_findLink? hfound
  rw [hfound, h.single _ _ _ _ hl'' hl hkey]

theorem edge?_eq_some_iff (h : s.Sound) {edge : Edge} :
    s.edge? key = some edge ↔
      edge.key = key ∧ ∃ e l, link? s.graph e = some l ∧ l.weight = edge := by
  rw [edge?, Option.map_eq_some_iff]
  constructor
  · rintro ⟨l, hl, rfl⟩
    obtain ⟨e, he, hl⟩ := Option.bind_eq_some_iff.mp hl
    obtain ⟨l', hl', hkey⟩ := h.of_findLink? he
    rw [hl] at hl'
    cases hl'
    exact ⟨hkey, e, l, hl, rfl⟩
  · rintro ⟨hkey, e, l, hl, rfl⟩
    exact ⟨l, Option.bind_eq_some_iff.mpr ⟨e, h.findLink?_eq_some_iff.mpr ⟨l, hl, hkey⟩, hl⟩, rfl⟩

/-- Where the links are the same, the same edges are found, in whatever order they are listed. -/
theorem edge?_congr {t : IndexedGraph G} (h : s.Sound) (ht : t.Sound)
    (hlinks : ∀ e, link? t.graph e = link? s.graph e) (key : EdgeKey) : t.edge? key = s.edge? key := by
  refine Option.ext fun edge => ?_
  rw [ht.edge?_eq_some_iff, h.edge?_eq_some_iff]
  simp only [hlinks]

end Links

end Sound

/-! ## Writing -/

/-- A number stands for a node under its id from now on, and all else is as it was. -/
structure Put (s : IndexedGraph G) (node : Node) (i : Nat) (t : IndexedGraph G) : Prop where
  /-- The number stood for the node with this id, or for nothing. -/
  slot : ∀ old, StableGraph.node? s.graph i = some old → old.id = node.id
  known : ∀ j, s.index[node.id]? = some j → i = j
  nodes : ∀ j, StableGraph.node? t.graph j =
    if i = j then some node else StableGraph.node? s.graph j
  links : ∀ e, link? t.graph e = link? s.graph e
  index : ∀ id : NodeId, t.index[id]? = if node.id = id then some i else s.index[id]?

variable {node : Node} {i : Nat} {t : IndexedGraph G}

theorem Put.sound (p : s.Put node i t) (h : s.Sound) : t.Sound where
  indexed id j := by
    rw [p.index, p.nodes]
    by_cases hid : node.id = id
    · rw [if_pos hid]
      constructor
      · intro hj
        cases hj
        exact ⟨node, if_pos rfl, hid⟩
      · rintro ⟨other, hother, rfl⟩
        split at hother
        next hij => rw [hij]
        next hij => exact absurd (p.known j (hid ▸ (h.indexed _ j).mpr ⟨other, hother, rfl⟩)) hij
    · rw [if_neg hid, h.indexed]
      have apart : ∀ other : Node, other.id = id →
          (StableGraph.node? s.graph j = some other ↔
            (if i = j then some node else StableGraph.node? s.graph j) = some other) := by
        rintro other rfl
        split
        next hij =>
          subst hij
          constructor
          · exact fun hother => absurd (p.slot other hother).symm hid
          · intro hother
            cases hother
            exact absurd rfl hid
        next => rfl
      exact exists_congr fun other => and_congr_left (apart other)
  ends e l hl := by
    rw [p.links] at hl
    have there : ∀ (id : NodeId) j, s.index[id]? = some j → t.index[id]? = some j := by
      intro id j hj
      rw [p.index]
      split
      next hid => rw [p.known j (hid ▸ hj)]
      next => exact hj
    obtain ⟨hsource, htarget⟩ := h.ends e l hl
    exact ⟨there _ _ hsource, there _ _ htarget⟩
  single e e' l l' hl hl' := by
    rw [p.links] at hl hl'
    exact h.single e e' l l' hl hl'

theorem Put.node?_eq (p : s.Put node i t) (h : s.Sound) (id : NodeId) :
    t.node? id = if node.id = id then some node else s.node? id := by
  rw [node?, p.index]
  split
  next => rw [Option.bind_some, p.nodes, if_pos rfl]
  next hid =>
    rw [node?]
    cases hj : s.index[id]? with
    | none => rfl
    | some j =>
      obtain ⟨old, hold, hoid⟩ := (h.indexed id j).mp hj
      rw [Option.bind_some, Option.bind_some, p.nodes, if_neg]
      rintro rfl
      exact hid ((p.slot old hold).symm.trans hoid)

/-- A number stands for an edge between its nodes from now on, and all else is as it was. -/
structure Join (s : IndexedGraph G) (edge : Edge) (e : Nat) (t : IndexedGraph G) : Prop where
  /-- The number stood for the edge with this key, and no other did. -/
  slot : ∀ f l, link? s.graph f = some l → (l.weight.key = edge.key ↔ e = f)
  nodes : ∀ j, StableGraph.node? t.graph j = StableGraph.node? s.graph j
  links : ∃ a b, s.index[edge.source]? = some a ∧ s.index[edge.target]? = some b ∧
    ∀ f, link? t.graph f = if e = f then some ⟨a, b, edge⟩ else link? s.graph f
  index : t.index = s.index

variable {edge : Edge} {e : Nat}

theorem Join.sound (p : s.Join edge e t) (h : s.Sound) : t.Sound where
  indexed id j := by
    rw [p.index, h.indexed]
    simp only [p.nodes]
  ends f l hl := by
    obtain ⟨a, b, ha, hb, hlinks⟩ := p.links
    rw [p.index]
    rw [hlinks] at hl
    split at hl
    · cases hl
      exact ⟨ha, hb⟩
    · exact h.ends f l hl
  single f f' l l' hl hl' hkey := by
    obtain ⟨a, b, -, -, hlinks⟩ := p.links
    rw [hlinks] at hl hl'
    split at hl <;> split at hl'
    next hf hf' => exact hf.symm.trans hf'
    next hf _ =>
      cases hl
      rw [← hf]
      exact (p.slot f' l' hl').mp hkey.symm
    next _ hf' =>
      cases hl'
      rw [← hf']
      exact ((p.slot f l hl).mp hkey).symm
    next => exact h.single f f' l l' hl hl' hkey

theorem Join.node?_eq (p : s.Join edge e t) (id : NodeId) : t.node? id = s.node? id := by
  rw [node?, node?, p.index]
  exact congrArg _ (funext p.nodes)

section Writing

variable [LawfulStableGraph G Node Edge]

theorem sound_empty : (∅ : IndexedGraph G).Sound where
  indexed id i := by
    have hindex : (∅ : IndexedGraph G).index[id]? = none := ExtTreeMap.getElem?_empty
    rw [hindex]
    constructor
    · intro h
      cases h
    · rintro ⟨node, hnode, -⟩
      rw [show (∅ : IndexedGraph G).graph = empty from rfl, node?_empty] at hnode
      cases hnode
  ends e l hl := by
    rw [show (∅ : IndexedGraph G).graph = empty from rfl, link?_empty] at hl
    cases hl
  single e e' l l' hl := by
    rw [show (∅ : IndexedGraph G).graph = empty from rfl, link?_empty] at hl
    cases hl

/-- A node is written over the one with its id, or put in under a number that is free. -/
theorem Sound.putNode (h : s.Sound) (node : Node) :
    ∃ i t, s.putNode node = .ok t ∧ s.Put node i t := by
  unfold IndexedGraph.putNode
  split
  next i hi =>
    obtain ⟨old, hold, hid⟩ := (h.indexed _ i).mp hi
    have hset : (setNode s.graph i node).isSome = true := by rw [isSome_setNode, hold]; rfl
    obtain ⟨graph, hset⟩ := Option.isSome_iff_exists.mp hset
    rw [hset]
    refine ⟨i, _, rfl, ?_⟩
    exact {
      slot := fun old' hold' => by
        rw [hold] at hold'
        cases hold'
        exact hid
      known := fun j hj => Option.some.inj (hi.symm.trans hj)
      nodes := node?_setNode _ _ _ _ hset
      links := link?_setNode _ _ _ _ hset
      index := fun id => by
        split
        next hnode => rw [← hnode, hi]
        next => rfl }
  next hnone =>
    refine ⟨(addNode s.graph node).1, _, rfl, ?_⟩
    exact {
      slot := fun old hold => by
        rw [node?_fresh] at hold
        cases hold
      known := fun j hj => by
        rw [hnone] at hj
        cases hj
      nodes := node?_addNode _ _
      links := link?_addNode _ _
      index := fun id => Maps.get_insert _ _ _ _ }

theorem Join.edge?_eq (p : s.Join edge e t) (h : s.Sound) (key : EdgeKey) :
    t.edge? key = if edge.key = key then some edge else s.edge? key := by
  obtain ⟨a, b, -, -, hlinks⟩ := p.links
  refine Option.ext fun x => ?_
  rw [(p.sound h).edge?_eq_some_iff]
  split
  next hkey =>
    constructor
    · rintro ⟨hx, f, l, hl, rfl⟩
      rw [hlinks] at hl
      split at hl
      next => cases hl; rfl
      next hf => exact absurd ((p.slot f l hl).mp (hx.trans hkey.symm)) hf
    · intro hx
      cases hx
      exact ⟨hkey, e, _, (hlinks e).trans (if_pos rfl), rfl⟩
  next hkey =>
    rw [h.edge?_eq_some_iff]
    refine and_congr_right fun hx => exists_congr fun f => exists_congr fun l => ?_
    rw [hlinks]
    split
    next hf =>
      constructor
      · rintro ⟨hl, hw⟩
        cases hl
        subst hw
        exact absurd hx hkey
      · rintro ⟨hl, rfl⟩
        exact absurd (((p.slot f l hl).mpr hf).symm.trans hx) hkey
    next => rfl

/-- An edge is written over the one with its key, or put in between its nodes. -/
theorem Sound.putEdge (h : s.Sound) {edge : Edge} (hsource : (s.node? edge.source).isSome = true)
    (htarget : (s.node? edge.target).isSome = true) :
    ∃ e t, s.putEdge edge = .ok t ∧ s.Join edge e t := by
  unfold IndexedGraph.putEdge
  split
  next e he =>
    obtain ⟨l, hl, hkey⟩ := h.of_findLink? he
    have hset : (setLink s.graph e edge).isSome = true := by rw [isSome_setLink, hl]; rfl
    obtain ⟨graph, hset⟩ := Option.isSome_iff_exists.mp hset
    rw [hset]
    obtain ⟨ha, hb⟩ := h.ends e l hl
    obtain ⟨hs, ht, -⟩ := EdgeKey.mk.inj hkey
    refine ⟨e, _, rfl, ?_⟩
    exact {
      slot := fun f l' hl' => by
        constructor
        · exact fun hkey' => h.single e f l l' hl hl' (hkey.trans hkey'.symm)
        · rintro rfl
          rw [hl] at hl'
          cases hl'
          exact hkey
      nodes := node?_setLink _ _ _ _ hset
      links := by
        refine ⟨l.source, l.target, hs ▸ ha, ht ▸ hb, fun f => ?_⟩
        rw [link?_setLink _ _ _ _ hset]
        split
        next hf => rw [← hf, hl]; rfl
        next => rfl
      index := rfl }
  next hnone =>
    obtain ⟨a, ha⟩ : ∃ a, s.index[edge.source]? = some a := by
      rwa [← h.contains_eq, Maps.contains_iff] at hsource
    obtain ⟨b, hb⟩ : ∃ b, s.index[edge.target]? = some b := by
      rwa [← h.contains_eq, Maps.contains_iff] at htarget
    obtain ⟨source, hsource, -⟩ := h.node?_of_index ha
    obtain ⟨target, htarget, -⟩ := h.node?_of_index hb
    have hadd : (addLink s.graph a b edge).isSome = true := by
      rw [isSome_addLink, hsource, htarget]
      rfl
    obtain ⟨⟨e, graph⟩, hadd⟩ := Option.isSome_iff_exists.mp hadd
    rw [ha, hb]
    refine ⟨e, { s with graph }, ?_, ?_⟩
    · show (reach (addLink s.graph a b edge)).bind _ = _
      rw [hadd]
      rfl
    exact {
      slot := fun f l hl => by
        constructor
        · intro hkey
          have hfound := h.findLink?_eq_some_iff.mpr ⟨l, hl, hkey⟩
          rw [hnone] at hfound
          cases hfound
        · rintro rfl
          rw [link?_fresh _ _ _ _ _ _ hadd] at hl
          cases hl
      nodes := node?_addLink _ _ _ _ _ _ hadd
      links := ⟨a, b, ha, hb, link?_addLink _ _ _ _ _ _ hadd⟩
      index := rfl }

end Writing

/-! ## Taking out -/

theorem dropNode_of_index {i : Nat} (hi : s.index[id]? = some i) :
    s.dropNode id = { graph := removeNode s.graph i, index := s.index.erase id } := by
  rw [dropNode, hi]

theorem dropNode_of_not_index (hi : s.index[id]? = none) : s.dropNode id = s := by
  rw [dropNode, hi]

theorem dropEdge_of_findLink? {e : Nat} (he : s.findLink? key = some e) :
    s.dropEdge key = { s with graph := removeLink s.graph e } := by
  rw [dropEdge, he]

theorem dropEdge_of_not_findLink? (he : s.findLink? key = none) : s.dropEdge key = s := by
  rw [dropEdge, he]

section TakingOut

variable [LawfulStableGraph G Node Edge]

/-- An edge that is found has both its nodes. -/
theorem Sound.index_of_edge? (h : s.Sound) {edge : Edge} (he : s.edge? key = some edge) :
    ∃ l, l.weight = edge ∧ s.index[key.source]? = some l.source ∧
      s.index[key.target]? = some l.target ∧ ∃ e, link? s.graph e = some l := by
  obtain ⟨rfl, e, l, hl, rfl⟩ := h.edge?_eq_some_iff.mp he
  obtain ⟨hsource, htarget⟩ := h.ends e l hl
  exact ⟨l, rfl, hsource, htarget, e, hl⟩

/-- The links that stay when a node is taken out are those that do not touch it. -/
theorem link?_removeNode_eq_some_iff (g : G) (i e : Nat) (l : Link Edge) :
    link? (removeNode g i) e = some l ↔ link? g e = some l ∧ l.source ≠ i ∧ l.target ≠ i := by
  rw [link?_removeNode, Option.filter_eq_some_iff, Bool.and_eq_true, decide_eq_true_eq,
    decide_eq_true_eq]

theorem Sound.dropNode (h : s.Sound) (id : NodeId) : (s.dropNode id).Sound := by
  cases hi : s.index[id]? with
  | none => rwa [dropNode_of_not_index hi]
  | some i =>
    rw [dropNode_of_index hi]
    have there : ∀ (a : NodeId) j, s.index[a]? = some j → j ≠ i → (s.index.erase id)[a]? = some j := by
      intro a j ha hj
      rw [Maps.get_erase, if_neg, ha]
      rintro rfl
      rw [hi] at ha
      exact hj (Option.some.inj ha).symm
    constructor
    · intro a j
      rw [Maps.get_erase, node?_removeNode]
      by_cases hj : i = j
      · subst hj
        rw [if_pos rfl]
        constructor
        · intro ha
          split at ha
          next => cases ha
          next ha' => exact absurd (h.index_inj hi ha) ha'
        · rintro ⟨node, hnode, -⟩
          cases hnode
      · rw [if_neg hj]
        split
        next ha =>
          subst ha
          constructor
          · intro hnone
            cases hnone
          · intro hnode
            rw [← h.indexed, hi] at hnode
            exact absurd (Option.some.inj hnode) hj
        next => exact h.indexed a j
    · intro e l hl
      obtain ⟨hl, hsource, htarget⟩ := (link?_removeNode_eq_some_iff _ _ _ _).mp hl
      obtain ⟨hs, ht⟩ := h.ends e l hl
      exact ⟨there _ _ hs hsource, there _ _ ht htarget⟩
    · intro e e' l l' hl hl'
      exact h.single e e' l l' ((link?_removeNode_eq_some_iff _ _ _ _).mp hl).1
        ((link?_removeNode_eq_some_iff _ _ _ _).mp hl').1

theorem Sound.node?_dropNode (h : s.Sound) (id a : NodeId) :
    (s.dropNode id).node? a = if id = a then none else s.node? a := by
  cases hi : s.index[id]? with
  | none =>
    rw [dropNode_of_not_index hi]
    split
    next ha => rw [← ha, node?, hi]; rfl
    next => rfl
  | some i =>
    rw [dropNode_of_index hi, node?, Maps.get_erase]
    split
    next => rfl
    next ha =>
      rw [node?]
      cases hj : s.index[a]? with
      | none => rfl
      | some j =>
        rw [Option.bind_some, Option.bind_some, node?_removeNode, if_neg]
        rintro rfl
        exact ha (h.index_inj hi hj)

/-- With a node all edges go that begin or end at it. -/
theorem Sound.edge?_dropNode (h : s.Sound) (id : NodeId) (key : EdgeKey) :
    (s.dropNode id).edge? key =
      if key.source = id ∨ key.target = id then none else s.edge? key := by
  have hdrop := h.dropNode id
  refine Option.ext fun edge => ?_
  constructor
  · intro he
    obtain ⟨l, rfl, hsource, htarget, e, hl⟩ := hdrop.index_of_edge? he
    have hkey := (hdrop.edge?_eq_some_iff.mp he).1
    have hgone : (s.dropNode id).index[id]? = none := by
      cases hi : s.index[id]? with
      | none => rwa [dropNode_of_not_index hi]
      | some i => rw [dropNode_of_index hi, Maps.get_erase, if_pos rfl]
    rw [if_neg]
    · refine h.edge?_eq_some_iff.mpr ⟨hkey, e, l, ?_, rfl⟩
      cases hi : s.index[id]? with
      | none => rwa [dropNode_of_not_index hi] at hl
      | some i =>
        rw [dropNode_of_index hi] at hl
        exact ((link?_removeNode_eq_some_iff _ _ _ _).mp hl).1
    · rintro (rfl | rfl)
      · rw [hgone] at hsource
        cases hsource
      · rw [hgone] at htarget
        cases htarget
  · intro he
    rw [Option.ite_none_left_eq_some] at he
    obtain ⟨hkey, he⟩ := he
    cases hi : s.index[id]? with
    | none => rwa [dropNode_of_not_index hi]
    | some i =>
      obtain ⟨rfl, e, l, hl, rfl⟩ := h.edge?_eq_some_iff.mp he
      obtain ⟨hsource, htarget⟩ := h.ends e l hl
      refine hdrop.edge?_eq_some_iff.mpr ⟨rfl, e, l, ?_, rfl⟩
      rw [dropNode_of_index hi]
      refine (link?_removeNode_eq_some_iff _ _ _ _).mpr ⟨hl, ?_, ?_⟩
      · rintro rfl
        exact hkey (.inl (h.index_inj hsource hi))
      · rintro rfl
        exact hkey (.inr (h.index_inj htarget hi))

theorem Sound.dropEdge (h : s.Sound) (key : EdgeKey) : (s.dropEdge key).Sound := by
  cases he : s.findLink? key with
  | none => rwa [dropEdge_of_not_findLink? he]
  | some e =>
    rw [dropEdge_of_findLink? he]
    have stood : ∀ f l, link? (removeLink s.graph e) f = some l → link? s.graph f = some l := by
      intro f l hl
      rw [link?_removeLink, Option.ite_none_left_eq_some] at hl
      exact hl.2
    constructor
    · intro a j
      simp only [node?_removeLink]
      exact h.indexed a j
    · exact fun f l hl => h.ends f l (stood f l hl)
    · exact fun f f' l l' hl hl' => h.single f f' l l' (stood f l hl) (stood f' l' hl')

theorem node?_dropEdge (s : IndexedGraph G) (key : EdgeKey) (a : NodeId) :
    (s.dropEdge key).node? a = s.node? a := by
  cases he : s.findLink? key with
  | none => rw [dropEdge_of_not_findLink? he]
  | some e =>
    rw [dropEdge_of_findLink? he, node?, node?]
    exact congrArg _ (funext fun i => node?_removeLink _ _ _)

theorem Sound.edge?_dropEdge (h : s.Sound) (key k : EdgeKey) :
    (s.dropEdge key).edge? k = if key = k then none else s.edge? k := by
  cases he : s.findLink? key with
  | none =>
    rw [dropEdge_of_not_findLink? he]
    split
    next hk => rw [← hk, edge?, he]; rfl
    next => rfl
  | some e =>
    obtain ⟨l, hl, hkey⟩ := h.of_findLink? he
    refine Option.ext fun edge => ?_
    rw [(h.dropEdge key).edge?_eq_some_iff, Option.ite_none_left_eq_some, h.edge?_eq_some_iff,
      dropEdge_of_findLink? he]
    simp only [link?_removeLink, Option.ite_none_left_eq_some]
    constructor
    · rintro ⟨hk, f, l', ⟨hf, hl'⟩, rfl⟩
      refine ⟨?_, hk, f, l', hl', rfl⟩
      rintro rfl
      exact hf (h.single _ _ _ _ hl hl' (hkey.trans hk.symm))
    · rintro ⟨hne, hk, f, l', hl', rfl⟩
      refine ⟨hk, f, l', ⟨?_, hl'⟩, rfl⟩
      rintro rfl
      rw [hl] at hl'
      cases hl'
      exact hne (hkey.symm.trans hk)

end TakingOut

end IndexedGraph

end CodeAtlas
