import CodeAtlas.Proofs.Mirror
import CodeAtlas.Proofs.Neighbors
import CodeAtlas.Proofs.Writing

/-!
# What a call does to the graph

Of a call whose bookkeeping mirrors the graph everything can be said in terms of the graph before. Its
first two phases leave the nodes of all other units as they were. The edges that it turns back are
those of other units at nodes that vanished, and each gives back the reference it came from. After
the references are resolved, the edges of the graph are, in this order of precedence, those of the
new fragments, those of the references at hand, and those that were there before and have not
gone (`Planned.edges`).
-/

set_option autoImplicit false

namespace CodeAtlas

open Std Text

/-- The reference as an edge remembers it: a line that does not fit is left out. -/
def Reference.fitted (r : Reference) : Reference := { r with line := r.line.filter (· < UInt32.size) }

namespace Bookkeeping

theorem OwnRef.fitted {book : Bookkeeping} {r : Reference} (h : book.OwnRef r) :
    book.OwnRef r.fitted := ⟨h.unit, h.kind, h.context⟩

theorem keyOf_fitted (r : Reference) : PendingQueue.keyOf r.fitted = PendingQueue.keyOf r := rfl

/-- The bookkeeping without the changed units, as a draft. -/
def base (book : Bookkeeping) (changes : List UnitChange) : Draft :=
  (ExtTreeSet.ofList (changes.map (·.path))).toList.foldl Draft.retractUnit { book }

/-- A change to units that claim no reserved ids, each changed once. -/
structure Changes (markers : List String) (changes : List UnitChange) : Prop where
  distinct : (changes.map (·.path)).Nodup
  unreserved : ∀ p, .put p ∈ changes → ∀ node ∈ (Fragment.build markers p).nodes,
    node.id.isReserved = false

/-- A call on a bookkeeping that mirrors the graph, after its first two phases. -/
structure Planned (markers : List String) (book : Bookkeeping) (g : PropertyGraph)
    (changes : List UnitChange) (puts : List ParsedUnit) : Prop where
  mirrors : book.Mirrors g
  wellFormed : Changes markers changes
  retracts : Draft.Retracts book (changes.map (·.path)) (book.base changes)
  mem_puts : ∀ p, p ∈ puts ↔ .put p ∈ changes
  adds : Draft.Adds markers (book.base changes) puts (book.added markers changes)
  complete : Draft.Complete markers puts (book.added markers changes)

namespace Mirrors

variable {markers : List String} {book : Bookkeeping} {g : PropertyGraph}
  {changes : List UnitChange}

theorem entry_of_nodeUnit (m : book.Mirrors g) {id : NodeId} {p : String}
    (h : book.nodeUnit[id]? = some p) : ∃ entry, book.index.entries[id]? = some entry := by
  have hid := m.unreserved id p h
  rw [m.nodeUnit] at h
  obtain ⟨node, hn, -⟩ := Option.bind_eq_some_iff.mp h
  refine ⟨_, m.entry_of_node hn fun hk => ?_⟩
  obtain ⟨key, r, hr, rfl⟩ := (m.placeholders id).mp ⟨node, hn, hk⟩
  have hplaceholder := Reference.isPlaceholder_placeholderId r
  rw [← m.keyed key r hr] at hid
  rw [PendingQueue.keyOf, NodeId.isReserved_of_isPlaceholder hplaceholder] at hid
  simp at hid

theorem ready (m : book.Mirrors g)
    (h : Draft.Retracts book (changes.map (·.path)) (book.base changes)) :
    Draft.Ready (book.base changes) where
  known id entry he hid := by
    obtain ⟨he, hfree⟩ := (h.entries id entry).mp he
    cases hu : book.nodeUnit[id]? with
    | none => rw [(m.reserved_of_unowned he hu).1] at hid; simp at hid
    | some p => exact ⟨p, (h.nodeUnit id p).mpr ⟨hu, hfree⟩⟩
  nodeUnit id p hp := m.unreserved id p ((h.nodeUnit id p).mp hp).1
  owns id p hp := by
    obtain ⟨hu, hfree⟩ := (h.nodeUnit id p).mp hp
    have howns := (m.owns p id).mpr hu
    have hpaths : p ∉ changes.map (·.path) := fun hm => hfree p hm howns
    exact (owns_congr (by rw [h.units, if_neg hpaths]) id).mpr howns
  retracted id kind hk := by
    obtain ⟨-, q, -, ho⟩ := (h.retracted id kind).mp hk
    exact m.unreserved id q ((m.owns q id).mp ho)
  upsertNodes := h.upsertNodes
  upsertEdges := h.upsertEdges
  rekinded := h.rekinded
  refs := h.refs

theorem planned (m : book.Mirrors g) (hc : Changes markers changes) :
    ∃ puts, Planned markers book g changes puts := by
  have h := Draft.retracts_changed book (changes.map (·.path))
  have addable : Draft.Addable markers (book.base changes) changes :=
    ⟨m.ready h, hc.distinct,
      fun c hm => by
        have hpath : c.path ∈ changes.map (·.path) := List.mem_map.mpr ⟨c, hm, rfl⟩
        exact (h.units c.path).trans (if_pos hpath),
      hc.unreserved⟩
  obtain ⟨puts, hputs, adds, complete⟩ := addable.adds
  exact ⟨puts, m, hc, h, hputs, adds, complete⟩

end Mirrors

namespace Planned

variable {markers : List String} {book : Bookkeeping} {g : PropertyGraph}
  {changes : List UnitChange} {puts : List ParsedUnit}

/-! ## The nodes that stay -/

/-- Whether a node belonged to one of the changed units. -/
def Old (book : Bookkeeping) (changes : List UnitChange) (id : NodeId) : Prop :=
  ∃ q ∈ changes.map (·.path), book.Owns q id

theorem ready (c : Planned markers book g changes puts) : Draft.Ready (book.base changes) :=
  c.mirrors.ready c.retracts

theorem upsertNodes_eq_none (c : Planned markers book g changes puts) {id : NodeId} {entry : IndexEntry}
    (he : book.index.entries[id]? = some entry) (hold : ¬ Old book changes id) :
    (book.added markers changes).plan.upsertNodes[id]? = none := by
  cases hn : (book.added markers changes).plan.upsertNodes[id]? with
  | none => rfl
  | some node =>
    have hbase := (c.retracts.entries id entry).mpr ⟨he, fun q hq ho => hold ⟨q, hq, ho⟩⟩
    rw [c.adds.fresh id node hn] at hbase
    simp at hbase

/-- Nothing changes about a node that did not belong to a changed unit. -/
theorem keepsAt (c : Planned markers book g changes puts) {id : NodeId}
    (hold : ¬ Old book changes id) : KeepsAt book (book.added markers changes).book id := by
  have hfree : ∀ q ∈ changes.map (·.path), ¬ book.Owns q id := fun q hq ho => hold ⟨q, hq, ho⟩
  constructor
  · intro p hp
    obtain ⟨entry, he⟩ := c.mirrors.entry_of_nodeUnit hp
    rw [c.adds.nodeUnit, c.upsertNodes_eq_none he hold]
    exact (c.retracts.nodeUnit id p).mpr ⟨hp, hfree⟩
  · intro entry he
    rw [c.adds.entries, c.upsertNodes_eq_none he hold]
    exact (c.retracts.entries id entry).mpr ⟨he, hfree⟩

theorem mem_goneNodes {d : Draft} {id : NodeId} :
    id ∈ d.goneNodes ↔ (∃ kind, d.retracted[id]? = some kind) ∨ id ∈ d.rekinded := by
  rw [Draft.goneNodes, List.mem_append, ExtTreeMap.mem_keys]
  exact or_congr_left (Maps.contains_iff d.retracted id)

theorem old_of_gone (c : Planned markers book g changes puts) {id : NodeId}
    (h : id ∈ (book.added markers changes).goneNodes) : Old book changes id := by
  rcases mem_goneNodes.mp h with ⟨kind, hk⟩ | h
  · rw [c.adds.retracted] at hk
    split at hk
    · simp at hk
    · exact ((c.retracts.retracted id kind).mp hk).2
  · obtain ⟨_, kind, _, hk, _⟩ := (c.adds.rekinded id).mp h
    exact ((c.retracts.retracted id kind).mp hk).2

/-- A node that has not vanished keeps its kind. -/
theorem kind?_of_not_gone (c : Planned markers book g changes puts) {id : NodeId} {kind : NodeKind}
    (hk : book.index.kind? id = some kind)
    (h : id ∉ (book.added markers changes).goneNodes) :
    (book.added markers changes).book.index.kind? id = some kind := by
  by_cases hold : Old book changes id
  · have hret : (book.base changes).retracted[id]? = some kind :=
      (c.retracts.retracted id kind).mpr ⟨hk, hold⟩
    rw [mem_goneNodes, not_or, not_exists] at h
    cases hn : (book.added markers changes).plan.upsertNodes[id]? with
    | none =>
      refine absurd ?_ (h.1 kind)
      rw [c.adds.retracted, (Maps.contains_eq_false_iff _ _).mpr hn]
      exact hret
    | some node =>
      have hsame : kind = node.kind := by
        by_contra hne
        exact h.2 ((c.adds.rekinded id).mpr ⟨node, kind, hn, hret, hne⟩)
      rw [c.adds.kind?_eq, hn, hsame]
      rfl
  · exact (c.keepsAt hold).kind? hk

/-! ## The edges of other units -/

theorem not_old_of_nodeUnit (c : Planned markers book g changes puts) {id : NodeId} {p : String}
    (hp : book.nodeUnit[id]? = some p) (hpaths : p ∉ changes.map (·.path)) :
    ¬ Old book changes id := by
  rintro ⟨q, hq, ho⟩
  have hqp := (c.mirrors.owns q id).mp ho
  rw [hp] at hqp
  exact hpaths (Option.some.inj hqp ▸ hq)

theorem ownRef_added (c : Planned markers book g changes puts) {r : Reference} (h : book.OwnRef r)
    (hpaths : r.unit ∉ changes.map (·.path)) : (book.added markers changes).book.OwnRef r :=
  h.keep (c.keepsAt (c.not_old_of_nodeUnit h.unit hpaths))

/-- The nodes of a unit's own edges do not vanish while the unit stays. -/
theorem not_old_of_ownEdge (c : Planned markers book g changes puts) {edge : Edge} {p : String}
    (h : book.OwnEdge edge) (hp : edge.unit? = some p) (hpaths : p ∉ changes.map (·.path))
    {id : NodeId} (hid : id = edge.source ∨ id = edge.target) : ¬ Old book changes id := by
  rintro ⟨q, hq, ho⟩
  have hunit := h.unit?_of_end c.mirrors.unreserved hid ((c.mirrors.owns q id).mp ho)
  rw [hp] at hunit
  exact hpaths (Option.some.inj hunit ▸ hq)

/-! ## The edges that are turned back -/

/-- An edge of another unit at a vanished node, and the reference it is turned back into. -/
structure Reopens (markers : List String) (book : Bookkeeping) (g : PropertyGraph)
    (changes : List UnitChange) (o : Draft.Reopening) (edge : Edge) (r : Reference)
    (target : NodeId) (kind : NodeKind) : Prop where
  found : g.edges[o.key]? = some edge
  refEdge : book.RefEdge edge r target kind
  gone : target ∈ (book.added markers changes).goneNodes
  unit : r.unit ∉ changes.map (·.path)
  eq : o = ⟨r.fitted, r.unit, edge.key⟩

theorem not_old_owner (c : Planned markers book g changes puts) {r : Reference} (h : book.OwnRef r)
    (hpaths : r.unit ∉ changes.map (·.path)) : ¬ Old book changes r.owner :=
  c.not_old_of_nodeUnit h.unit hpaths

theorem recalled_added (c : Planned markers book g changes puts) {r : Reference} (h : book.OwnRef r)
    (hpaths : r.unit ∉ changes.map (·.path)) :
    r.recalled (book.added markers changes).book.index.moduleOf? = r.fitted := by
  have hcontext := (c.ownRef_added h hpaths).context
  rw [Reference.recalled, Reference.fitted, ← hcontext]

theorem not_mem_changed (changes : List UnitChange) (p : String) :
    (ExtTreeSet.ofList (changes.map (·.path))).contains p = false ↔ p ∉ changes.map (·.path) := by
  rw [ExtTreeSet.contains_ofList, List.contains_eq_mem, decide_eq_false_iff_not]

/-- What an edge of the graph that reaches a vanished node is turned back into. -/
theorem reopen?_refEdge (c : Planned markers book g changes puts) {hop : Neighbor} {r : Reference}
    {target : NodeId} {kind : NodeKind} (h : book.RefEdge hop.edge r target kind)
    (hnode : g.nodes[r.owner]? = some hop.node) (hne : r.owner ≠ target)
    (hpaths : r.unit ∉ changes.map (·.path)) :
    Draft.reopen? (.ofList (changes.map (·.path))) (book.added markers changes).book.index target hop =
      some ⟨r.fitted, r.unit, hop.edge.key⟩ := by
  have hfits : r.FitsOwner (some hop.node.kind) := by
    obtain ⟨ownerKind, hk, -⟩ := h.own.kind
    obtain ⟨node, hn, rfl⟩ := c.mirrors.node_of_kind? hk
    have hfits := h.own.fitsOwner
    rw [hnode] at hn
    rwa [hk, ← Option.some.inj hn] at hfits
  have hunit : hop.edge.unit? = some r.unit := by rw [h.eq, Reference.edgeTo_unit?]
  have hrecall := Reference.ofEdge?_edgeTo kind target.text
    (book.added markers changes).book.index.moduleOf? hne hfits
  rw [← h.eq, c.recalled_added h.own hpaths] at hrecall
  rw [Draft.reopen?, hunit, Option.bind_some, (not_mem_changed changes r.unit).mpr hpaths, hrecall]
  rfl

theorem mem_reopened (c : Planned markers book g changes puts) {o : Draft.Reopening} :
    o ∈ book.reopened g markers changes ↔
      ∃ edge r target kind, Reopens markers book g changes o edge r target kind := by
  unfold Bookkeeping.reopened Draft.reopenings
  simp only [List.mem_flatMap, List.mem_filterMap]
  constructor
  · rintro ⟨gone, hgone, hop, hhop, hopen⟩
    have hold := c.old_of_gone hgone
    obtain ⟨⟨k, hk⟩, hends⟩ := PropertyGraph.mem_neighbors.mp hhop
    have hkey := c.mirrors.edge_key k _ hk
    obtain ⟨p, hp, hrest⟩ := Option.bind_eq_some_iff.mp hopen
    have hpaths : p ∉ changes.map (·.path) := by
      rw [← not_mem_changed changes p]
      cases hm : (ExtTreeSet.ofList (changes.map (·.path))).contains p with
      | false => rfl
      | true => rw [hm] at hrest; simp at hrest
    have hend : gone = hop.edge.source ∨ gone = hop.edge.target := by
      rcases hends with ⟨h, -⟩ | ⟨h, -⟩
      · exact .inl h.symm
      · exact .inr h.symm
    -- Edges within a unit do not lose an end, and a reference does not lose its owner.
    rcases c.mirrors.conforms k _ hk with hown | ⟨r, t, kind, href⟩
    · exact absurd hold (c.not_old_of_ownEdge hown hp hpaths hend)
    · have hunit : r.unit = p := by
        rw [href.eq, Reference.edgeTo_unit?] at hp
        exact Option.some.inj hp
      subst hunit
      have howner : gone ≠ r.owner := fun he => c.not_old_owner href.own hpaths (he ▸ hold)
      obtain ⟨rfl, hnode⟩ : gone = t ∧ g.nodes[r.owner]? = some hop.node := by
        rcases href.source_or_target with ⟨hs, ht⟩ | ⟨hs, ht⟩ <;>
          rcases hends with ⟨h, hn, -⟩ | ⟨h, hn, -⟩
        · exact absurd (h.symm.trans hs) howner
        · exact ⟨h.symm.trans ht, hs ▸ hn⟩
        · exact ⟨h.symm.trans hs, ht ▸ hn⟩
        · exact absurd (h.symm.trans ht) howner
      rw [c.reopen?_refEdge href hnode (fun he => howner he.symm) hpaths] at hopen
      cases hopen
      exact ⟨hop.edge, r, gone, kind, by rw [hkey]; exact hk, href, hgone, hpaths, rfl⟩
  · rintro ⟨edge, r, target, kind, h⟩
    have hold := c.old_of_gone h.gone
    have hne : r.owner ≠ target := fun he => c.not_old_owner h.refEdge.own h.unit (he ▸ hold)
    obtain ⟨ownerKind, hk, -⟩ := h.refEdge.own.kind
    obtain ⟨node, hn, -⟩ := c.mirrors.node_of_kind? hk
    have hedge := h.found
    rw [h.eq] at hedge
    rcases h.refEdge.source_or_target with ⟨hs, ht⟩ | ⟨hs, ht⟩
    · refine ⟨target, h.gone, ⟨edge, node, .incoming⟩, ?_, ?_⟩
      · exact PropertyGraph.mem_neighbors.mpr ⟨⟨_, hedge⟩, .inr ⟨ht, hs ▸ hn, rfl⟩⟩
      · rw [c.reopen?_refEdge h.refEdge hn hne h.unit, h.eq]
    · refine ⟨target, h.gone, ⟨edge, node, .outgoing⟩, ?_, ?_⟩
      · exact PropertyGraph.mem_neighbors.mpr ⟨⟨_, hedge⟩, .inl ⟨hs, ht ▸ hn, rfl⟩⟩
      · rw [c.reopen?_refEdge h.refEdge hn hne h.unit, h.eq]

/-! ## The references at hand -/

theorem unreserved_added (c : Planned markers book g changes puts) :
    (book.added markers changes).book.Unreserved := c.adds.unreserved

theorem sound_added (c : Planned markers book g changes puts) :
    (book.added markers changes).book.index.Sound := c.adds.sound (c.retracts.sound c.mirrors.sound)

theorem real_added (c : Planned markers book g changes puts) :
    (book.added markers changes).book.index.Real := by
  intro id entry he
  rw [c.adds.entries] at he
  cases hn : (book.added markers changes).plan.upsertNodes[id]? with
  | none =>
    rw [hn] at he
    exact c.mirrors.real id entry ((c.retracts.entries id entry).mp he).1
  | some node =>
    rw [hn] at he
    have hid := c.adds.named id node hn
    refine ⟨⟨node, hid, Option.some.inj he⟩, ?_⟩
    obtain ⟨p, hp, hf | hf⟩ := c.adds.source id node hn
    · rw [← hid]
      exact NodeId.isPlaceholder_eq_false (c.wellFormed.unreserved p ((c.mem_puts p).mp hp) node hf)
    · obtain ⟨key, rfl | rfl⟩ := (Fragment.wellFormed_build markers p).shared node hf
      · rw [← hid]; exact NodeId.isPlaceholder_requirement key
      · rw [← hid]; exact NodeId.isPlaceholder_incident key

theorem waiting_added (c : Planned markers book g changes puts) (key : PendingKey) (r : Reference) :
    (book.added markers changes).book.pending.waiting[key]? = some r ↔
      book.pending.waiting[key]? = some r ∧ r.unit ∉ changes.map (·.path) := by
  rw [c.adds.pending]
  exact c.retracts.pending key r

theorem keyed_added (c : Planned markers book g changes puts) :
    (book.added markers changes).book.pending.Keyed := by
  intro key r h
  exact c.mirrors.keyed key r ((c.waiting_added key r).mp h).1

theorem mem_settled (c : Planned markers book g changes puts) {r : Reference} :
    r ∈ (book.added markers changes).settled ↔
      (book.pending.waiting[PendingQueue.keyOf r]? = some r ∧ r.unit ∉ changes.map (·.path)) ∧
        (book.added markers changes).book.index.resolves r = true := by
  rw [Draft.mem_settled c.keyed_added, c.waiting_added]

/-- A reference of a new fragment. -/
theorem of_refs (c : Planned markers book g changes puts) {r : Reference}
    (h : r ∈ (book.added markers changes).refs) :
    (book.added markers changes).book.OwnRef r ∧ r.unit ∈ changes.map (·.path) := by
  obtain ⟨hown, p, hp, hr⟩ := c.adds.refs r h
  refine ⟨hown, ?_⟩
  obtain ⟨node, starts⟩ := (Fragment.wellFormed_build markers p).refs r hr
  rw [starts.unit]
  exact List.mem_map.mpr ⟨.put p, (c.mem_puts p).mp hp, rfl⟩

theorem ownRef_reopened (c : Planned markers book g changes puts) {o : Draft.Reopening}
    (h : o ∈ book.reopened g markers changes) : (book.added markers changes).book.OwnRef o.ref := by
  obtain ⟨edge, r, target, kind, h⟩ := c.mem_reopened.mp h
  rw [h.eq]
  exact (c.ownRef_added h.refEdge.own h.unit).fitted

theorem ownRef_fresh (c : Planned markers book g changes puts) {r : Reference}
    (h : r ∈ (book.added markers changes).fresh (book.reopened g markers changes)) :
    (book.added markers changes).book.OwnRef r := by
  rcases List.mem_append.mp h with h | h
  · exact (c.of_refs h).1
  · obtain ⟨o, ho, rfl⟩ := List.mem_map.mp h
    exact c.ownRef_reopened ho

theorem ownRef_atHand (c : Planned markers book g changes puts) {r : Reference}
    (h : r ∈ (book.added markers changes).atHand (book.reopened g markers changes)) :
    (book.added markers changes).book.OwnRef r := by
  rcases List.mem_append.mp h with h | h
  · obtain ⟨⟨hw, hpaths⟩, -⟩ := c.mem_settled.mp h
    exact c.ownRef_added (c.mirrors.waiting _ r hw).1 hpaths
  · exact c.ownRef_fresh h

theorem isOpen_standing (c : Planned markers book g changes puts) {r : Reference}
    (h : (book.added markers changes).book.OwnRef r) :
    ((book.added markers changes).book.index.standing r).key.isOpen =
      !(book.added markers changes).book.index.resolves r :=
  c.real_added.isOpen_standing (h.isPlaceholder_owner c.unreserved_added)

theorem isOpen_upsertEdges (c : Planned markers book g changes puts) {k : EdgeKey} {edge : Edge}
    (h : (book.added markers changes).plan.upsertEdges[k]? = some edge) : k.isOpen = false := by
  obtain ⟨rfl, hown, -⟩ := c.adds.edges k edge h
  exact hown.isOpen c.unreserved_added

theorem parted (c : Planned markers book g changes puts) :
    Draft.Parted (book.added markers changes).book.index
      (book.added markers changes).book.pending.toList := by
  intro r _ s hs _ hres he
  obtain ⟨hw, hpaths⟩ := (c.waiting_added _ s).mp ((PendingQueue.mem_toList c.keyed_added).mp hs)
  have hopen := c.isOpen_standing (c.ownRef_added (c.mirrors.waiting _ s hw).1 hpaths)
  rw [← he, r.isOpen_placeholderEdge, hres] at hopen
  simp at hopen

/-- No fragment has an edge to a placeholder. -/
theorem upsertEdges_placeholderEdge (c : Planned markers book g changes puts) (r : Reference) :
    (book.added markers changes).plan.upsertEdges[r.placeholderEdge.key]? = none := by
  cases he : (book.added markers changes).plan.upsertEdges[r.placeholderEdge.key]? with
  | none => rfl
  | some edge =>
    have hopen := c.isOpen_upsertEdges he
    rw [r.isOpen_placeholderEdge] at hopen
    simp at hopen

/-- How a call ends, whatever is turned back. -/
theorem concludes (c : Planned markers book g changes puts) (opened : List Draft.Reopening) :
    Draft.Concludes (book.added markers changes) opened book.pending.placeholderIds
      (book.draftWith markers changes opened) :=
  Draft.concludes c.keyed_added c.parted (fun r _ => c.upsertEdges_placeholderEdge r) opened _

end Planned

end Bookkeeping

end CodeAtlas
