import CodeAtlas.Proofs.Replay
import CodeAtlas.Proofs.Retry
import Mathlib.Logic.Relation

/-!
# Nothing waits without need

A reference waits only as long as its name means nothing. A call on units sees to this at its end: it
goes through all that waits and all that is new, with an index that does not change any more. A link
does not look at the queue at all. It enters a requirement or an incident, and this must not give a
waiting reference its target.

It does not, since such nodes have no names. But a node can be entered twice under one id, and a unit
may claim an id that looks like that of a requirement. Then a link would take the place of a
declaration, and take an exported rival out of the way of another. What prevents it is the graph: it
refuses a node of another kind. So the index has to be truthful about kinds (`Truthful`), in the face
of units that claim whatever ids they like. The one exception is the ids of placeholders, which a
call may delete under the feet of a unit that claims them; no link ever has such an id.
-/

set_option autoImplicit false

namespace CodeAtlas

open Std Text

/-! ## Nodes without names -/

namespace NameIndex

variable {ix : NameIndex} {node : Node}

theorem nameless_add_iff (real : node.kind ≠ .unknown) {id : NodeId} (hne : id ≠ node.id) :
    (ix.add node).Nameless id ↔ ix.Nameless id := by
  have hid : node.id ≠ id := hne.symm
  constructor
  · rintro ⟨hd, hc, ho⟩
    rw [declOf?_add real, if_neg hid] at hd
    rw [commonOf?_add real, if_neg hid] at hc
    rw [objectOf?_add real, if_neg hid] at ho
    exact ⟨hd, hc, ho⟩
  · rintro ⟨hd, hc, ho⟩
    refine ⟨?_, ?_, ?_⟩
    · rw [declOf?_add real, if_neg hid, hd]
    · rw [commonOf?_add real, if_neg hid, hc]
    · rw [objectOf?_add real, if_neg hid, ho]

/-- Requirements and incidents have no names. -/
theorem nameless_of_link {entry : IndexEntry} {id : NodeId} (he : ix.entries[id]? = some entry)
    (plain : ∃ node, entry = .ofNode node)
    (hk : entry.kind = .requirement ∨ entry.kind = .incident) : ix.Nameless id := by
  obtain ⟨node, rfl⟩ := plain
  rw [IndexEntry.ofNode_kind] at hk
  have hentry : IndexEntry.ofNode node = { kind := node.kind } := by
    unfold IndexEntry.ofNode
    rcases hk with hk | hk <;> rw [hk]
  rw [hentry] at he
  exact ⟨by simp [declOf?, he], by simp [commonOf?, he], by simp [objectOf?, he]⟩

/-- A node without names that is entered without names changes the entries only. -/
theorem add_eq_of_nameless (real : node.kind ≠ .unknown) (after : (ix.add node).Nameless node.id) :
    ix.add node = { ix with entries := ix.entries.insert node.id (.ofNode node) } := by
  obtain ⟨hd, hc, ho⟩ := after
  rw [declOf?_add real, if_pos rfl] at hd
  rw [commonOf?_add real, if_pos rfl] at hc
  rw [objectOf?_add real, if_pos rfl] at ho
  simp [add, real, hd, hc, ho]

/-- A node that has no names before and after is never the target of a reference, so that entering it
changes no answer. -/
theorem Sound.resolve?_add (sound : ix.Sound) (real : node.kind ≠ .unknown)
    (before : ix.Nameless node.id) (after : (ix.add node).Nameless node.id) (r : Reference) :
    (ix.add node).resolve? r = ix.resolve? r := by
  have hadd := add_eq_of_nameless real after
  have hunique : ∀ name, (ix.add node).uniqueDecl? name = ix.uniqueDecl? name := by
    intro name
    rw [hadd]
    unfold uniqueDecl?
    cases hn : ix.decls[name]? with
    | none => simp
    | some ids =>
      -- The declarations of a name are other nodes, whose entries are the same.
      have hsame : ∀ id ∈ ids.toList,
          ((ix.entries.insert node.id (.ofNode node))[id]?.any (·.exported)) =
            ix.entries[id]?.any (·.exported) := by
        intro id hid
        have hdeclares : ix.Declares id name := ⟨ids, hn, ExtTreeSet.mem_toList.mp hid⟩
        obtain ⟨module, hdecl⟩ := (sound.declares id name).mp hdeclares
        have hne : node.id ≠ id := by
          rintro rfl
          rw [before.decl] at hdecl
          simp at hdecl
        rw [ExtTreeMap.getElem?_insert, if_neg (by simpa using hne)]
      simp only [Option.bind_eq_bind, Option.bind_some, List.filter_congr hsame]
  have htarget : (ix.add node).target? r = ix.target? r := by
    unfold target? resolveCall?
    simp only [hunique]
    rw [hadd]
  ext ⟨target, kind⟩
  simp only [resolve?_eq_some_iff, htarget]
  refine and_congr_right fun ht => ?_
  have hne : node.id ≠ target := by
    rintro rfl
    cases hcall : r.kind.isCall with
    | true =>
      obtain ⟨name, hdecl⟩ := sound.declOf?_of_target? hcall ht
      rw [before.decl] at hdecl
      simp at hdecl
    | false =>
      have hobject := sound.objectOf?_of_target? hcall ht
      rw [before.object] at hobject
      simp at hobject
  rw [kind?, kind?, entries_add real, if_neg hne]

end NameIndex

/-! ## What the index says of kinds -/

/-- An index that is right about the kinds of nodes, placeholders aside, and that knows names only of
nodes that belong to a unit. -/
structure Bookkeeping.Truthful (book : Bookkeeping) (kinds : NodeId → Option NodeKind) : Prop where
  sound : book.index.Sound
  nameless : ∀ id : NodeId, book.nodeUnit[id]? = none → book.index.Nameless id
  plain : ∀ (id : NodeId) entry, book.index.entries[id]? = some entry → ∃ node, entry = .ofNode node
  kinds : ∀ (id : NodeId) kind, id.isPlaceholder = false → book.index.kind? id = some kind →
    kinds id = some kind

namespace Bookkeeping.Truthful

variable {book book' : Bookkeeping} {kinds kinds' : NodeId → Option NodeKind} {node : Node}

theorem empty (kinds : NodeId → Option NodeKind) : Truthful {} kinds where
  sound := NameIndex.faithful_empty.toSound
  nameless id _ := NameIndex.nameless_of_fresh (by simp)
  plain id entry h := by simp at h
  kinds id kind _ h := by simp [NameIndex.kind?] at h

/-- A node is entered that had no names so far. If it belongs to no unit, it has none now either. -/
theorem enter (h : book.Truthful kinds) (real : node.kind ≠ .unknown)
    (before : book.index.Nameless node.id) (hindex : book'.index = book.index.add node)
    (hunit : ∀ id : NodeId, book'.nodeUnit[id]? = none → book.nodeUnit[id]? = none)
    (hshared : book'.nodeUnit[node.id]? = none → (book.index.add node).Nameless node.id)
    (hnode : kinds' node.id = some node.kind)
    (hothers : ∀ id kind, id ≠ node.id → kinds id = some kind → kinds' id = some kind) :
    book'.Truthful kinds' where
  sound := by
    rw [hindex]
    exact h.sound.enter real before
  nameless id hid := by
    rw [hindex]
    by_cases hne : id = node.id
    · subst hne
      exact hshared hid
    · exact (NameIndex.nameless_add_iff real hne).mpr (h.nameless id (hunit id hid))
  plain id entry he := by
    rw [hindex, NameIndex.entries_add real] at he
    split at he
    · cases he
      exact ⟨node, rfl⟩
    · exact h.plain id entry he
  kinds id kind hid hk := by
    rw [hindex, NameIndex.kind?, NameIndex.entries_add real] at hk
    split at hk
    next he =>
      subst he
      rw [Option.map_some, IndexEntry.ofNode_kind] at hk
      rw [hnode, hk]
    next hne => exact hothers id kind (Ne.symm hne) (h.kinds id kind hid hk)

theorem congr (h : book.Truthful kinds) (hindex : book'.index = book.index)
    (hunit : book'.nodeUnit = book.nodeUnit)
    (hkinds : ∀ id kind, id.isPlaceholder = false → kinds id = some kind → kinds' id = some kind) :
    book'.Truthful kinds' where
  sound := by rw [hindex]; exact h.sound
  nameless id hid := by rw [hindex]; exact h.nameless id (by rw [← hunit]; exact hid)
  plain id entry he := h.plain id entry (by rw [← hindex]; exact he)
  kinds id kind hid hk := hkinds id kind hid (h.kinds id kind hid (by rw [← hindex]; exact hk))

end Bookkeeping.Truthful

/-! ## Through the phases of a draft -/

namespace Draft

variable {d : Draft} {g : PropertyGraph} {markers : List String}

/-- The kind that a node will have once the plan of a draft is written, as far as the draft has come. -/
def kindAt? (d : Draft) (g : PropertyGraph) (id : NodeId) : Option NodeKind :=
  (d.plan.upsertNodes[id]?.map (·.kind)).or
    (if id ∈ d.plan.deleteNodes ∨ id ∈ d.goneNodes then none else g.nodes[id]?.map (·.kind))

/-- Whether a draft has told the truth so far. -/
def Truthful (d : Draft) (g : PropertyGraph) : Prop := d.book.Truthful (d.kindAt? g)

/-- What stays of the bookkeeping when units are taken back is not among the nodes that go. -/
theorem truthful_retracted {book : Bookkeeping} {paths : List String}
    (h : book.Truthful fun id => g.nodes[id]?.map (·.kind)) (retracts : Retracts book paths d) :
    d.Truthful g where
  sound := retracts.sound h.sound
  nameless id hid := by
    cases he : d.book.index.entries[id]? with
    | none => exact NameIndex.nameless_of_fresh he
    | some entry =>
      obtain ⟨hentry, hfree⟩ := (retracts.entries id entry).mp he
      have hnone : book.nodeUnit[id]? = none := by
        cases hn : book.nodeUnit[id]? with
        | none => rfl
        | some p => rw [(retracts.nodeUnit id p).mpr ⟨hn, hfree⟩] at hid; simp at hid
      obtain ⟨hd, hc, ho⟩ := h.nameless id hnone
      rw [NameIndex.declOf?, hentry] at hd
      rw [NameIndex.commonOf?, hentry] at hc
      rw [NameIndex.objectOf?, hentry] at ho
      exact ⟨by rw [NameIndex.declOf?, he, hd], by rw [NameIndex.commonOf?, he, hc],
        by rw [NameIndex.objectOf?, he, ho]⟩
  plain id entry he := h.plain id entry ((retracts.entries id entry).mp he).1
  kinds id kind hid hk := by
    obtain ⟨hk, hfree⟩ := retracts.kind?_eq_some_iff.mp hk
    have hgone : id ∉ d.goneNodes := by
      rw [goneNodes, retracts.rekinded, List.append_nil]
      intro hm
      obtain ⟨kind, hr⟩ := (Maps.contains_iff _ _).mp (ExtTreeMap.mem_keys.mp hm)
      obtain ⟨-, q, hq, howns⟩ := (retracts.retracted id kind).mp hr
      exact hfree q hq howns
    rw [kindAt?, retracts.upsertNodes, retracts.deleteNodes, if_neg (by simpa using hgone)]
    simpa using h.kinds id kind hid hk

theorem Truthful.accept (h : d.Truthful g) {path : String} {node : Node}
    (real : node.kind ≠ .unknown) (hfree : d.book.nodeUnit[node.id]? = none) :
    (d.accept path node).Truthful g := by
  refine Bookkeeping.Truthful.enter h real (h.nameless node.id hfree) rfl ?_ ?_ ?_ ?_
  · intro id hid
    replace hid := (get_nodeUnit_accept d path node id).symm.trans hid
    split at hid
    · simp at hid
    · exact hid
  · intro hid
    replace hid := (get_nodeUnit_accept d path node node.id).symm.trans hid
    simp at hid
  · simp [kindAt?, Draft.accept, Plan.putNode]
  · intro id kind hne hk
    have hup : (d.accept path node).plan.upsertNodes[id]? = d.plan.upsertNodes[id]? :=
      (get_upsertNodes_putNode d.plan node id).trans (if_neg hne.symm)
    -- Only the node itself can move between the nodes that go and those that change their kind.
    have hgone : id ∈ (d.accept path node).goneNodes ↔ id ∈ d.goneNodes := by
      have hkeys : id ∈ (d.accept path node).retracted.keys ↔ id ∈ d.retracted.keys := by
        show id ∈ (d.retracted.erase node.id).keys ↔ _
        simp [ExtTreeMap.mem_keys, ExtTreeMap.mem_erase, hne.symm]
      have hrekinded := mem_rekinded_accept d path node id
      simp only [hne.symm, false_and, or_false] at hrekinded
      rw [goneNodes, List.mem_append, hkeys, hrekinded, ← List.mem_append]
      rfl
    rw [kindAt?, hup, if_congr (or_congr_right hgone) rfl rfl]
    exact hk

theorem Truthful.addNode (path : String) {unit : UnitState} (h : d.Truthful g) {node : Node}
    (real : node.kind ≠ .unknown) : (Draft.addNode path (d, unit) node).1.Truthful g := by
  rw [addNode_eq]
  split
  next hfree => exact h.accept real hfree
  next => exact h

theorem Truthful.addShared (h : d.Truthful g) {node : Node}
    (hk : node.kind = .requirement ∨ node.kind = .incident) : (d.addShared node).Truthful g := by
  have real : node.kind ≠ .unknown := by rcases hk with hk | hk <;> simp [hk]
  rw [addShared_eq]
  split
  next hfree =>
    refine Bookkeeping.Truthful.enter h real (NameIndex.nameless_of_fresh hfree) rfl
      (fun _ hid => hid) (fun _ => ?_) ?_ ?_
    · refine NameIndex.nameless_of_link ?_ ⟨node, rfl⟩ (by rwa [IndexEntry.ofNode_kind])
      rw [NameIndex.entries_add real, if_pos rfl]
    · simp [kindAt?, Plan.putNode]
    · intro id kind hne hkind
      have hup : (d.plan.putNode node).upsertNodes[id]? = d.plan.upsertNodes[id]? := by
        rw [get_upsertNodes_putNode, if_neg hne.symm]
      rw [kindAt?, hup]
      exact hkind
  next => exact h

theorem Truthful.addEdge {unit : UnitState} (h : d.Truthful g) (edge : Edge) :
    (Draft.addEdge (d, unit) edge).1.Truthful g := by
  rw [addEdge_eq]
  split
  · exact h
  · exact h

theorem Truthful.addUnit (markers : List String) (h : d.Truthful g) (parsed : ParsedUnit) :
    (d.addUnit markers parsed).Truthful g := by
  have wf := Fragment.wellFormed_build markers parsed
  refine addUnit_induction (P := fun x => x.Truthful g) markers parsed h
    (fun x unit node hn hx => hx.addNode _ (wf.owned node hn).real) (fun x node hn hx => ?_)
    (fun x unit edge _ hx => hx.addEdge edge)
    fun x _ _ hx => Bookkeeping.Truthful.congr hx rfl rfl fun _ _ _ hk => hk
  refine hx.addShared ?_
  obtain ⟨key, rfl | rfl⟩ := wf.shared node hn
  · exact .inl rfl
  · exact .inr rfl

theorem Truthful.addChange (markers : List String) (h : d.Truthful g) (change : UnitChange) :
    (d.addChange markers change).Truthful g := by
  cases change with
  | put parsed => exact h.addUnit markers parsed
  | remove path => exact h

end Draft

/-! ## Nothing is left that could be resolved -/

/-- Whether nothing waits that the index could resolve. -/
def Bookkeeping.Exhausted (book : Bookkeeping) : Prop :=
  ∀ (key : PendingKey) r, book.pending.waiting[key]? = some r → book.index.resolve? r = none

namespace Draft

/-- A reference that is still there when all that waits has been looked at has no target. -/
theorem exhausted_foldl_settle {d : Draft} (keyed : d.book.pending.Keyed) :
    (d.book.pending.toList.foldl settle d).book.Exhausted := by
  -- Of the references that have not been looked at nothing is known, the others have no target.
  have hrest : ∀ (refs : List Reference) (x : Draft), x.book.pending.Keyed →
      (∀ (key : PendingKey) r, x.book.pending.waiting[key]? = some r →
        x.book.index.resolve? r = none ∨ r ∈ refs) →
      (refs.foldl settle x).book.Exhausted := by
    intro refs
    induction refs with
    | nil => exact fun x _ h key r hr => (h key r hr).resolve_right (by simp)
    | cons s rest ih =>
      intro x hx h
      rw [List.foldl_cons]
      refine ih (x.settle s) (keyed_settle hx s) ?_
      intro key r hr
      rw [(sameNodes_settle x s).index]
      rw [get_pending_settle] at hr
      split at hr
      next => cases hr
      next hkept =>
        rcases h key r hr with hnone | hm
        · exact .inl hnone
        rcases List.mem_cons.mp hm with rfl | hm
        · -- The reference itself stays only if it does not resolve.
          refine .inl ?_
          have hs := fun hres => hkept ⟨hres, hx key r hr⟩
          simpa [NameIndex.resolves] using hs
        · exact .inr hm
  refine hrest _ d keyed fun key r hr => .inr ?_
  exact (Maps.mem_values _ _).mpr ⟨key, hr⟩

theorem exhausted_place {d : Draft} (h : d.book.Exhausted) (r : Reference) :
    (d.place r).book.Exhausted := by
  intro key s hs
  rw [(sameNodes_place d r).index]
  rw [get_pending_place] at hs
  rcases Option.or_eq_some_iff.mp hs with hs | ⟨-, hs⟩
  · exact h key s hs
  · split at hs
    next hr =>
      cases hs
      simpa [NameIndex.resolves] using hr.1
    next => simp at hs

theorem exhausted_resolveAll {d : Draft} (keyed : d.book.pending.Keyed) :
    d.resolveAll.book.Exhausted :=
  List.foldlRecOn (motive := fun x : Draft => x.book.Exhausted) _ place
    (exhausted_foldl_settle keyed) fun _ hx r _ => exhausted_place hx r

end Draft

theorem PropertyGraph.get_inserted_node (g : PropertyGraph) (node : Node) (edge : Edge) (id : NodeId) :
    (g.inserted [node] [edge]).nodes[id]? = if node.id = id then some node else g.nodes[id]? := by
  simp [inserted, ExtTreeMap.getElem?_insert]

namespace Bookkeeping

variable {book : Bookkeeping} {g g' : PropertyGraph} {markers : List String}
  {changes : List UnitChange}

theorem truthful_added (h : book.Truthful fun id => g.nodes[id]?.map (·.kind)) :
    (book.added markers changes).Truthful g :=
  List.foldlRecOn (motive := fun d : Draft => d.Truthful g) changes (Draft.addChange markers)
    (Draft.truthful_retracted h (Draft.retracts_changed book _))
    fun _ hd change _ => hd.addChange markers change

/-- Whatever is turned back, a draft leaves nothing waiting that it could resolve. -/
theorem exhausted_draftWith (keyed : book.pending.Keyed) (opened : List Draft.Reopening) :
    (book.draftWith markers changes opened).book.Exhausted := by
  refine Draft.exhausted_resolveAll ?_
  rw [(Draft.samePlan_reopenAll _ opened).pending]
  exact (keyed_added keyed markers changes).1

/-- What the phases after the second do to a node that is no placeholder: nothing, except that what has
vanished is deleted. -/
theorem nodes_draftWith (keyed : book.pending.Keyed) (opened : List Draft.Reopening) {id : NodeId}
    (hid : id.isPlaceholder = false) :
    (book.draftWith markers changes opened).plan.upsertNodes[id]? =
        (book.added markers changes).plan.upsertNodes[id]? ∧
      (id ∈ (book.draftWith markers changes opened).plan.deleteNodes ↔
        id ∈ (book.added markers changes).plan.deleteNodes ∨
          id ∈ (book.added markers changes).goneNodes) := by
  have follows := follows_draftWith keyed markers changes opened
  have unawaited : ∀ {q : PendingQueue}, q.Keyed → ¬ q.Awaits id := fun hq ha => by
    rw [Planned.isPlaceholder_of_awaits hq ha] at hid
    simp at hid
  have hbefore : id ∉ book.pending.placeholderIds := fun hm =>
    unawaited keyed ((PendingQueue.mem_placeholderIds _ _).mp hm)
  have hafter := unawaited (keyed_draftWith keyed markers changes opened).1
  rw [follows.book] at hafter
  constructor
  · rw [follows.others id (iff_of_false hafter hbefore), (Draft.resolveAll_nodes _).1]
    exact congrArg (·[id]?) (Draft.deleteAll_upserts _ _).1
  · rw [follows.deleteNodes, (Draft.resolveAll_nodes _).2]
    simp only [hbefore, false_and, or_false]
    exact Draft.mem_deleteNodes_deleteAll _ _ id

theorem sameNodes_draftOn (book : Bookkeeping) (g : PropertyGraph) (markers : List String)
    (changes : List UnitChange) :
    (book.draftOn g markers changes).book.SameNodes (book.added markers changes).book :=
  (Draft.sameNodes_resolveAll _).trans (sameNodes_foldl_eraseEdge _ _)

/-- A call on units that succeeds keeps the index truthful. -/
theorem truthful_written (h : book.Truthful fun id => g.nodes[id]?.map (·.kind))
    (keyed : book.pending.Keyed) (hw : (book.draftOn g markers changes).plan.written g = .ok g') :
    (book.draftOn g markers changes).book.Truthful fun id => g'.nodes[id]?.map (·.kind) := by
  have same := sameNodes_draftOn book g markers changes
  refine (truthful_added h).congr same.index same.nodeUnit fun id kind hid hk => ?_
  obtain ⟨hup, hdel⟩ := nodes_draftWith keyed (book.reopened g markers changes) hid
  rw [Plan.get_written_nodes (keyed_draftWith keyed markers changes _).2 hw, hup,
    if_congr hdel rfl rfl]
  rw [Draft.kindAt?] at hk
  cases hn : (book.added markers changes).plan.upsertNodes[id]? with
  | some node => simpa [hn] using hk
  | none =>
    rw [hn, Option.map_none, Option.none_or] at hk
    split at hk
    next => simp at hk
    next hkept => rwa [if_neg hkept]

/-- What every call keeps. -/
structure Tidy (book : Bookkeeping) (g : PropertyGraph) : Prop where
  truthful : book.Truthful fun id => g.nodes[id]?.map (·.kind)
  keyed : book.pending.Keyed
  exhausted : book.Exhausted

theorem tidy_empty (g : PropertyGraph) : Tidy {} g where
  truthful := .empty _
  keyed := PendingQueue.keyed_empty
  exhausted key r h := by simp at h

theorem Tidy.written (h : book.Tidy g)
    (hw : (book.draftOn g markers changes).plan.written g = .ok g') :
    (book.draftOn g markers changes).book.Tidy g' where
  truthful := truthful_written h.truthful h.keyed hw
  keyed := (keyed_draftWith h.keyed markers changes _).1
  exhausted := exhausted_draftWith h.keyed _

/-- A link takes nobody's place: had its id belonged to a node with a name, the graph would have
refused it. -/
theorem Tidy.link (h : book.Tidy g) {node : Node} {edge : Edge}
    (hk : node.kind = .requirement ∨ node.kind = .incident) (hid : node.id.isPlaceholder = false)
    (hup : g.upsert [node] [edge] = .ok g') :
    Tidy { book with index := book.index.add node } g' := by
  obtain ⟨rfl, hkinds, -⟩ := PropertyGraph.of_upsert hup
  have real : node.kind ≠ .unknown := by rcases hk with hk | hk <;> simp [hk]
  have before : book.index.Nameless node.id := by
    cases he : book.index.entries[node.id]? with
    | none => exact NameIndex.nameless_of_fresh he
    | some entry =>
      refine NameIndex.nameless_of_link he (h.truthful.plain node.id entry he) ?_
      have hknown := h.truthful.kinds node.id entry.kind hid (by rw [NameIndex.kind?, he]; rfl)
      obtain ⟨old, hold, hkind⟩ := Option.map_eq_some_iff.mp hknown
      rw [← hkind, hkinds node (List.mem_singleton_self node) old hold]
      exact hk
  have after : (book.index.add node).Nameless node.id := by
    refine NameIndex.nameless_of_link ?_ ⟨node, rfl⟩ (by rwa [IndexEntry.ofNode_kind])
    rw [NameIndex.entries_add real, if_pos rfl]
  constructor
  case truthful =>
    refine h.truthful.enter real before rfl (fun _ hu => hu) (fun _ => after) ?_ ?_
    · rw [PropertyGraph.get_inserted_node, if_pos rfl]
      rfl
    · intro id kind hne hkind
      rw [PropertyGraph.get_inserted_node, if_neg hne.symm]
      exact hkind
  case keyed => exact h.keyed
  case exhausted =>
    intro key r hr
    exact (h.truthful.sound.resolve?_add real before after r).trans (h.exhausted key r hr)

end Bookkeeping

/-! ## Histories from any graph -/

namespace Builder

variable {b b' : Builder} {g g' start : PropertyGraph} {markers : List String} {policy : RetryPolicy}

/-- A call of any kind that succeeds. -/
inductive Step : Builder × PropertyGraph → Builder × PropertyGraph → Prop
  | request {b b' : Builder} {g g' : PropertyGraph} {δ : Delta} {call : Request}
      (hrun : b.request call g = (.ok (δ, b'), g')) : Step (b, g) (b', g')
  | requirement {b b' : Builder} {g g' : PropertyGraph} {δ : Delta} {key : String} {code : NodeId}
      (hrun : b.linkRequirement key code g = (.ok (δ, b'), g')) : Step (b, g) (b', g')
  | incident {b b' : Builder} {g g' : PropertyGraph} {δ : Delta} {key : String} {code : NodeId}
      (hrun : b.linkIncident key code g = (.ok (δ, b'), g')) : Step (b, g) (b', g')

/-- The histories that begin with an empty graph are some of those that begin with any. -/
theorem Visited.steps (h : Visited markers policy b g) :
    Relation.ReflTransGen Step ({ markers, policy }, {}) (b, g) := by
  induction h with
  | start => exact .refl
  | request _ hrun ih => exact ih.tail (.request hrun)
  | requirement _ hrun ih => exact ih.tail (.requirement hrun)
  | incident _ hrun ih => exact ih.tail (.incident hrun)

theorem Step.tidy {s s' : Builder × PropertyGraph} (step : Step s s') (h : s.1.book.Tidy s.2) :
    s'.1.book.Tidy s'.2 := by
  cases step with
  | @request b b' g g' δ call hrun =>
    rcases b.request_cases PropertyGraph call with hnone | ⟨changes, -, -, hsome⟩
    · rw [hnone] at hrun
      cases hrun
      exact h
    · rw [hsome] at hrun
      obtain ⟨d, rfl, -, hw, -, rfl⟩ := of_apply_ok hrun
      exact h.written hw
  | @requirement b b' g g' δ key code hrun =>
    obtain ⟨hup, hbook⟩ := of_link_ok hrun
    show b'.book.Tidy g'
    rw [hbook]
    exact h.link (.inl rfl) (NodeId.isPlaceholder_requirement key) hup
  | @incident b b' g g' δ key code hrun =>
    obtain ⟨hup, hbook⟩ := of_link_ok hrun
    show b'.book.Tidy g'
    rw [hbook]
    exact h.link (.inr rfl) (NodeId.isPlaceholder_incident key) hup

theorem tidy_steps {s s' : Builder × PropertyGraph} (h : s.1.book.Tidy s.2)
    (steps : Relation.ReflTransGen Step s s') : s'.1.book.Tidy s'.2 := by
  induction steps with
  | refl => exact h
  | tail _ step ih => exact step.tidy ih

/-- **Nothing waits without need.** Whatever calls have succeeded since the builder was made, over
whatever graph, a reference that waits is one that the index cannot resolve. -/
theorem resolve?_of_waiting
    (h : Relation.ReflTransGen Step ({ markers, policy }, start) (b, g)) {r : Reference}
    (hr : r ∈ b.book.pending.toList) : b.book.index.resolve? r = none := by
  have tidy := tidy_steps (Bookkeeping.tidy_empty start) h
  obtain ⟨key, hkey⟩ := (Maps.mem_values _ _).mp hr
  exact tidy.exhausted key r hkey

/-- A unit whose call waits, and a requirement linked to its declaration. -/
def sampleLinked : Builder × PropertyGraph :=
  let first := firstCall [] [sampleUnit "u.bsl" "f" 1 ["g"]]
  first.1.after (first.1.linkRequirement "R-1" ⟨"u::f"⟩ first.2)

theorem resolve?_of_waiting_sample : ∃ r, r ∈ sampleLinked.1.book.pending.toList ∧
    sampleLinked.1.book.index.contains (.requirement "R-1") = true ∧
    sampleLinked.1.book.index.resolve? r = none := by
  obtain ⟨first, hfirst⟩ : ∃ first, first = firstCall [] [sampleUnit "u.bsl" "f" 1 ["g"]] := ⟨_, rfl⟩
  have hok : (first.1.linkRequirement "R-1" ⟨"u::f"⟩ first.2).1.isOk = true := by
    rw [hfirst]
    decide +kernel
  obtain ⟨δ, hrun⟩ := after_of_isOk (b := first.1) hok
  rw [hfirst] at hrun
  have visited : Visited [] {} sampleLinked.1 sampleLinked.2 :=
    .requirement (visited_firstCall (by decide +kernel)) hrun
  obtain ⟨r, hr⟩ : ∃ r, sampleLinked.1.book.pending.toList = [r] :=
    List.length_eq_one_iff.mp (by decide +kernel)
  have hmem : r ∈ sampleLinked.1.book.pending.toList := by rw [hr]; exact List.mem_singleton_self r
  exact ⟨r, hmem, by decide +kernel, resolve?_of_waiting visited.steps hmem⟩

end Builder

end CodeAtlas
