import CodeAtlas.Proofs.History

/-!
# What a delta says

The delta of a call is meant to bring anyone who has the graph before the call to the graph after it:
delete the nodes that went with all their edges, delete the edges that went, insert the rest. How far
does this lead?

The nodes always come out right, and no edge is missing in the end. But an edge can be left over. The
plan of a call deletes a node whose kind changes, to insert it anew under the same id. Deleting it
takes all its edges away. The delta mentions neither: not the node, since it is there in the end, and
not the edges, since they were taken away together with a node. So a delta is exact if and only if it
lists every edge that went while both its nodes stayed (`replay_eq_iff`), and the edges it does not
list are those at a node whose kind has changed (`unlisted_iff_rekinded`).

All this rests on graphs being closed: the nodes of every edge are there. Every change keeps them so,
whoever makes it.
-/

set_option autoImplicit false

namespace CodeAtlas

open Std

/-! ## Closed graphs -/

namespace PropertyGraph

variable {g g' : PropertyGraph}

/-- Whether both nodes of every edge are there. -/
def Closed (g : PropertyGraph) : Prop :=
  ∀ k : EdgeKey, g.edges.contains k = true →
    g.nodes.contains k.source = true ∧ g.nodes.contains k.target = true

theorem closed_empty : Closed {} := by
  intro k h
  simp at h

theorem Closed.deleteEdges (h : g.Closed) (keys : List EdgeKey) : (g.deleteEdges keys).Closed := by
  intro k hk
  obtain ⟨edge, he⟩ := (Maps.contains_iff _ _).mp hk
  rw [get_deleteEdges] at he
  split at he
  · simp at he
  · exact h k ((Maps.contains_iff _ _).mpr ⟨edge, he⟩)

theorem Closed.delete (h : g.Closed) (ids : List NodeId) : (g.delete ids).Closed := by
  intro k hk
  obtain ⟨edge, he⟩ := (Maps.contains_iff _ _).mp hk
  rw [get_delete_edges] at he
  split at he
  · simp at he
  next hends =>
    obtain ⟨hsource, htarget⟩ := not_or.mp hends
    have stays : ∀ id, id ∉ ids → g.nodes.contains id = true →
        (g.delete ids).nodes.contains id = true := by
      intro id hid hn
      obtain ⟨node, hn⟩ := (Maps.contains_iff _ _).mp hn
      exact (Maps.contains_iff _ _).mpr ⟨node, by rw [get_delete_nodes, if_neg hid, hn]⟩
    obtain ⟨hs, ht⟩ := h k ((Maps.contains_iff _ _).mpr ⟨edge, he⟩)
    exact ⟨stays _ hsource hs, stays _ htarget ht⟩

/-- The first of some nodes that are accepted has the kind under which its id is known. -/
theorem of_acceptNodes_cons {node : Node} {rest : List Node}
    {accepted kinds : ExtTreeMap NodeId NodeKind}
    (h : g.acceptNodes accepted (node :: rest) = .ok kinds) :
    (∀ existing, g.kindOf? accepted node.id = some existing → existing = node.kind) ∧
      g.acceptNodes (accepted.insert node.id node.kind) rest = .ok kinds := by
  rw [acceptNodes] at h
  split at h
  next existing hknown =>
    split at h
    next hsame =>
      refine ⟨fun kind hkind => ?_, h⟩
      rw [hknown, Option.some.injEq] at hkind
      rw [← hkind, hsame]
    next => cases h
  next hnone =>
    refine ⟨fun kind hkind => ?_, h⟩
    rw [hnone] at hkind
    cases hkind

/-- Nodes that are accepted keep the kinds that are known, and no others are accepted. -/
theorem of_acceptNodes {nodes : List Node} {accepted kinds : ExtTreeMap NodeId NodeKind}
    (h : g.acceptNodes accepted nodes = .ok kinds) :
    (∀ node ∈ nodes, ∀ old, g.nodes[node.id]? = some old → old.kind = node.kind) ∧
      ∀ id : NodeId, kinds.contains id = true →
        accepted.contains id = true ∨ ∃ node ∈ nodes, node.id = id := by
  induction nodes generalizing accepted with
  | nil =>
    cases h
    exact ⟨by simp, fun id hid => .inl hid⟩
  | cons node rest ih =>
    obtain ⟨hkind, hrest⟩ := of_acceptNodes_cons h
    obtain ⟨hkinds, hids⟩ := ih hrest
    refine ⟨fun m hm => ?_, fun id hid => ?_⟩
    · rcases List.mem_cons.mp hm with rfl | hm
      · exact fun old hold => hkind old.kind (by rw [kindOf?, hold]; rfl)
      · exact hkinds m hm
    · rcases hids id hid with hacc | ⟨m, hm, hid⟩
      · rw [ExtTreeMap.contains_insert, Bool.or_eq_true, beq_iff_eq,
          LawfulEqCmp.compare_eq_iff_eq] at hacc
        exact hacc.symm.imp_right fun he => ⟨node, List.mem_cons_self, he⟩
      · exact .inr ⟨m, List.mem_cons_of_mem node hm, hid⟩

/-- What an insertion was checked for. -/
theorem of_upsert {nodes : List Node} {edges : List Edge} (h : g.upsert nodes edges = .ok g') :
    g' = g.inserted nodes edges ∧
      (∀ node ∈ nodes, ∀ old, g.nodes[node.id]? = some old → old.kind = node.kind) ∧
      ∀ edge ∈ edges, g'.nodes.contains edge.source = true ∧
        g'.nodes.contains edge.target = true := by
  rw [upsert_eq] at h
  cases hn : g.acceptNodes ∅ nodes with
  | error e => rw [hn] at h; cases h
  | ok kinds =>
    rw [hn] at h
    cases he : g.acceptEdges kinds edges with
    | error e => simp [he] at h
    | ok done =>
      simp only [he, Except.ok.injEq] at h
      subst h
      obtain ⟨hkinds, hids⟩ := of_acceptNodes hn
      have there : ∀ id, (g.kindOf? kinds id).isSome = true →
          (g.inserted nodes edges).nodes.contains id = true := by
        intro id hid
        refine (Maps.contains_foldl_insert Node.id nodes g.nodes id).mpr ?_
        rw [kindOf?, Option.isSome_or, Bool.or_eq_true, Option.isSome_map] at hid
        rcases hid with hid | hid
        · exact .inr ((Maps.contains_iff _ _).mpr (Option.isSome_iff_exists.mp hid))
        · refine .inl ((hids id ((Maps.contains_iff _ _).mpr
            (Option.isSome_iff_exists.mp hid))).resolve_left ?_)
          simp
      refine ⟨rfl, hkinds, fun edge hedge => ?_⟩
      obtain ⟨hs, ht⟩ := acceptEdges_ok_iff.mp he edge hedge
      exact ⟨there _ hs, there _ ht⟩

theorem Closed.upsert (h : g.Closed) {nodes : List Node} {edges : List Edge}
    (hup : g.upsert nodes edges = .ok g') : g'.Closed := by
  obtain ⟨rfl, -, hends⟩ := of_upsert hup
  intro k hk
  rcases (Maps.contains_foldl_insert Edge.key edges g.edges k).mp hk with ⟨edge, he, rfl⟩ | hk
  · exact hends edge he
  · have stays : ∀ id, g.nodes.contains id = true → (g.inserted nodes edges).nodes.contains id = true :=
      fun id hid => (Maps.contains_foldl_insert Node.id nodes g.nodes id).mpr (.inr hid)
    obtain ⟨hs, ht⟩ := h k hk
    exact ⟨stays _ hs, stays _ ht⟩

end PropertyGraph

namespace Plan

variable {plan : Plan} {g g' : PropertyGraph}

theorem closed_written (hg : g.Closed) (h : plan.written g = .ok g') : g'.Closed :=
  ((hg.deleteEdges _).delete _).upsert h

/-- A node that is not deleted keeps its kind. -/
theorem kind_written (keyed : plan.Keyed) (h : plan.written g = .ok g') {id : NodeId}
    (hid : id ∉ plan.deleteNodes) {old new : Node} (hold : g.nodes[id]? = some old)
    (hnew : g'.nodes[id]? = some new) : old.kind = new.kind := by
  rw [get_written_nodes keyed h, if_neg hid, hold] at hnew
  rcases Option.or_eq_some_iff.mp hnew with hn | ⟨-, hsame⟩
  · obtain ⟨-, hkinds, -⟩ := PropertyGraph.of_upsert h
    refine hkinds new ((Maps.mem_values _ _).mpr ⟨id, hn⟩) old ?_
    rw [keyed.nodes id new hn, cleared_nodes, if_neg hid, hold]
  · rw [Option.some.inj hsame]

end Plan

/-! ## Replaying -/

/-- The graph to which a delta leads: the nodes that went are deleted with their edges, the edges that
went are deleted, and the rest is inserted. -/
def Delta.replay (δ : Delta) (g : PropertyGraph) : PropertyGraph :=
  ((g.delete δ.removedIds).deleteEdges δ.removedEdges).inserted δ.upsertedNodes δ.upsertedEdges

/-- Whether an edge goes from one graph to the other although both its nodes stay. -/
structure PropertyGraph.Loses (g g' : PropertyGraph) (k : EdgeKey) : Prop where
  was : g.edges.contains k = true
  gone : g'.edges.contains k = false
  source : g'.nodes.contains k.source = true
  target : g'.nodes.contains k.target = true

theorem PropertyGraph.loses_iff {g g' : PropertyGraph} {k : EdgeKey} : g.Loses g' k ↔
    g.edges.contains k = true ∧ g'.edges.contains k = false ∧
      g'.nodes.contains k.source = true ∧ g'.nodes.contains k.target = true :=
  ⟨fun ⟨was, gone, source, target⟩ => ⟨was, gone, source, target⟩,
    fun ⟨was, gone, source, target⟩ => ⟨was, gone, source, target⟩⟩

theorem PropertyGraph.Loses.irrefl {g : PropertyGraph} {k : EdgeKey} (h : g.Loses g k) : False := by
  have hgone := h.gone
  rw [h.was] at hgone
  simp at hgone

namespace Plan

variable {plan : Plan} {g g' : PropertyGraph}

theorem mem_removedIds {id : NodeId} :
    id ∈ plan.toDelta.removedIds ↔ id ∈ plan.deleteNodes ∧ plan.upsertNodes[id]? = none := by
  rw [← Maps.contains_eq_false_iff]
  simp [toDelta, List.mem_filter]

theorem mem_removedEdges {k : EdgeKey} :
    k ∈ plan.toDelta.removedEdges ↔
      k ∈ plan.deleteEdges ∧ k.source ∉ plan.deleteNodes ∧ k.target ∉ plan.deleteNodes := by
  simp only [toDelta, List.mem_filter, ExtTreeSet.mem_toList, Bool.and_eq_true, Bool.not_eq_true',
    ← Bool.not_eq_true, ExtTreeSet.contains_iff_mem]

/-- The nodes come out right. -/
theorem replay_nodes (keyed : plan.Keyed) (h : plan.written g = .ok g') :
    (plan.toDelta.replay g).nodes = g'.nodes := by
  apply ExtTreeMap.ext_getElem?
  intro id
  have hreplay : (plan.toDelta.replay g).nodes[id]? =
      plan.upsertNodes[id]?.or ((g.delete plan.toDelta.removedIds).nodes[id]?) :=
    Maps.get_foldl_insert_values Node.id plan.upsertNodes _ keyed.nodes id
  rw [hreplay, get_written_nodes keyed h, PropertyGraph.get_delete_nodes]
  simp only [mem_removedIds]
  cases plan.upsertNodes[id]? with
  | some node => rfl
  | none => simp

theorem get_replay_edges (keyed : plan.Keyed) (g : PropertyGraph) (k : EdgeKey) :
    (plan.toDelta.replay g).edges[k]? = plan.upsertEdges[k]?.or
      (if k ∈ plan.toDelta.removedEdges ∨ k.source ∈ plan.toDelta.removedIds ∨
        k.target ∈ plan.toDelta.removedIds then none else g.edges[k]?) := by
  have hreplay : (plan.toDelta.replay g).edges[k]? = plan.upsertEdges[k]?.or
      (((g.delete plan.toDelta.removedIds).deleteEdges plan.toDelta.removedEdges).edges[k]?) :=
    Maps.get_foldl_insert_values Edge.key plan.upsertEdges _ keyed.edges k
  rw [hreplay, PropertyGraph.get_deleteEdges, PropertyGraph.get_delete_edges]
  by_cases hk : k ∈ plan.toDelta.removedEdges <;> simp [hk]

theorem not_mem_removedIds (keyed : plan.Keyed) (h : plan.written g = .ok g') {id : NodeId}
    (hid : g'.nodes.contains id = true) : id ∉ plan.toDelta.removedIds := by
  intro hm
  obtain ⟨hdel, hnone⟩ := mem_removedIds.mp hm
  obtain ⟨node, hn⟩ := (Maps.contains_iff _ _).mp hid
  rw [get_written_nodes keyed h, hnone, if_pos hdel] at hn
  simp at hn

theorem contains_of_not_removed (keyed : plan.Keyed) (h : plan.written g = .ok g') {id : NodeId}
    (hid : g.nodes.contains id = true) (hm : id ∉ plan.toDelta.removedIds) :
    g'.nodes.contains id = true := by
  rw [mem_removedIds, not_and] at hm
  rw [Maps.contains_iff, get_written_nodes keyed h]
  cases hn : plan.upsertNodes[id]? with
  | some node => exact ⟨node, rfl⟩
  | none =>
    rw [if_neg fun hdel => hm hdel hn, Option.none_or]
    exact (Maps.contains_iff _ _).mp hid

/-- Of the edges too many come out: those that went with both their nodes staying, but are not
listed. -/
theorem replay_edges_iff (keyed : plan.Keyed) (hg : g.Closed) (h : plan.written g = .ok g')
    (k : EdgeKey) (edge : Edge) :
    (plan.toDelta.replay g).edges[k]? = some edge ↔ g'.edges[k]? = some edge ∨
      (g.edges[k]? = some edge ∧ g.Loses g' k ∧ k ∉ plan.toDelta.removedEdges) := by
  rw [get_replay_edges keyed]
  have hafter := get_written_edges keyed h k
  constructor
  · intro hr
    rcases Option.or_eq_some_iff.mp hr with hu | ⟨hu, hr⟩
    · exact .inl (by rw [hafter, hu]; rfl)
    · split at hr
      · simp at hr
      next hkept =>
        obtain ⟨hlisted, hsource, htarget⟩ : k ∉ plan.toDelta.removedEdges ∧
            k.source ∉ plan.toDelta.removedIds ∧ k.target ∉ plan.toDelta.removedIds := by
          simpa [not_or] using hkept
        rw [hu, Option.none_or] at hafter
        -- The edge survives the replay. If it did not survive the call, it went with a node that the
        -- delta does not list, and both its nodes were there to begin with.
        split at hafter
        · obtain ⟨hs, ht⟩ := hg k ((Maps.contains_iff _ _).mpr ⟨edge, hr⟩)
          exact .inr ⟨hr, ⟨(Maps.contains_iff _ _).mpr ⟨edge, hr⟩,
            (Maps.contains_eq_false_iff _ _).mpr hafter, contains_of_not_removed keyed h hs hsource,
            contains_of_not_removed keyed h ht htarget⟩, hlisted⟩
        · exact .inl (hafter.trans hr)
  · rintro (hr | ⟨hr, loses, hlisted⟩)
    · rw [hafter] at hr
      rcases Option.or_eq_some_iff.mp hr with hu | ⟨hu, hr⟩
      · rw [hu]; rfl
      · rw [hu, Option.none_or, if_neg]
        · split at hr
          · simp at hr
          · exact hr
        · -- The delta deletes no more than the plan does.
          rw [mem_removedEdges, mem_removedIds, mem_removedIds]
          split at hr
          · simp at hr
          next hkept => tauto
    · have hu : plan.upsertEdges[k]? = none := by
        have hgone := (Maps.contains_eq_false_iff _ _).mp loses.gone
        rw [hafter] at hgone
        exact (Option.or_eq_none_iff.mp hgone).1
      rw [hu, Option.none_or, if_neg, hr]
      rintro (hm | hm | hm)
      · exact hlisted hm
      · exact not_mem_removedIds keyed h loses.source hm
      · exact not_mem_removedIds keyed h loses.target hm

/-- A delta is exact if it lists every edge that went while both its nodes stayed. -/
theorem replay_toDelta_eq_iff (keyed : plan.Keyed) (hg : g.Closed) (h : plan.written g = .ok g') :
    plan.toDelta.replay g = g' ↔ ∀ k, g.Loses g' k → k ∈ plan.toDelta.removedEdges := by
  constructor
  · intro he k loses
    by_contra hlisted
    obtain ⟨edge, hk⟩ := (Maps.contains_iff _ _).mp loses.was
    have hleft := (replay_edges_iff keyed hg h k edge).mpr (.inr ⟨hk, loses, hlisted⟩)
    rw [he, (Maps.contains_eq_false_iff _ _).mp loses.gone] at hleft
    simp at hleft
  · intro hall
    have hedges : (plan.toDelta.replay g).edges = g'.edges := by
      apply ExtTreeMap.ext_getElem?
      intro k
      ext edge
      rw [replay_edges_iff keyed hg h]
      exact ⟨fun hr => hr.elim (fun hr => hr) fun hr => absurd (hall k hr.2.1) hr.2.2, .inl⟩
    calc plan.toDelta.replay g
        = ⟨(plan.toDelta.replay g).nodes, (plan.toDelta.replay g).edges⟩ := rfl
      _ = g' := by rw [replay_nodes keyed h, hedges]

/-- An edge that went while both its nodes stayed is not listed if one of them was deleted to be
inserted anew. -/
theorem not_listed_iff (keyed : plan.Keyed) (h : plan.written g = .ok g') {k : EdgeKey}
    (loses : g.Loses g' k) : k ∉ plan.toDelta.removedEdges ↔
      ∃ id, (id = k.source ∨ id = k.target) ∧ id ∈ plan.deleteNodes := by
  have hdeleted : k ∈ plan.deleteEdges ∨ k.source ∈ plan.deleteNodes ∨
      k.target ∈ plan.deleteNodes := by
    by_contra hkept
    have hgone := (Maps.contains_eq_false_iff _ _).mp loses.gone
    rw [get_written_edges keyed h, if_neg hkept] at hgone
    obtain ⟨edge, hk⟩ := (Maps.contains_iff _ _).mp loses.was
    rw [hk] at hgone
    simp at hgone
  rw [mem_removedEdges]
  constructor
  · intro hlisted
    by_cases hs : k.source ∈ plan.deleteNodes
    · exact ⟨_, .inl rfl, hs⟩
    · exact ⟨_, .inr rfl, by tauto⟩
  · rintro ⟨id, rfl | rfl, hid⟩ ⟨-, hs, ht⟩
    · exact hs hid
    · exact ht hid

end Plan

namespace Bookkeeping.Planned

variable {markers : List String} {book : Bookkeeping} {g g' : PropertyGraph}
  {changes : List UnitChange} {puts : List ParsedUnit}

/-- A node that is deleted and is there in the end has another kind. -/
theorem rekinded_of_deleted (c : Planned markers book g changes puts)
    (hw : (book.draftOn g markers changes).plan.written g = .ok g') {id : NodeId}
    (hdel : id ∈ (book.draftOn g markers changes).plan.deleteNodes) {new : Node}
    (hnew : g'.nodes[id]? = some new) : ∃ old, g.nodes[id]? = some old ∧ old.kind ≠ new.kind := by
  rw [Plan.get_written_nodes c.keyed_plan hw, if_pos hdel, Option.or_none] at hnew
  rcases c.mem_deleteNodes.mp hdel with hgone | ⟨hb, ha⟩
  · -- A node of a changed unit is no placeholder, so what is planned for it comes of a fragment.
    have hothers := c.ends.others id (iff_of_false
      (fun ha => c.not_gone_of_awaits c.ends.keyed ha hgone)
      fun hm => c.not_gone_of_awaits c.mirrors.keyed ((PendingQueue.mem_placeholderIds _ _).mp hm) hgone)
    rw [hothers] at hnew
    rcases mem_goneNodes.mp hgone with ⟨kind, hk⟩ | hk
    · rw [c.adds.retracted, if_pos ((Maps.contains_iff _ _).mpr ⟨new, hnew⟩)] at hk
      simp at hk
    · obtain ⟨node, kind, hn, hk, hne⟩ := (c.adds.rekinded id).mp hk
      rw [hnew] at hn
      cases hn
      obtain ⟨old, hold, rfl⟩ := c.mirrors.node_of_kind? ((c.retracts.retracted id kind).mp hk).1
      exact ⟨old, hold, hne⟩
  · rw [c.ends.disappear id ((PendingQueue.mem_placeholderIds _ _).mpr hb) ha] at hnew
    simp at hnew

end Bookkeeping.Planned

/-! ## Histories with links -/

namespace Builder

variable {b b' : Builder} {g g' : PropertyGraph} {δ : Delta} {markers : List String}
  {policy : RetryPolicy} {call : Request}

/-- The rest of a link, once it is known whether its code node is there. -/
def linkIf {σ : Type} [Backend σ] (b : Builder) (node : Node) (edge : Edge) (code : NodeId)
    (known : Bool) : Session σ (Delta × Builder) := do
  if !known then throw (.nodeNotFound code.text)
  b.policy.session (Backend.upsert [node] [edge])
  return ({ upsertedNodes := [node], upsertedEdges := [edge] },
    { b with book := { b.book with index := b.book.index.add node } })

theorem link_eq {σ : Type} [Backend σ] (b : Builder) (node : Node) (edge : Edge) (code : NodeId) :
    (b.link node edge code : Session σ (Delta × Builder)) = (do
      let known ← if b.book.index.contains code then pure true
        else (·.isSome) <$> b.policy.session (Backend.getNode code)
      b.linkIf node edge code known) := by
  unfold link linkIf
  cases b.book.index.contains code <;> rfl

/-- A link that succeeds inserts a node and an edge, and enters the node into the index. -/
theorem of_linkIf_ok {node : Node} {edge : Edge} {code : NodeId} {known : Bool}
    (h : b.linkIf node edge code known g = (.ok (δ, b'), g')) :
    g.upsert [node] [edge] = .ok g' ∧
      b'.book = { b.book with index := b.book.index.add node } := by
  unfold linkIf at h
  cases known with
  | false => cases h
  | true =>
    have hinsert := session_upsert b.policy [node] [edge] g
    change (b.policy.session (Backend.upsert [node] [edge]) >>= fun _ => pure _) g = _ at h
    cases hup : g.upsert [node] [edge] with
    | ok g'' =>
      rw [hup] at hinsert
      rw [Session.bind_ok hinsert] at h
      cases h
      exact ⟨rfl, rfl⟩
    | error e =>
      rw [hup] at hinsert
      rw [Session.bind_error hinsert] at h
      cases h

theorem of_link_ok {node : Node} {edge : Edge} {code : NodeId}
    (h : b.link node edge code g = (.ok (δ, b'), g')) :
    g.upsert [node] [edge] = .ok g' ∧
      b'.book = { b.book with index := b.book.index.add node } := by
  rw [link_eq] at h
  cases hc : b.book.index.contains code with
  | true =>
    rw [hc, if_pos rfl, Session.bind_ok (Session.pure_run true g)] at h
    exact of_linkIf_ok h
  | false =>
    have hask : b.policy.session (Backend.getNode code) g = (.ok (g.get? code), g) :=
      b.policy.session_ok rfl
    rw [hc, if_neg (by simp), map_eq_pure_bind, bind_assoc, Session.bind_ok hask, pure_bind] at h
    exact of_linkIf_ok h

/-- The builders and graphs that successful calls of all kinds lead to. -/
inductive Visited (markers : List String) (policy : RetryPolicy) : Builder → PropertyGraph → Prop
  | start : Visited markers policy { markers, policy } {}
  | request {b b' : Builder} {g g' : PropertyGraph} {δ : Delta} {call : Request}
      (h : Visited markers policy b g) (hrun : b.request call g = (.ok (δ, b'), g')) :
      Visited markers policy b' g'
  | requirement {b b' : Builder} {g g' : PropertyGraph} {δ : Delta} {key : String} {code : NodeId}
      (h : Visited markers policy b g)
      (hrun : b.linkRequirement key code g = (.ok (δ, b'), g')) : Visited markers policy b' g'
  | incident {b b' : Builder} {g g' : PropertyGraph} {δ : Delta} {key : String} {code : NodeId}
      (h : Visited markers policy b g)
      (hrun : b.linkIncident key code g = (.ok (δ, b'), g')) : Visited markers policy b' g'

/-- No call leaves an edge without one of its nodes. -/
theorem Visited.closed (h : Visited markers policy b g) : g.Closed ∧ b.book.pending.Keyed := by
  have hlink : ∀ {b b' : Builder} {g g' : PropertyGraph} {δ : Delta} {node : Node} {edge : Edge}
      {code : NodeId}, g.Closed ∧ b.book.pending.Keyed →
      b.link node edge code g = (.ok (δ, b'), g') → g'.Closed ∧ b'.book.pending.Keyed := by
    rintro b b' g g' δ node edge code ⟨closed, keyed⟩ hrun
    obtain ⟨hup, hbook⟩ := of_link_ok hrun
    exact ⟨closed.upsert hup, by rw [hbook]; exact keyed⟩
  induction h with
  | start => exact ⟨PropertyGraph.closed_empty, PendingQueue.keyed_empty⟩
  | @request b b' g g' δ call _ hrun ih =>
    rcases b.request_cases PropertyGraph call with hnone | ⟨changes, -, -, hsome⟩
    · rw [hnone] at hrun
      cases hrun
      exact ih
    · rw [hsome] at hrun
      obtain ⟨d, rfl, -, hw, -, rfl⟩ := of_apply_ok hrun
      exact ⟨Plan.closed_written ih.1 hw, (Bookkeeping.keyed_draftWith ih.2 _ _ _).1⟩
  | requirement _ hrun ih => exact hlink ih hrun
  | incident _ hrun ih => exact hlink ih hrun

theorem replay_empty (g : PropertyGraph) : Delta.replay {} g = g := by
  unfold Delta.replay
  rw [PropertyGraph.delete_nil]
  rfl

/-- **How exact a delta is.** Replayed on the graph before the call, it leads to the nodes after the
call, and to the edges after the call together with those that went while both their nodes stayed but
are not listed. So it leads to the graph after the call exactly if all of these are listed. -/
theorem replay_eq_iff (h : Visited markers policy b g)
    (hrun : b.request call g = (.ok (δ, b'), g')) :
    (δ.replay g).nodes = g'.nodes ∧
      (∀ (k : EdgeKey) edge, (δ.replay g).edges[k]? = some edge ↔ g'.edges[k]? = some edge ∨
        (g.edges[k]? = some edge ∧ g.Loses g' k ∧ k ∉ δ.removedEdges)) ∧
      (δ.replay g = g' ↔ ∀ k, g.Loses g' k → k ∈ δ.removedEdges) := by
  obtain ⟨closed, keyed⟩ := h.closed
  rcases b.request_cases PropertyGraph call with hnone | ⟨changes, -, -, hsome⟩
  · rw [hnone] at hrun
    cases hrun
    rw [replay_empty]
    exact ⟨rfl, fun k edge => ⟨.inl, fun hr => hr.resolve_right fun hr => hr.2.1.irrefl⟩,
      iff_of_true rfl fun k hk => hk.irrefl.elim⟩
  · rw [hsome] at hrun
    obtain ⟨d, rfl, -, hw, rfl, -⟩ := of_apply_ok hrun
    have hplan := (Bookkeeping.keyed_draftWith keyed b.markers changes
      (b.book.reopened g b.markers changes)).2
    exact ⟨Plan.replay_nodes hplan hw, Plan.replay_edges_iff hplan closed hw,
      Plan.replay_toDelta_eq_iff hplan closed hw⟩

/-- **What is not listed.** Over units that claim no reserved ids, an edge that went while both its
nodes stayed is not listed exactly if one of them has another kind now. -/
theorem unlisted_iff_rekinded {units : ParsedUnit → Prop} (hu : Unreserved markers units)
    (h : Reached markers policy units b g) (hunits : ∀ p ∈ call.incoming, units p)
    (hrun : b.request call g = (.ok (δ, b'), g')) {k : EdgeKey} (loses : g.Loses g' k) :
    k ∉ δ.removedEdges ↔ ∃ id old new, (id = k.source ∨ id = k.target) ∧
      g.nodes[id]? = some old ∧ g'.nodes[id]? = some new ∧ old.kind ≠ new.kind := by
  obtain ⟨rfl, -⟩ := h.settings
  rcases b.request_cases PropertyGraph call with hnone | ⟨changes, hnodup, hputs, hsome⟩
  · rw [hnone] at hrun
    cases hrun
    exact loses.irrefl.elim
  rw [hsome] at hrun
  obtain ⟨puts, c⟩ := (h.mirrors hu).planned
    (hu.changes hnodup fun p hp => hunits p (hputs p hp))
  obtain ⟨d, rfl, -, hw, rfl, -⟩ := of_apply_ok hrun
  rw [Plan.not_listed_iff c.keyed_plan hw loses]
  constructor
  · rintro ⟨id, hid, hdel⟩
    have hstays : g'.nodes.contains id = true := by
      rcases hid with rfl | rfl
      · exact loses.source
      · exact loses.target
    obtain ⟨new, hnew⟩ := (Maps.contains_iff _ _).mp hstays
    obtain ⟨old, hold, hne⟩ := c.rekinded_of_deleted hw hdel hnew
    exact ⟨id, old, new, hid, hold, hnew, hne⟩
  · rintro ⟨id, old, new, hid, hold, hnew, hne⟩
    refine ⟨id, hid, ?_⟩
    by_contra hdel
    exact hne (Plan.kind_written c.keyed_plan hw hdel hold hnew)

/-! ## A change of kind -/

/-- Two declarations, of which the second may call the first. -/
def samplePair (hash : UInt64) (kind : DeclKind) (calls : List CallSite) : ParsedUnit where
  unit := ⟨"u.bsl", .sourceModule, ⟨hash⟩⟩
  outline :=
    { declarations :=
        [{ name := "f", kind, firstLine := 1, lastLine := 3 },
         { name := "g", firstLine := 4, lastLine := 6 }]
      calls }

/-- A procedure that is called, and a function in its place that is not. -/
def sampleProcedure : ParsedUnit := samplePair 1 .procedure [⟨some "g", "f", none, 5⟩]

def sampleFunction : ParsedUnit := samplePair 2 .function []

theorem visited_firstCall {parsed : List ParsedUnit}
    (h : (ingest { markers } parsed ({} : PropertyGraph)).1.isOk = true) :
    Visited markers {} (firstCall markers parsed).1 (firstCall markers parsed).2 := by
  obtain ⟨δ, hrun⟩ := after_of_isOk (b := { markers }) h
  have hrequest : request { markers } (.ingest parsed) ({} : PropertyGraph) = _ := hrun
  exact .request .start hrequest

/-- The edge from the second to the first. -/
def sampleCall : EdgeKey := ⟨⟨"u::g"⟩, ⟨"u::f"⟩, .calls⟩

/-- The call is given up and the procedure stays one. The edge is listed. -/
theorem replay_eq_sample :
    let start := firstCall [] [sampleProcedure]
    let next := samplePair 2 .procedure []
    ∃ δ b' g', start.1.request (.ingest [next]) start.2 = (.ok (δ, b'), g') ∧
      (δ.replay start.2).nodes = g'.nodes ∧ start.2.Loses g' sampleCall ∧
      δ.removedEdges = [sampleCall] ∧
      (δ.replay start.2 = g' ↔ ∀ k, start.2.Loses g' k → k ∈ δ.removedEdges) := by
  intro start next
  obtain ⟨hok, hlisted⟩ : (start.1.request (.ingest [next]) start.2).1.isOk = true ∧
      (start.1.request (.ingest [next]) start.2).1.toOption.map (·.1.removedEdges) =
        some [sampleCall] := by decide +kernel
  obtain ⟨δ, hrun⟩ := after_of_isOk (b := start.1) hok
  have hexact := replay_eq_iff (visited_firstCall (by decide +kernel)) hrun
  have loses : start.2.Loses (start.1.after (start.1.request (.ingest [next]) start.2)).2 sampleCall := by
    rw [PropertyGraph.loses_iff]
    decide +kernel
  rw [hrun] at hlisted
  exact ⟨δ, _, _, hrun, hexact.1, loses, Option.some.inj hlisted, hexact.2.2⟩

/-- The builder and the graph with the procedure, and the plan that makes a function of it. -/
def sampleBefore : Builder × PropertyGraph := firstCall [] [sampleProcedure]

def sampleRekinding : Draft :=
  sampleBefore.1.book.draftWith sampleBefore.1.markers [.put sampleFunction]
    (unsortedReopened sampleBefore.1.book sampleBefore.2 sampleBefore.1.markers
      [.put sampleFunction])

/-- **An edge left over.** A procedure becomes a function and is no longer called. The edge of the
call goes, both its nodes stay, and the delta does not list it. -/
theorem replay_leaves_edge : ∃ (δ : Delta) (b' : Builder) (g' : PropertyGraph),
    Visited [] {} sampleBefore.1 sampleBefore.2 ∧
    sampleBefore.1.request (.ingest [sampleFunction]) sampleBefore.2 = (.ok (δ, b'), g') ∧
    sampleBefore.2.Loses g' sampleCall ∧ δ.removedEdges = [] ∧ δ.replay sampleBefore.2 ≠ g' := by
  have hchanges : sampleBefore.1.changesOf [sampleFunction] = [.put sampleFunction] :=
    changesOf_singleton (by decide +kernel)
  have hrun : sampleBefore.1.ingest [sampleFunction] sampleBefore.2 =
      (.ok (sampleRekinding.plan.toDelta, { sampleBefore.1 with book := sampleRekinding.book }),
        laid sampleRekinding sampleBefore.2) := by
    rw [ingest_eq_apply (by simp [hchanges]), hchanges]
    exact apply_of_passes (reopened_of_pairwise (by decide +kernel)) (by decide +kernel)
  have loses : sampleBefore.2.Loses (laid sampleRekinding sampleBefore.2) sampleCall := by
    rw [PropertyGraph.loses_iff]
    decide +kernel
  have hleft : (sampleRekinding.plan.toDelta.replay sampleBefore.2).edges.contains sampleCall = true := by
    decide +kernel
  refine ⟨_, _, _, visited_firstCall (by decide +kernel), hrun, loses, by decide +kernel, fun he => ?_⟩
  rw [he, loses.gone] at hleft
  simp at hleft

end Builder

end CodeAtlas
