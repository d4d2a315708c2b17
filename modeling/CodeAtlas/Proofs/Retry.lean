import CodeAtlas.Proofs.History

/-!
# Making a failed call again

A call writes in three steps, and the store may go away before any of them. The bookkeeping is then
what it was, but the graph has lost what the earlier steps deleted, and the plan is made anew from
both. Of the graph a plan reads one thing only, the edges of other units at vanished nodes
(`Bookkeeping.reopened`). Before the second step these edges are all still there. Before the third
they have gone with their nodes, so the call that is made again does not know the references that they
stood for. It comes to the same end only if nothing was to come of these references that is not there
without them (`Draft.Covers`).
-/

set_option autoImplicit false

namespace CodeAtlas

open Std Text

namespace Draft

/-! ## What turned-back references add -/

/-- Two drafts that differ in what is remembered of units at most. -/
structure SamePlan (a b : Draft) : Prop where
  plan : a.plan = b.plan
  pending : a.book.pending = b.book.pending
  index : a.book.index = b.book.index

theorem SamePlan.settle {a b : Draft} (h : SamePlan a b) (r : Reference) :
    SamePlan (a.settle r) (b.settle r) := by
  rw [settle_eq, settle_eq, h.index]
  split
  · exact ⟨by rw [h.plan], by show a.book.pending.erase r = _; rw [h.pending]; rfl, h.index⟩
  · exact h

theorem SamePlan.place {a b : Draft} (h : SamePlan a b) (r : Reference) :
    SamePlan (a.place r) (b.place r) := by
  rw [place_eq, place_eq, h.index, h.pending]
  exact ⟨by rw [h.plan], rfl, h.index⟩

theorem SamePlan.foldl_settle {a b : Draft} (h : SamePlan a b) (refs : List Reference) :
    SamePlan (refs.foldl Draft.settle a) (refs.foldl Draft.settle b) := by
  induction refs generalizing a b with
  | nil => exact h
  | cons r rest ih => exact ih (h.settle r)

theorem SamePlan.foldl_place {a b : Draft} (h : SamePlan a b) (refs : List Reference) :
    SamePlan (refs.foldl Draft.place a) (refs.foldl Draft.place b) := by
  induction refs generalizing a b with
  | nil => exact h
  | cons r rest ih => exact ih (h.place r)

theorem samePlan_reopenAll (d : Draft) (opened : List Reopening) : SamePlan (d.reopenAll opened) d :=
  ⟨rfl, foldl_eraseEdge_pending opened d.book, foldl_eraseEdge_index opened d.book⟩

theorem foldl_settle_refs (refs : List Reference) (d : Draft) :
    (refs.foldl settle d).refs = d.refs := by
  induction refs generalizing d with
  | nil => rfl
  | cons r rest ih =>
    rw [List.foldl_cons, ih, refs_settle]

/-- References that are turned back are placed on top of everything else. -/
theorem resolveAll_reopenAll (d : Draft) (opened : List Reopening) :
    ∃ mid, SamePlan mid d.resolveAll ∧
      (d.reopenAll opened).resolveAll = (opened.map (·.ref)).foldl place mid := by
  have hpending : (d.reopenAll opened).book.pending = d.book.pending :=
    (samePlan_reopenAll d opened).pending
  refine ⟨d.refs.foldl place (d.book.pending.toList.foldl settle (d.reopenAll opened)), ?_, ?_⟩
  · unfold resolveAll
    dsimp only
    rw [foldl_settle_refs]
    exact ((samePlan_reopenAll d opened).foldl_settle _).foldl_place _
  · unfold resolveAll
    dsimp only
    rw [foldl_settle_refs, hpending]
    show (d.refs ++ opened.map (·.ref)).foldl place _ = _
    rw [List.foldl_append]

/-- How the draft with some references turned back differs from the one without them. -/
structure Exceeds (refs : List Reference) (d full : Draft) : Prop where
  index : full.book.index = d.book.index
  pending : ∀ key : PendingKey, full.book.pending.waiting[key]? = d.book.pending.waiting[key]?.or
    ((refs.filter (!d.book.index.resolves ·)).find? (PendingQueue.keyOf · = key))
  upsertEdges : ∀ k : EdgeKey, full.plan.upsertEdges[k]? =
    d.plan.upsertEdges[k]?.or ((refs.map d.book.index.standing).find? (·.key = k))
  deleteEdges : ∀ k, k ∈ full.plan.deleteEdges ↔
    k ∈ d.plan.deleteEdges ∧ ∀ r ∈ refs, (d.book.index.standing r).key ≠ k
  /-- Nodes differ only where the queues do. -/
  nodes : full.book.pending = d.book.pending → full.plan.upsertNodes = d.plan.upsertNodes ∧
    full.plan.deleteNodes = d.plan.deleteNodes

theorem followQueue_nodes {a b : Draft} (before : List NodeId)
    (hpending : a.book.pending = b.book.pending)
    (hup : a.plan.upsertNodes = b.plan.upsertNodes)
    (hdel : a.plan.deleteNodes = b.plan.deleteNodes) :
    (a.followQueue before).plan.upsertNodes = (b.followQueue before).plan.upsertNodes ∧
      (a.followQueue before).plan.deleteNodes = (b.followQueue before).plan.deleteNodes := by
  simp only [followQueue_plan, foldl_putNode, foldl_discard, hpending, hup, hdel, and_self]

theorem exceeds (d : Draft) (opened : List Reopening) (before : List NodeId) :
    Exceeds (opened.map (·.ref)) (d.resolveAll.followQueue before)
      ((d.reopenAll opened).resolveAll.followQueue before) := by
  obtain ⟨mid, same, hfull⟩ := resolveAll_reopenAll d opened
  rw [hfull]
  have places := places_foldl (opened.map (·.ref)) mid
  have hedges : ∀ x : Draft, (x.followQueue before).plan.upsertEdges = x.plan.upsertEdges ∧
      (x.followQueue before).plan.deleteEdges = x.plan.deleteEdges := by
    intro x
    rw [followQueue_plan, foldl_putNode, foldl_discard]
    exact ⟨rfl, rfl⟩
  constructor
  case index => exact places.same.index.trans same.index
  case pending =>
    intro key
    have h := places.pending key
    rw [same.index, same.pending] at h
    exact h
  case upsertEdges =>
    intro k
    rw [(hedges _).1, (hedges _).1, places.upsertEdges, same.index, same.plan]
    rfl
  case deleteEdges =>
    intro k
    rw [(hedges _).2, (hedges _).2, places.deleteEdges, same.index, same.plan]
    rfl
  case nodes =>
    intro hpending
    refine followQueue_nodes before hpending ?_ ?_
    · rw [places.upsertNodes, same.plan]
    · rw [places.deleteNodes, same.plan]

end Draft

/-! ## A store that goes away -/

/-- The steps in which a plan is written. -/
inductive WriteStep where
  | deleteEdges
  | delete
  | upsert
deriving DecidableEq

namespace WriteStep

/-- The call to the store that a step makes. -/
def call : WriteStep → Call
  | deleteEdges => .deleteEdges
  | delete => .delete
  | upsert => .upsert

/-- Whether a plan gives a step something to do. -/
def Taken (step : WriteStep) (plan : Plan) : Prop :=
  match step with
  | deleteEdges => plan.deleteEdges.isEmpty = false
  | delete => plan.deleteNodes.isEmpty = false
  | upsert => (plan.upsertNodes.isEmpty && plan.upsertEdges.isEmpty) = false

/-- The graph that a step finds. -/
def found (step : WriteStep) (plan : Plan) (g : PropertyGraph) : PropertyGraph :=
  match step with
  | deleteEdges => g
  | delete => plan.withoutEdges g
  | upsert => plan.cleared g

end WriteStep

namespace RetryPolicy

theorem session_guarded {σ α : Type} (policy : RetryPolicy) {call : Call} {run : Session σ α}
    {f : Faulty σ} {a : α} {s : σ} (hnone : f.faults call = 0) (h : run f.store = (.ok a, s)) :
    policy.session (Faulty.guarded call run) f = (.ok a, { f with store := s }) := by
  refine policy.session_ok ?_
  simp only [Faulty.guarded, hnone, h]

end RetryPolicy

namespace Builder

variable {policy : RetryPolicy} {plan : Plan} {g : PropertyGraph} {faults : Call → Nat}

theorem clearEdges_faulty (hnone : faults .deleteEdges = 0) :
    clearEdges policy plan (⟨g, faults⟩ : Faulty PropertyGraph) =
      (.ok (), ⟨plan.withoutEdges g, faults⟩) := by
  unfold clearEdges
  cases he : plan.deleteEdges.isEmpty with
  | true =>
    rw [withoutEdges_of_isEmpty he]
    rfl
  | false => exact policy.session_guarded hnone rfl

theorem clearNodes_faulty (hnone : faults .delete = 0) :
    clearNodes policy plan (⟨g, faults⟩ : Faulty PropertyGraph) =
      (.ok (), ⟨g.delete plan.deleteNodes.toList, faults⟩) := by
  unfold clearNodes
  cases he : plan.deleteNodes.isEmpty with
  | true =>
    rw [delete_of_isEmpty he]
    rfl
  | false => exact policy.session_guarded hnone rfl

/-- The graph behind a store of which one step fails a number of times. -/
def failing (g : PropertyGraph) (step : WriteStep) (times : Nat) : Faulty PropertyGraph :=
  ⟨g, fun call => if call = step.call then times else 0⟩

/-- A step that fails as often as it is tried ends the writing, and the graph stays as the step
found it. -/
theorem commit_failing (valid : plan.Valid) {step : WriteStep} (taken : step.Taken plan)
    {times : Nat} (htimes : policy.attempts ≤ times) (g : PropertyGraph) :
    ∃ f', commit policy plan (failing g step times) =
        (.error (.unavailable s!"injected {step.call.name}"), f') ∧ f'.store = step.found plan g := by
  rw [commit_eq, Session.bind_ok (checkNodes_ok valid _)]
  obtain ⟨faults, hfaults⟩ : ∃ faults, faults = fun call => if call = step.call then times else 0 :=
    ⟨_, rfl⟩
  have hself : policy.attempts ≤ faults step.call := by simpa [hfaults] using htimes
  have hothers : ∀ call, call ≠ step.call → faults call = 0 := by
    intro call hne
    simp [hfaults, hne]
  rw [failing, ← hfaults]
  cases step with
  | deleteEdges =>
    have taken : plan.deleteEdges.isEmpty = false := taken
    obtain ⟨f', hrun, hstore⟩ := policy.session_faulty .deleteEdges
      (Backend.deleteEdges plan.deleteEdges.toList) (f := ⟨g, faults⟩) hself
    refine ⟨f', Session.bind_error ?_, hstore⟩
    unfold clearEdges
    rw [taken]
    exact hrun
  | delete =>
    have taken : plan.deleteNodes.isEmpty = false := taken
    rw [Session.bind_ok (clearEdges_faulty (hothers _ (by decide)))]
    obtain ⟨f', hrun, hstore⟩ := policy.session_faulty .delete
      (Backend.delete plan.deleteNodes.toList) (f := ⟨plan.withoutEdges g, faults⟩) hself
    refine ⟨f', Session.bind_error ?_, hstore⟩
    unfold clearNodes
    rw [taken]
    exact hrun
  | upsert =>
    have taken : (plan.upsertNodes.isEmpty && plan.upsertEdges.isEmpty) = false := taken
    rw [Session.bind_ok (clearEdges_faulty (hothers _ (by decide))),
      Session.bind_ok (clearNodes_faulty (hothers _ (by decide)))]
    obtain ⟨f', hrun, hstore⟩ := policy.session_faulty .upsert
      (Backend.upsert plan.upsertNodes.values plan.upsertEdges.values)
      (f := ⟨plan.cleared g, faults⟩) hself
    refine ⟨f', ?_, hstore⟩
    unfold insertRest
    rw [taken]
    exact hrun

theorem apply_failing {b : Builder} {changes : List UnitChange} {g : PropertyGraph} {d : Draft}
    (hd : b.book.draftOn g b.markers changes = d) (valid : d.plan.Valid) {step : WriteStep}
    (taken : step.Taken d.plan) {times : Nat} (htimes : b.policy.attempts ≤ times) :
    ∃ f', b.apply changes (failing g step times) =
        (.error (.unavailable s!"injected {step.call.name}"), f') ∧
      f'.store = step.found d.plan g := by
  have answers : Bookkeeping.AnswersAs b.policy (failing g step times) g := by
    intro id
    refine b.policy.session_guarded ?_ rfl
    cases step <;> rfl
  change b.book.draftWith _ _ _ = d at hd
  obtain ⟨f', hrun, hstore⟩ := commit_failing valid taken htimes g
  refine ⟨f', ?_, hstore⟩
  unfold apply
  rw [Session.bind_ok (Bookkeeping.draft_run answers b.book b.markers changes), hd,
    Session.bind_error hrun]

end Builder

/-! ## Without what has gone -/

namespace Plan

/-- Whether there is an edge after a plan is written. -/
def Leaves (plan : Plan) (g : PropertyGraph) (k : EdgeKey) : Prop :=
  plan.upsertEdges.contains k = true ∨ (g.edges.contains k = true ∧
    k ∉ plan.deleteEdges ∧ k.source ∉ plan.deleteNodes ∧ k.target ∉ plan.deleteNodes)

variable {plan : Plan} {g g' : PropertyGraph}

theorem contains_cleared (plan : Plan) (g : PropertyGraph) (k : EdgeKey) :
    (plan.cleared g).edges.contains k = true ↔ g.edges.contains k = true ∧
      k ∉ plan.deleteEdges ∧ k.source ∉ plan.deleteNodes ∧ k.target ∉ plan.deleteNodes := by
  rw [Maps.contains_iff, Maps.contains_iff, cleared_edges]
  by_cases h : k ∈ plan.deleteEdges ∨ k.source ∈ plan.deleteNodes ∨ k.target ∈ plan.deleteNodes
  · rw [if_pos h]
    refine ⟨fun ⟨_, hn⟩ => by simp at hn, fun ⟨_, he, hs, ht⟩ => ?_⟩
    rcases h with h | h | h
    · exact absurd h he
    · exact absurd h hs
    · exact absurd h ht
  · rw [if_neg h]
    rw [not_or, not_or] at h
    exact ⟨fun hk => ⟨hk, h⟩, fun hk => hk.1⟩

theorem contains_written (keyed : plan.Keyed) (h : plan.written g = .ok g') (k : EdgeKey) :
    g'.edges.contains k = true ↔ plan.Leaves g k := by
  have hget := get_written_edges keyed h k
  rw [← cleared_edges] at hget
  rw [Leaves, ← contains_cleared, ExtTreeMap.contains_eq_isSome_getElem?, hget, Option.isSome_or,
    Bool.or_eq_true, ← ExtTreeMap.contains_eq_isSome_getElem?,
    ← ExtTreeMap.contains_eq_isSome_getElem?]

end Plan

/-- Whether a reference has its edge, and its place in the queue if it has no target, although the
draft was made without it. -/
structure Draft.Covers (d : Draft) (g : PropertyGraph) (r : Reference) : Prop where
  edge : d.plan.Leaves g (d.book.index.standing r).key
  waits : d.book.index.resolves r = false →
    d.book.pending.waiting.contains (PendingQueue.keyOf r) = true

namespace Draft

/-- Resolving references plans edges only. -/
theorem resolveAll_nodes (d : Draft) : d.resolveAll.plan.upsertNodes = d.plan.upsertNodes ∧
    d.resolveAll.plan.deleteNodes = d.plan.deleteNodes := by
  refine resolveAll_induction (P := fun x => x.plan.upsertNodes = d.plan.upsertNodes ∧
    x.plan.deleteNodes = d.plan.deleteNodes) ⟨rfl, rfl⟩ (fun x r hx => ?_) fun x r hx => ?_
  · rw [settle_eq]
    split <;> exact hx
  · rw [place_eq]
    exact hx

end Draft

namespace Bookkeeping

variable {book : Bookkeeping} {markers : List String} {changes : List UnitChange}
  {g g' : PropertyGraph}

/-- The last phase of a draft follows the queue that the phases before have left. -/
theorem follows_draftWith (keyed : book.pending.Keyed) (markers : List String)
    (changes : List UnitChange) (opened : List Draft.Reopening) :
    Draft.Follows book.pending.placeholderIds
      (((book.added markers changes).deleteAll (book.added markers changes).goneNodes).reopenAll
        opened).resolveAll (book.draftWith markers changes opened) := by
  refine Draft.follows_followQueue ?_ _
  exact (keyed_draftWith keyed markers changes opened).1

/-- All that has vanished is deleted. -/
theorem mem_deleteNodes_of_gone (keyed : book.pending.Keyed) (opened : List Draft.Reopening)
    {id : NodeId} (h : id ∈ (book.added markers changes).goneNodes) :
    id ∈ (book.draftWith markers changes opened).plan.deleteNodes := by
  refine ((follows_draftWith keyed markers changes opened).deleteNodes id).mpr (.inl ?_)
  rw [(Draft.resolveAll_nodes _).2]
  exact (Draft.mem_deleteNodes_deleteAll _ _ id).mpr (.inr h)

theorem neighbors_eq_nil {id : NodeId}
    (h : ∀ (k : EdgeKey) edge, g.edges[k]? = some edge → edge.source ≠ id ∧ edge.target ≠ id) :
    g.neighbors id [] .both = [] := by
  refine List.eq_nil_iff_forall_not_mem.mpr fun hop hm => ?_
  obtain ⟨⟨k, hk⟩, ⟨hs, -⟩ | ⟨ht, -⟩⟩ := PropertyGraph.mem_neighbors.mp hm
  · exact (h k _ hk).1 hs
  · exact (h k _ hk).2 ht

/-- Once the vanished nodes are deleted there is nothing to turn back. -/
theorem reopened_cleared (keyed : book.pending.Keyed)
    (hkey : ∀ (k : EdgeKey) edge, g.edges[k]? = some edge → edge.key = k) :
    book.reopened ((book.draftOn g markers changes).plan.cleared g) markers changes = [] := by
  unfold reopened Draft.reopenings
  refine List.flatMap_eq_nil_iff.mpr fun id hid => ?_
  have hdel := mem_deleteNodes_of_gone keyed (book.reopened g markers changes) hid
  rw [neighbors_eq_nil, List.filterMap_nil]
  intro k edge he
  rw [Plan.cleared_edges] at he
  split at he
  · simp at he
  next hn =>
    rw [not_or, not_or] at hn
    have hk := hkey k edge he
    subst hk
    refine ⟨?_, ?_⟩
    · rintro rfl
      exact hn.2.1 hdel
    · rintro rfl
      exact hn.2.2 hdel

end Bookkeeping

/-! ## When the last step fails -/

/-- What a call leaves is the same as what another call has left: the nodes, the edges but for their
properties, and the names that wait. -/
structure SameOutcome (a b : Builder × PropertyGraph) : Prop where
  nodes : a.2.nodes = b.2.nodes
  edges : a.2.edges.keys = b.2.edges.keys
  unresolved : a.1.unresolved = b.1.unresolved

namespace Draft

section Exceeds

variable {refs : List Reference} {d full : Draft} {g g' : PropertyGraph}

/-- Where everything is covered, the queue is the same with or without the turned-back references. -/
theorem Exceeds.pending_eq (h : Exceeds refs d full) (covers : ∀ r ∈ refs, d.Covers g r) :
    full.book.pending = d.book.pending := by
  have hwaiting : full.book.pending.waiting = d.book.pending.waiting := by
    apply ExtTreeMap.ext_getElem?
    intro key
    rw [h.pending]
    cases hw : d.book.pending.waiting[key]? with
    | some r => rfl
    | none =>
      rw [Option.none_or, List.find?_eq_none]
      intro r hr hkey
      obtain ⟨hr, hres⟩ := List.mem_filter.mp hr
      have hwaits := (covers r hr).waits (by simpa using hres)
      rw [of_decide_eq_true hkey, (Maps.contains_eq_false_iff _ _).mpr hw] at hwaits
      simp at hwaits
  exact congrArg PendingQueue.mk hwaiting

theorem Exceeds.mem_deleteEdges (h : Exceeds refs d full) {k : EdgeKey}
    (hk : k ∈ full.plan.deleteEdges) : k ∈ d.plan.deleteEdges := ((h.deleteEdges k).mp hk).1

/-- Turned-back references leave their own edges and no others. -/
theorem Exceeds.leaves_iff (h : Exceeds refs d full)
    (hnodes : full.plan.deleteNodes = d.plan.deleteNodes) (k : EdgeKey) :
    full.plan.Leaves g k ↔ d.plan.Leaves g k ∨ ∃ r ∈ refs, (d.book.index.standing r).key = k := by
  have hup : full.plan.upsertEdges.contains k = true ↔ d.plan.upsertEdges.contains k = true ∨
      ∃ r ∈ refs, (d.book.index.standing r).key = k := by
    rw [ExtTreeMap.contains_eq_isSome_getElem?, h.upsertEdges, Option.isSome_or, Bool.or_eq_true,
      ← ExtTreeMap.contains_eq_isSome_getElem?, List.find?_isSome]
    simp
  unfold Plan.Leaves
  rw [hup, h.deleteEdges, hnodes]
  constructor
  · rintro ((hk | hk) | ⟨hg, hdel, hends⟩)
    · exact .inl (.inl hk)
    · exact .inr hk
    · by_cases hr : ∃ r ∈ refs, (d.book.index.standing r).key = k
      · exact .inr hr
      · refine .inl (.inr ⟨hg, fun hm => hdel ⟨hm, fun r hmem he => hr ⟨r, hmem, he⟩⟩, hends⟩)
  · rintro ((hk | ⟨hg, hdel, hends⟩) | hk)
    · exact .inl (.inl hk)
    · exact .inr ⟨hg, fun hm => hdel hm.1, hends⟩
    · exact .inl (.inr hk)

end Exceeds

end Draft

namespace Plan

/-- Two plans with the same nodes, of which one inserts fewer edges: what the other leaves can be
completed by the one. -/
theorem written_of_fewer {plan full : Plan} {g g' : PropertyGraph}
    (hup : full.upsertNodes = plan.upsertNodes) (hdel : full.deleteNodes = plan.deleteNodes)
    (hedges : ∀ (k : EdgeKey) edge, plan.upsertEdges[k]? = some edge → full.upsertEdges[k]? = some edge)
    (hw : full.written g = .ok g') : ∃ g₂, plan.written (full.cleared g) = .ok g₂ := by
  have hnodes : (plan.cleared (full.cleared g)).nodes = (full.cleared g).nodes := by
    apply ExtTreeMap.ext_getElem?
    intro id
    rw [cleared_nodes, cleared_nodes, hdel]
    split <;> rfl
  rw [written, PropertyGraph.upsert_eq] at hw
  rw [written, PropertyGraph.upsert_eq, PropertyGraph.acceptNodes_congr hnodes, ← hup]
  cases ha : (full.cleared g).acceptNodes ∅ full.upsertNodes.values with
  | error e => rw [ha] at hw; simp at hw
  | ok accepted =>
    rw [ha] at hw
    dsimp only at hw ⊢
    have hends : (full.cleared g).acceptEdges accepted full.upsertEdges.values = .ok () := by
      cases he : (full.cleared g).acceptEdges accepted full.upsertEdges.values with
      | error e => rw [he] at hw; simp at hw
      | ok u => rfl
    have hends' : (plan.cleared (full.cleared g)).acceptEdges accepted plan.upsertEdges.values = .ok () := by
      rw [PropertyGraph.acceptEdges_ok_iff] at hends ⊢
      intro edge he
      obtain ⟨k, hk⟩ := (Maps.mem_values _ _).mp he
      rw [PropertyGraph.kindOf?_congr hnodes, PropertyGraph.kindOf?_congr hnodes]
      exact hends edge ((Maps.mem_values _ _).mpr ⟨k, hedges k edge hk⟩)
    rw [hends']
    exact ⟨_, rfl⟩

end Plan

namespace Bookkeeping

theorem exceeds_draftWith (book : Bookkeeping) (markers : List String) (changes : List UnitChange)
    (opened : List Draft.Reopening) :
    Draft.Exceeds (opened.map (·.ref)) (book.draftWith markers changes [])
      (book.draftWith markers changes opened) := by
  have hnil : ∀ d : Draft, d.reopenAll [] = d := fun d => by simp [Draft.reopenAll]
  have h := Draft.exceeds ((book.added markers changes).deleteAll (book.added markers changes).goneNodes)
    opened book.pending.placeholderIds
  unfold draftWith
  dsimp only
  rw [hnil]
  exact h

end Bookkeeping

namespace Builder

variable {b b' : Builder} {g g' : PropertyGraph} {δ : Delta} {changes : List UnitChange}

theorem draftOn_cleared (keyed : b.book.pending.Keyed)
    (hkey : ∀ (k : EdgeKey) edge, g.edges[k]? = some edge → edge.key = k) :
    b.book.draftOn ((b.book.draftOn g b.markers changes).plan.cleared g) b.markers changes =
      b.book.draftWith b.markers changes [] := by
  rw [Bookkeeping.draftOn, Bookkeeping.reopened_cleared keyed hkey]

/-- If the same comes of a call on what the first two steps have left, what was to be turned back is
covered. -/
theorem covers_of_sameOutcome (keyed : b.book.pending.Keyed) {d : Draft}
    (hd : b.book.draftOn g b.markers changes = d) (hw : d.plan.written g = .ok g')
    {g₂ : PropertyGraph}
    (hw₂ : (b.book.draftWith b.markers changes []).plan.written (d.plan.cleared g) = .ok g₂)
    (same : SameOutcome ({ b with book := (b.book.draftWith b.markers changes []).book }, g₂)
      ({ b with book := d.book }, g')) :
    ∀ o ∈ b.book.reopened g b.markers changes,
      (b.book.draftWith b.markers changes []).Covers g o.ref := by
  intro o ho
  subst hd
  obtain ⟨small, hsmall⟩ : ∃ small, small = b.book.draftWith b.markers changes [] := ⟨_, rfl⟩
  have ex := b.book.exceeds_draftWith b.markers changes (b.book.reopened g b.markers changes)
  have hkeyed := Bookkeeping.keyed_draftWith keyed b.markers changes
    (b.book.reopened g b.markers changes)
  have hkeyed₂ := Bookkeeping.keyed_draftWith keyed b.markers changes []
  rw [← hsmall] at ex hkeyed₂ hw₂ same ⊢
  have hmem : o.ref ∈ (b.book.reopened g b.markers changes).map (·.ref) :=
    List.mem_map.mpr ⟨o, ho, rfl⟩
  constructor
  case edge =>
    have hplanned : (b.book.draftOn g b.markers changes).plan.Leaves g
        (small.book.index.standing o.ref).key := by
      refine .inl ?_
      rw [ExtTreeMap.contains_eq_isSome_getElem?]
      refine (congrArg Option.isSome (ex.upsertEdges _)).trans ?_
      rw [Option.isSome_or, Bool.or_eq_true]
      refine .inr (List.find?_isSome.mpr ⟨_, List.mem_map.mpr ⟨o.ref, hmem, rfl⟩, by simp⟩)
    have hthere := (Plan.contains_written hkeyed.2 hw _).mpr hplanned
    rw [← Maps.keys_eq_iff.mp same.edges] at hthere
    rcases (Plan.contains_written hkeyed₂.2 hw₂ _).mp hthere with hup | ⟨hcleared, hrest⟩
    · exact .inl hup
    · exact .inr ⟨((Plan.contains_cleared _ _ _).mp hcleared).1, hrest⟩
  case waits =>
    intro hres
    have hcounts : small.book.pending.counts =
        (b.book.draftOn g b.markers changes).book.pending.counts :=
      congrArg (List.map fun u : Unresolved => (u.placeholder, u.references)) same.unresolved
    refine PendingQueue.keys_of_counts hkeyed₂.1 hkeyed.1 (fun key hk => ?_) hcounts _ ?_
    · obtain ⟨r, hr⟩ := (Maps.contains_iff _ _).mp hk
      refine (Maps.contains_iff _ _).mpr ⟨r, (ex.pending key).trans ?_⟩
      rw [hr]
      rfl
    · rw [ExtTreeMap.contains_eq_isSome_getElem?]
      refine (congrArg Option.isSome (ex.pending _)).trans ?_
      rw [Option.isSome_or, Bool.or_eq_true]
      exact .inr (List.find?_isSome.mpr
        ⟨o.ref, List.mem_filter.mpr ⟨hmem, by rw [hres]; rfl⟩, by simp⟩)

/-- Where everything that was to be turned back is covered, the same comes of the call. -/
theorem sameOutcome_of_covers (keyed : b.book.pending.Keyed) {d : Draft}
    (hd : b.book.draftOn g b.markers changes = d) (valid : d.plan.Valid)
    (hw : d.plan.written g = .ok g')
    (covers : ∀ o ∈ b.book.reopened g b.markers changes,
      (b.book.draftWith b.markers changes []).Covers g o.ref) :
    (b.book.draftWith b.markers changes []).plan.Valid ∧
      ∃ g₂, (b.book.draftWith b.markers changes []).plan.written (d.plan.cleared g) = .ok g₂ ∧
        SameOutcome ({ b with book := (b.book.draftWith b.markers changes []).book }, g₂)
          ({ b with book := d.book }, g') := by
  subst hd
  obtain ⟨small, hsmall⟩ : ∃ small, small = b.book.draftWith b.markers changes [] := ⟨_, rfl⟩
  obtain ⟨full, hfull⟩ : ∃ full, full = b.book.draftOn g b.markers changes := ⟨_, rfl⟩
  have ex : Draft.Exceeds ((b.book.reopened g b.markers changes).map (·.ref)) small full := by
    rw [hsmall, hfull]
    exact b.book.exceeds_draftWith b.markers changes (b.book.reopened g b.markers changes)
  have hkeyed : full.Keyed := by
    rw [hfull]; exact Bookkeeping.keyed_draftWith keyed b.markers changes _
  have hkeyed₂ : small.Keyed := by
    rw [hsmall]; exact Bookkeeping.keyed_draftWith keyed b.markers changes []
  rw [← hsmall] at covers ⊢
  rw [← hfull] at valid hw ⊢
  have hcovers : ∀ r ∈ (b.book.reopened g b.markers changes).map (·.ref), small.Covers g r := by
    intro r hr
    obtain ⟨o, ho, rfl⟩ := List.mem_map.mp hr
    exact covers o ho
  have hpending := ex.pending_eq hcovers
  obtain ⟨hup, hdel⟩ := ex.nodes hpending
  obtain ⟨g₂, hw₂⟩ := Plan.written_of_fewer hup hdel (fun k edge he => by
    rw [ex.upsertEdges, he]; rfl) hw
  refine ⟨fun node hn => valid node (hup ▸ hn), g₂, hw₂, ?_, ?_, ?_⟩
  · show g₂.nodes = g'.nodes
    apply ExtTreeMap.ext_getElem?
    intro id
    rw [Plan.get_written_nodes hkeyed₂.2 hw₂, Plan.get_written_nodes hkeyed.2 hw, Plan.cleared_nodes,
      hup, hdel]
    split <;> rfl
  · show g₂.edges.keys = g'.edges.keys
    refine Maps.keys_eq_iff.mpr fun k => ?_
    have hagain : small.plan.Leaves (full.plan.cleared g) k ↔ small.plan.Leaves g k := by
      unfold Plan.Leaves
      rw [Plan.contains_cleared]
      refine or_congr_right ⟨fun h => ⟨h.1.1, h.2⟩, fun h => ⟨⟨h.1, ?_, ?_⟩, h.2⟩⟩
      · exact fun hm => h.2.1 (ex.mem_deleteEdges hm)
      · rw [hdel]; exact h.2.2
    rw [Bool.eq_iff_iff, Plan.contains_written hkeyed₂.2 hw₂, Plan.contains_written hkeyed.2 hw, hagain,
      ex.leaves_iff hdel]
    refine ⟨Or.inl, fun h => h.elim (fun h => h) ?_⟩
    rintro ⟨r, hr, rfl⟩
    exact (hcovers r hr).edge
  · show small.book.pending.placeholders = full.book.pending.placeholders
    rw [hpending]

end Builder

/-! ## When the second step fails -/

theorem PropertyGraph.deleteEdges_deleteEdges (g : PropertyGraph) (keys : List EdgeKey) :
    (g.deleteEdges keys).deleteEdges keys = g.deleteEdges keys := by
  have hedges : ((g.deleteEdges keys).deleteEdges keys).edges = (g.deleteEdges keys).edges := by
    apply ExtTreeMap.ext_getElem?
    intro k
    rw [get_deleteEdges, get_deleteEdges]
    split <;> rfl
  show (⟨g.nodes, ((g.deleteEdges keys).deleteEdges keys).edges⟩ : PropertyGraph) = _
  rw [hedges]
  rfl

theorem Plan.written_withoutEdges (plan : Plan) (g : PropertyGraph) :
    plan.written (plan.withoutEdges g) = plan.written g := by
  have hcleared : plan.cleared (plan.withoutEdges g) = plan.cleared g := by
    unfold Plan.cleared Plan.withoutEdges
    rw [PropertyGraph.deleteEdges_deleteEdges]
  rw [written, hcleared, written]

namespace Bookkeeping.Planned

variable {markers : List String} {book : Bookkeeping} {g : PropertyGraph}
  {changes : List UnitChange} {puts : List ParsedUnit}

/-- The edges that are turned back are not among those that the first step deletes. -/
theorem not_deleted_of_reopened (c : Planned markers book g changes puts) {o : Draft.Reopening}
    (h : o ∈ book.reopened g markers changes) :
    o.key ∉ (book.draftOn g markers changes).plan.deleteEdges := by
  obtain ⟨edge, r, target, kind, h⟩ := c.mem_reopened.mp h
  intro hdel
  rcases ((c.ends.deleteEdges o.key).mp hdel).1 with hdrop | hheld
  · obtain ⟨s, -, hs⟩ := List.mem_map.mp hdrop
    have hopen := s.isOpen_placeholderEdge
    have hedge : o.key = r.keyTo target kind := by
      rw [h.eq]
      show edge.key = _
      rw [h.refEdge.eq, Reference.edgeTo_key]
    rw [hs, hedge, Reference.isOpen_keyTo, c.isPlaceholder_of_gone h.gone,
      h.refEdge.own.isPlaceholder_owner c.mirrors.unreserved] at hopen
    simp at hopen
  · obtain ⟨q, hq, hheld⟩ := (c.retracts.deleteEdges o.key).mp ((c.adds.deleteEdges o.key).mp hheld).1
    obtain ⟨e, he, heq⟩ := (c.mirrors.holds q o.key).mp hheld
    rw [h.found] at he
    cases he
    rw [h.refEdge.eq, Reference.edgeTo_unit?] at heq
    exact h.unit (Option.some.inj heq ▸ hq)

theorem reopened_withoutEdges (c : Planned markers book g changes puts) :
    book.reopened ((book.draftOn g markers changes).plan.withoutEdges g) markers changes =
      book.reopened g markers changes := by
  have hneighbors := PropertyGraph.neighbors_deleteEdges ⟨c.mirrors.node_id, c.mirrors.edge_key⟩
    (book.draftOn g markers changes).plan.deleteEdges.toList
  unfold reopened Draft.reopenings
  refine List.flatMap_congr fun id hid => ?_
  rw [Plan.withoutEdges, hneighbors, List.filterMap_filter]
  refine List.filterMap_congr fun hop hhop => ?_
  split
  next => rfl
  next hkey =>
    cases ho : Draft.reopen? (.ofList (changes.map (·.path)))
      (book.added markers changes).book.index id hop with
    | none => rfl
    | some o =>
      refine absurd ?_ hkey
      have hmem : o ∈ book.reopened g markers changes :=
        List.mem_flatMap.mpr ⟨id, hid, List.mem_filterMap.mpr ⟨hop, hhop, ho⟩⟩
      have hedge : o.key = hop.edge.key := by
        obtain ⟨unit, -, hrest⟩ := Option.bind_eq_some_iff.mp ho
        split at hrest
        · simp at hrest
        · obtain ⟨r, -, rfl⟩ := Option.map_eq_some_iff.mp hrest
          rfl
      have hnot := c.not_deleted_of_reopened hmem
      rw [hedge] at hnot
      simpa using hnot

end Bookkeeping.Planned

/-! ## Every step -/

namespace Builder

variable {b b' : Builder} {g g' : PropertyGraph} {δ : Delta} {markers : List String}
  {policy : RetryPolicy} {units : ParsedUnit → Prop} {parsed : List ParsedUnit}

/-- Whether taking units in has something to do in a step of the writing. -/
structure Takes (b : Builder) (parsed : List ParsedUnit) (g : PropertyGraph) (step : WriteStep) :
    Prop where
  changes : b.changesOf parsed ≠ []
  taken : step.Taken (b.book.draftOn g b.markers (b.changesOf parsed)).plan

theorem Reached.keyed (h : Reached markers policy units b g) :
    (b.book.pending.Keyed ∧ ∀ (k : EdgeKey) edge, g.edges[k]? = some edge → edge.key = k) ∧
      b.markers = markers ∧ b.policy = policy := by
  refine Reached.induct (P := fun book g => book.pending.Keyed ∧
    ∀ (k : EdgeKey) edge, g.edges[k]? = some edge → edge.key = k)
    ⟨PendingQueue.keyed_empty, by simp⟩ ?_ h
  rintro book g g' changes ⟨keyed, hkey⟩ - - hw
  have hdraft := Bookkeeping.keyed_draftWith keyed markers changes (book.reopened g markers changes)
  exact ⟨hdraft.1, fun k edge he => Plan.edge_key_written hdraft.2 hkey hw he⟩

/-- **A failed call that is made again.** Let one step of the writing fail as often as it is tried.
Then the call fails, and the builder is the one it was. Made again on what the failure left, the call
ends as it would have ended without the failure if the step that failed is one of the first two. If it
is the last, it does so exactly if every reference that was to be turned back is covered without
being turned back. -/
theorem retry_converges_iff (h : Reached markers policy units b g)
    (hrun : b.ingest parsed g = (.ok (δ, b'), g')) {step : WriteStep} (takes : b.Takes parsed g step)
    (times : Nat) (htimes : policy.attempts ≤ times)
    (hdelete : step = .delete → Unreserved markers units ∧ ∀ p ∈ parsed, units p) :
    ∃ f', b.ingest parsed (failing g step times) =
        (.error (.unavailable s!"injected {step.call.name}"), f') ∧
      ((∃ δ₂ b₂ g₂, b.ingest parsed f'.store = (.ok (δ₂, b₂), g₂) ∧
          SameOutcome (b₂, g₂) (b', g')) ↔
        (step = .upsert → ∀ o ∈ b.book.reopened g b.markers (b.changesOf parsed),
          (b.book.draftWith b.markers (b.changesOf parsed) []).Covers g o.ref)) := by
  obtain ⟨⟨keyed, hkey⟩, hmarkers, hpolicy⟩ := h.keyed
  rw [ingest_eq_apply takes.changes] at hrun ⊢
  obtain ⟨d, hd, valid, hw, rfl, rfl⟩ := of_apply_ok hrun
  have taken := takes.taken
  rw [hd] at taken
  obtain ⟨f', hfail, hstore⟩ := apply_failing hd valid taken (hpolicy ▸ htimes)
  refine ⟨f', hfail, ?_⟩
  rw [ingest_eq_apply takes.changes, hstore]
  have again : ∀ {g₁ : PropertyGraph}, b.book.draftOn g₁ b.markers (b.changesOf parsed) = d →
      d.plan.written g₁ = d.plan.written g → (∃ δ₂ b₂ g₂, b.apply (b.changesOf parsed) g₁ =
        (.ok (δ₂, b₂), g₂) ∧ SameOutcome (b₂, g₂) ({ b with book := d.book }, g')) := by
    intro g₁ hd₁ hw₁
    exact ⟨_, _, g', apply_ok hd₁ valid (hw₁.trans hw), rfl, rfl, rfl⟩
  cases step with
  | deleteEdges => exact iff_of_true (again hd rfl) (by simp)
  | delete =>
    obtain ⟨unreserved, hunits⟩ := hdelete rfl
    obtain ⟨puts, c⟩ := (h.mirrors unreserved).planned (unreserved.changes (nodup_changesOf b parsed)
      fun p hp => hunits p (mem_of_put_mem_changesOf hp))
    refine iff_of_true (again ?_ (Plan.written_withoutEdges d.plan g)) (by simp)
    have hopened := c.reopened_withoutEdges
    rw [← hmarkers, hd] at hopened
    show b.book.draftWith _ _ (b.book.reopened (d.plan.withoutEdges g) _ _) = d
    rw [hopened]
    exact hd
  | upsert =>
    have hsmall : b.book.draftOn (d.plan.cleared g) b.markers (b.changesOf parsed) =
        b.book.draftWith b.markers (b.changesOf parsed) [] := by
      rw [← hd]
      exact draftOn_cleared keyed hkey
    constructor
    · rintro ⟨δ₂, b₂, g₂, hrun₂, same⟩ -
      obtain ⟨d₂, hd₂, -, hw₂, -, rfl⟩ := of_apply_ok hrun₂
      have hd₂' : b.book.draftWith b.markers (b.changesOf parsed) [] = d₂ := hsmall.symm.trans hd₂
      subst hd₂'
      exact covers_of_sameOutcome keyed hd hw hw₂ same
    · intro covers
      obtain ⟨valid₂, g₂, hw₂, same⟩ := sameOutcome_of_covers keyed hd valid hw (covers rfl)
      exact ⟨_, _, g₂, apply_ok hsmall valid₂ hw₂, same⟩

/-! ## A lost reference -/

/-- A unit that calls what another declares. -/
def sampleUnits : List ParsedUnit :=
  [sampleUnit "u.bsl" "f" 1 ["g"], sampleUnit "b.bsl" "g" 2 []]

/-- The other unit without the declaration. -/
def sampleChange : ParsedUnit := sampleUnit "b.bsl" "h" 3 []

def sampleStart : Builder × PropertyGraph :=
  after { markers := [] } (Builder.ingest { markers := [] } sampleUnits {})

/-- The changes, what they turn back, and the plans with and without it. -/
def sampleChanges : List UnitChange := sampleStart.1.changesOf [sampleChange]

def sampleReopened : List Draft.Reopening :=
  unsortedReopened sampleStart.1.book sampleStart.2 sampleStart.1.markers sampleChanges

def sampleDraft : Draft :=
  sampleStart.1.book.draftWith sampleStart.1.markers sampleChanges sampleReopened

def sampleAgain : Draft := sampleStart.1.book.draftWith sampleStart.1.markers sampleChanges []

theorem reached_sampleStart :
    Reached [] {} (· ∈ sampleChange :: sampleUnits) sampleStart.1 sampleStart.2 :=
  reached_firstCall (by decide +kernel) fun _ hp => List.mem_cons_of_mem _ hp

theorem sampleChanges_ne_nil : sampleStart.1.changesOf [sampleChange] ≠ [] := fun h =>
  absurd (congrArg List.isEmpty h) (by decide +kernel)

theorem reopened_sample : sampleStart.1.book.reopened sampleStart.2 sampleStart.1.markers
    sampleChanges = sampleReopened := reopened_of_pairwise (by decide +kernel)

theorem draftOn_sample : sampleStart.1.book.draftOn sampleStart.2 sampleStart.1.markers
    sampleChanges = sampleDraft := by
  rw [Bookkeeping.draftOn, reopened_sample]
  rfl

theorem passes_sample : passes sampleDraft.plan sampleStart.2 = true := by decide +kernel

theorem takes_sample (step : WriteStep) : sampleStart.1.Takes [sampleChange] sampleStart.2 step := by
  refine ⟨sampleChanges_ne_nil, ?_⟩
  change step.Taken (sampleStart.1.book.draftOn _ _ sampleChanges).plan
  rw [draftOn_sample]
  cases step <;> (unfold WriteStep.Taken; decide +kernel)

theorem ingest_sample : sampleStart.1.ingest [sampleChange] sampleStart.2 =
    (.ok (sampleDraft.plan.toDelta, { sampleStart.1 with book := sampleDraft.book }),
      laid sampleDraft sampleStart.2) := by
  rw [ingest_eq_apply sampleChanges_ne_nil]
  exact apply_of_passes reopened_sample passes_sample

/-- The change to the sample comes to the same end if the second step fails. -/
theorem retry_converges_sample :
    ∃ f', sampleStart.1.ingest [sampleChange] (failing sampleStart.2 .delete 4) =
        (.error (.unavailable "injected delete"), f') ∧
      ((∃ δ₂ b₂ g₂, sampleStart.1.ingest [sampleChange] f'.store = (.ok (δ₂, b₂), g₂) ∧
          SameOutcome (b₂, g₂)
            ({ sampleStart.1 with book := sampleDraft.book }, laid sampleDraft sampleStart.2)) ↔
        (WriteStep.delete = .upsert → ∀ o ∈ sampleStart.1.book.reopened sampleStart.2
          sampleStart.1.markers sampleChanges, sampleAgain.Covers sampleStart.2 o.ref)) := by
  have unreserved : Unreserved [] (· ∈ sampleChange :: sampleUnits) := by
    unfold Unreserved
    decide +kernel
  exact retry_converges_iff reached_sampleStart ingest_sample (takes_sample .delete) 4 (by decide)
    fun _ => ⟨unreserved, by decide⟩

/-- **The last step.** If it fails, the call that is made again loses a reference of another unit:
nothing waits for the declaration that is gone. -/
theorem retry_loses_reference : ∃ (δ δ₂ : Delta) (b' b₂ : Builder) (g' g₂ : PropertyGraph)
      (f' : Faulty PropertyGraph),
    Reached [] {} (· ∈ sampleChange :: sampleUnits) sampleStart.1 sampleStart.2 ∧
    sampleStart.1.ingest [sampleChange] sampleStart.2 = (.ok (δ, b'), g') ∧
    sampleStart.1.ingest [sampleChange] (failing sampleStart.2 .upsert 4) =
      (.error (.unavailable "injected upsert"), f') ∧
    sampleStart.1.ingest [sampleChange] f'.store = (.ok (δ₂, b₂), g₂) ∧
    b'.unresolved = [⟨⟨"unknown::g"⟩, "g", 1⟩] ∧ b₂.unresolved = [] := by
  have taken : WriteStep.upsert.Taken sampleDraft.plan := draftOn_sample ▸ (takes_sample .upsert).taken
  obtain ⟨f', hfail, hstore⟩ := apply_failing draftOn_sample (written_of_passes passes_sample).1 taken
    (Nat.le_refl 4)
  obtain ⟨⟨keyed, hkey⟩, -⟩ := reached_sampleStart.keyed
  have hreopened : sampleStart.1.book.reopened (sampleDraft.plan.cleared sampleStart.2)
      sampleStart.1.markers sampleChanges = [] :=
    draftOn_sample ▸ Bookkeeping.reopened_cleared keyed hkey
  refine ⟨sampleDraft.plan.toDelta, sampleAgain.plan.toDelta, _,
    { sampleStart.1 with book := sampleAgain.book }, _,
    laid sampleAgain (sampleDraft.plan.cleared sampleStart.2), f', reached_sampleStart, ingest_sample,
    ?_, ?_, by decide +kernel, by decide +kernel⟩
  · rw [ingest_eq_apply sampleChanges_ne_nil]
    exact hfail
  · rw [ingest_eq_apply sampleChanges_ne_nil, hstore]
    exact apply_of_passes hreopened (by decide +kernel)

end Builder

end CodeAtlas
