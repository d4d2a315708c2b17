import CodeAtlas.Proofs.Planning.Track
import CodeAtlas.Proofs.Waiting

/-!
# How long a link lasts

A link says that code implements a requirement or triggers an incident. It is made by a call of its own
and belongs to no unit, so no unit should take it away. But a unit can say the same in an annotation, and
then there is one edge for both: it becomes the unit's, and goes when the unit is changed and the
annotation is not in it any more. And a node that changes its kind is deleted and inserted anew. The
edges that references have made there are turned back and made again; a link has no unit that it could
be made again for, and goes with the node.

There is no other way to lose a link as long as its code is there, and both can be seen from outside
(`Undoes`). So a link lasts as long as no call undoes it (`link_lasts_iff`). This holds whatever ids the
units claim, those of requirements and placeholders included; what the builder and the graph know of
each other then is little, but enough (`Attested`).
-/

set_option autoImplicit false

namespace CodeAtlas

open Std

namespace Bookkeeping

variable {book : Bookkeeping} {g g' : PropertyGraph} {markers : List String}
  {changes : List UnitChange}

/-! ## The whole draft -/

/-- **Links come from fragments.** The phases after the second leave them as they are. -/
theorem sameAt_draftOn (keyed : book.pending.Keyed) (g : PropertyGraph) (markers : List String)
    (changes : List UnitChange) {k : EdgeKey} (hk : k.kind.isLink = true) :
    Draft.SameAt k (book.added markers changes) (book.draftOn g markers changes) := by
  have follows := follows_draftWith keyed markers changes (book.reopened g markers changes)
  obtain ⟨-, hup, hdel⟩ :=
    Draft.deleteAll_upserts (book.added markers changes) (book.added markers changes).goneNodes
  have deleted : Draft.SameAt k (book.added markers changes)
      ((book.added markers changes).deleteAll (book.added markers changes).goneNodes) :=
    ⟨by rw [hup], by rw [hdel], fun _ => .rfl⟩
  have opened : ∀ o ∈ book.reopened g markers changes, o.key ≠ k := by
    rintro o ho rfl
    have hlink := Draft.isLink_of_mem_reopenings ho
    rw [hk] at hlink
    cases hlink
  have resolved := deleted.trans ((Draft.SameAt.reopenAll opened _).trans (.resolveAll hk _))
  refine resolved.trans ⟨?_, ?_, fun p => ?_⟩
  · rw [draftOn, follows.upsertEdges]
  · rw [draftOn, follows.deleteEdges]
  · rw [draftOn, follows.book]

/-- What the plan of a draft has for a node, apart from what fragments say of it. -/
inductive Fate (book : Bookkeeping) (g : PropertyGraph) (markers : List String)
    (changes : List UnitChange) (id : NodeId) : Prop
  /-- It becomes a placeholder. -/
  | appears {name : String} (awaits : (book.draftOn g markers changes).book.pending.Awaits id)
      (fresh : ¬ book.pending.Awaits id)
      (deleted : id ∈ (book.draftOn g markers changes).plan.deleteNodes ↔
        id ∈ (book.added markers changes).goneNodes)
      (planned : (book.draftOn g markers changes).plan.upsertNodes[id]? = some (.placeholder name))
  /-- It was a placeholder. -/
  | disappears (deleted : id ∈ (book.draftOn g markers changes).plan.deleteNodes)
      (planned : (book.draftOn g markers changes).plan.upsertNodes[id]? = none)
  | remains (same : (book.draftOn g markers changes).book.pending.Awaits id ↔ book.pending.Awaits id)
      (deleted : id ∈ (book.draftOn g markers changes).plan.deleteNodes ↔
        id ∈ (book.added markers changes).goneNodes)
      (planned : (book.draftOn g markers changes).plan.upsertNodes[id]? =
        (book.added markers changes).plan.upsertNodes[id]?)

theorem fate (keyed : book.pending.Keyed)
    (hnone : (book.added markers changes).plan.deleteNodes = ∅) (g : PropertyGraph) (id : NodeId) :
    Fate book g markers changes id := by
  have follows := follows_draftWith keyed markers changes (book.reopened g markers changes)
  have hbefore := PendingQueue.mem_placeholderIds book.pending id
  have hdel : id ∈ (book.draftOn g markers changes).plan.deleteNodes ↔
      id ∈ (book.added markers changes).goneNodes ∨ (book.pending.Awaits id ∧
        ¬ (book.draftOn g markers changes).book.pending.Awaits id) := by
    rw [draftOn, follows.deleteNodes, (Draft.resolveAll_nodes _).2, hbefore, follows.book]
    refine or_congr_left ((Draft.mem_deleteNodes_deleteAll _ _ id).trans (or_iff_right ?_))
    simp [hnone]
  have hothers : ((book.draftOn g markers changes).book.pending.Awaits id ↔ book.pending.Awaits id) →
      (book.draftOn g markers changes).plan.upsertNodes[id]? =
        (book.added markers changes).plan.upsertNodes[id]? := by
    intro hsame
    rw [draftOn, follows.book, ← hbefore] at hsame
    rw [draftOn, follows.others id hsame, (Draft.resolveAll_nodes _).1]
    exact congrArg (·[id]?) (Draft.deleteAll_upserts _ _).1
  by_cases hb : book.pending.Awaits id <;>
    by_cases ha : (book.draftOn g markers changes).book.pending.Awaits id
  · have hsame := iff_of_true ha hb
    exact .remains hsame (hdel.trans (or_iff_left fun h => h.2 ha)) (hothers hsame)
  · refine .disappears (hdel.mpr (.inr ⟨hb, ha⟩)) ?_
    rw [draftOn, follows.book] at ha
    exact follows.disappear id (hbefore.mpr hb) ha
  · have hlate := ha
    rw [draftOn, follows.book] at hlate
    obtain ⟨name, -, hname⟩ := follows.appear id hlate fun hm => hb (hbefore.mp hm)
    exact .appears ha hb (hdel.trans (or_iff_left fun h => hb h.1)) hname
  · have hsame := iff_of_false ha hb
    exact .remains hsame (hdel.trans (or_iff_left fun h => hb h.1)) (hothers hsame)

end Bookkeeping

/-- A node that vanishes, or is planned again as something else, belonged to a unit that changes. -/
theorem Draft.Tracks.of_gone {book : Bookkeeping} {paths : List String} {d : Draft}
    (h : d.Tracks book paths) (assigned : book.Assigned) {id : NodeId} (hid : id ∈ d.goneNodes) :
    (∃ p ∈ paths, book.Owns p id) ∧ ∃ kind, book.index.kind? id = some kind ∧
      kind.isOwned = true ∧ ∀ node, d.plan.upsertNodes[id]? = some node → node.kind ≠ kind := by
  rcases Bookkeeping.Planned.mem_goneNodes.mp hid with ⟨kind, hr⟩ | hr
  · obtain ⟨hk, ⟨p, hp, howns⟩, hplan⟩ := h.retracted id kind hr
    obtain ⟨kind', hk', howned⟩ := assigned.kind p id howns
    cases hk.symm.trans hk'
    refine ⟨⟨p, hp, howns⟩, kind, hk, howned, fun node hn he => ?_⟩
    rw [← he, hplan node hn] at howned
    cases howned
  · obtain ⟨⟨p, hp, howns⟩, -, -, hplan⟩ := h.rekinded id hr
    obtain ⟨kind, hk, howned⟩ := assigned.kind p id howns
    exact ⟨⟨p, hp, howns⟩, kind, hk, howned, fun node hn => hplan kind node hk hn⟩

namespace Bookkeeping

/-! ## What builder and graph know of each other -/

/-- What holds of any builder and its graph, whatever ids the units have claimed. -/
structure Attested (book : Bookkeeping) (g : PropertyGraph) : Prop where
  tidy : book.Tidy g
  closed : g.Closed
  assigned : book.Assigned
  /-- A node has the kind under which it is known, unless it is a placeholder as well. -/
  kinds : ∀ (id : NodeId) kind node, book.index.kind? id = some kind → g.nodes[id]? = some node →
    node.kind = kind ∨ node.kind = .unknown
  unknowns : ∀ (id : NodeId) node, g.nodes[id]? = some node → node.kind = .unknown →
    book.pending.Awaits id

theorem attested_empty : Attested {} {} where
  tidy := tidy_empty _
  closed := PropertyGraph.closed_empty
  assigned := assigned_empty
  kinds id kind node hk := by simp [NameIndex.kind?] at hk
  unknowns id node hn := by simp at hn

namespace Attested

variable {book : Bookkeeping} {g g' : PropertyGraph} {markers : List String}
  {changes : List UnitChange}

theorem keyed_plan (h : book.Attested g) (markers : List String) (changes : List UnitChange) :
    (book.draftOn g markers changes).plan.Keyed :=
  (keyed_draftWith h.tidy.keyed markers changes _).2

theorem assigned_draftOn (h : book.Attested g) (hnodup : (changes.map (·.path)).Nodup) :
    (book.draftOn g markers changes).book.Assigned := by
  have tracks := tracks_added h.assigned markers hnodup
  have same := sameNodes_draftOn book g markers changes
  constructor
  case owner =>
    intro p id ho
    rw [same.nodeUnit]
    exact tracks.assigned.owner p id ((same.owns p id).mp ho)
  case kind =>
    intro p id ho
    rw [same.index]
    exact tracks.assigned.kind p id ((same.owns p id).mp ho)
  case code =>
    intro p k hk hh
    rw [same.nodeUnit]
    exact tracks.assigned.code p k hk
      (((sameAt_draftOn h.tidy.keyed g markers changes hk).holds p).mp hh)

theorem written (h : book.Attested g) (hnodup : (changes.map (·.path)).Nodup)
    (hw : (book.draftOn g markers changes).plan.written g = .ok g') :
    (book.draftOn g markers changes).book.Attested g' := by
  have tracks := tracks_added h.assigned markers hnodup
  have keyed := h.keyed_plan markers changes
  have hnodes := Plan.get_written_nodes keyed hw
  constructor
  case tidy => exact h.tidy.written hw
  case closed => exact Plan.closed_written h.closed hw
  case assigned => exact h.assigned_draftOn hnodup
  case kinds =>
    intro id kind node hk hn
    rw [(sameNodes_draftOn book g markers changes).index] at hk
    rw [hnodes id] at hn
    cases fate h.tidy.keyed tracks.deleteNodes g id with
    | appears awaits fresh deleted planned =>
      rw [planned, Option.some_or] at hn
      cases hn
      exact .inr rfl
    | disappears deleted planned =>
      rw [planned, if_pos deleted] at hn
      cases hn
    | remains same deleted planned =>
      rw [planned] at hn
      rcases tracks.kinds id kind hk with ⟨m, hm, rfl⟩ | ⟨hnone, hold⟩
      · rw [hm, Option.some_or] at hn
        cases hn
        exact .inl rfl
      · rw [hnone, Option.none_or] at hn
        split at hn
        · cases hn
        · exact h.kinds id kind node hold hn
  case unknowns =>
    intro id node hn hk
    rw [hnodes id] at hn
    cases fate h.tidy.keyed tracks.deleteNodes g id with
    | appears awaits fresh deleted planned => exact awaits
    | disappears deleted planned =>
      rw [planned, if_pos deleted] at hn
      cases hn
    | remains same deleted planned =>
      rw [planned] at hn
      rcases Option.or_eq_some_iff.mp hn with hm | ⟨-, hold⟩
      · exact absurd hk (tracks.real id node hm)
      · split at hold
        · cases hold
        · exact same.mpr (h.unknowns id node hold hk)

/-- A node that is deleted and is there in the end belonged to a unit that changes, and has another
kind now. -/
theorem of_deleted (h : book.Attested g) (hnodup : (changes.map (·.path)).Nodup)
    (hw : (book.draftOn g markers changes).plan.written g = .ok g') {id : NodeId}
    (hdel : id ∈ (book.draftOn g markers changes).plan.deleteNodes) {new : Node}
    (hnew : g'.nodes[id]? = some new) : (∃ p ∈ changes.map (·.path), book.Owns p id) ∧
      ∀ old, g.nodes[id]? = some old → old.kind ≠ new.kind := by
  have tracks := tracks_added h.assigned markers hnodup
  have keyed := h.keyed_plan markers changes
  rw [Plan.get_written_nodes keyed hw, if_pos hdel, Option.or_none] at hnew
  cases fate h.tidy.keyed tracks.deleteNodes g id with
  | appears awaits fresh deleted planned =>
    rw [planned] at hnew
    cases hnew
    refine ⟨(tracks.of_gone h.assigned (deleted.mp hdel)).1, fun old hold hk => ?_⟩
    exact fresh (h.unknowns id old hold hk)
  | disappears deleted planned =>
    rw [planned] at hnew
    cases hnew
  | remains same deleted planned =>
    rw [planned] at hnew
    obtain ⟨hchanged, kind, hk, -, hne⟩ := tracks.of_gone h.assigned (deleted.mp hdel)
    refine ⟨hchanged, fun old hold he => ?_⟩
    rcases h.kinds id kind old hk hold with hkind | hkind
    · exact hne new hnew (he.symm.trans hkind)
    · exact tracks.real id new hnew (he.symm.trans hkind)

/-- A node that is no unit's is not deleted, placeholders aside. -/
theorem not_deleted (h : book.Attested g) (markers : List String)
    (hnodup : (changes.map (·.path)).Nodup) {id : NodeId} (hid : id.isPlaceholder = false)
    {node : Node} (hn : g.nodes[id]? = some node) (hk : node.kind.isOwned = false) :
    id ∉ (book.draftOn g markers changes).plan.deleteNodes := by
  have tracks := tracks_added h.assigned markers hnodup
  rw [draftOn, (nodes_draftWith h.tidy.keyed (book.reopened g markers changes) hid).2,
    tracks.deleteNodes]
  rintro (hdel | hgone)
  · simp at hdel
  · obtain ⟨-, kind, hkind, howned, -⟩ := tracks.of_gone h.assigned hgone
    have hknown := h.tidy.truthful.kinds id kind hid hkind
    rw [hn, Option.map_some, Option.some.injEq] at hknown
    rw [← hknown, hk] at howned
    cases howned

end Attested

end Bookkeeping

namespace PropertyGraph

variable {g g' : PropertyGraph} {node : Node} {edge : Edge}

theorem contains_inserted_edge (g : PropertyGraph) (node : Node) (edge : Edge) (k : EdgeKey) :
    (g.inserted [node] [edge]).edges.contains k = true ↔ edge.key = k ∨ g.edges.contains k = true := by
  simp [inserted, ExtTreeMap.contains_insert]

/-- A node that is there stays, and keeps its kind. -/
theorem kind_upsert (h : g.upsert [node] [edge] = .ok g') {id : NodeId} {old : Node}
    (hold : g.nodes[id]? = some old) : ∃ new, g'.nodes[id]? = some new ∧ new.kind = old.kind := by
  obtain ⟨rfl, hkinds, -⟩ := of_upsert h
  rw [get_inserted_node]
  split
  next hid =>
    subst hid
    exact ⟨node, rfl, (hkinds node (List.mem_singleton_self node) old hold).symm⟩
  next => exact ⟨old, hold, rfl⟩

/-- The code of a link is there. -/
theorem Closed.code_of_contains (h : g.Closed) {k : EdgeKey} (hk : g.edges.contains k = true) :
    g.nodes.contains k.code = true :=
  ((k.forall_ends (g.nodes.contains · = true)).mp (h k hk)).2

/-- Whether the requirement or the incident of a link is there, under an id that no placeholder has. -/
structure Anchored (g : PropertyGraph) (k : EdgeKey) : Prop where
  link : k.kind.isLink = true
  named : k.anchor.isPlaceholder = false
  there : ∃ node, g.nodes[k.anchor]? = some node ∧ node.kind.isOwned = false

end PropertyGraph

namespace Builder

/-! ## What undoes a link -/

/-- A call after which a link is not there any more. -/
inductive Undoes (k : EdgeKey) (s s' : Builder × PropertyGraph) : Prop
  /-- The code is gone. -/
  | removed (gone : s'.2.nodes.contains k.code = false)
  /-- A unit has named the link, and none does any more. -/
  | unnamed {p : String} (was : s.1.book.Holds p k) (now : ∀ q, ¬ s'.1.book.Holds q k)
  /-- The code has changed its kind, and no unit names the link. -/
  | rekinded {old new : Node} (hold : s.2.nodes[k.code]? = some old)
      (hnew : s'.2.nodes[k.code]? = some new) (hne : old.kind ≠ new.kind)
      (now : ∀ q, ¬ s'.1.book.Holds q k)

end Builder

namespace Bookkeeping.Attested

variable {book : Bookkeeping} {g g' : PropertyGraph} {markers : List String}
  {changes : List UnitChange} {k : EdgeKey}

theorem link {node : Node} {edge : Edge} (h : book.Attested g)
    (hk : node.kind = .requirement ∨ node.kind = .incident) (hid : node.id.isPlaceholder = false)
    (hup : g.upsert [node] [edge] = .ok g') :
    Attested { book with index := book.index.add node } g' := by
  have real : node.kind ≠ .unknown := by rcases hk with hk | hk <;> simp [hk]
  have hkinds : ∀ id, (book.index.add node).kind? id = _ := NameIndex.kind?_add real
  obtain ⟨rfl, haccepted, -⟩ := PropertyGraph.of_upsert hup
  constructor
  case tidy => exact h.tidy.link hk hid hup
  case closed => exact h.closed.upsert hup
  case assigned =>
    refine ⟨h.assigned.owner, fun p id ho => ?_, h.assigned.code⟩
    obtain ⟨kind, hkind, howned⟩ := h.assigned.kind p id ho
    refine ⟨kind, (hkinds id).trans ((if_neg ?_).trans hkind), howned⟩
    -- A node of a unit is in the graph under its kind, and would not have been accepted.
    rintro rfl
    obtain ⟨old, hold, rfl⟩ := Option.map_eq_some_iff.mp
      (h.tidy.truthful.kinds node.id kind hid hkind)
    rw [haccepted node (List.mem_singleton_self node) old hold] at howned
    rcases hk with hk | hk <;> rw [hk] at howned <;> cases howned
  case kinds =>
    intro id kind m hkind hm
    change (book.index.add node).kind? id = some kind at hkind
    rw [hkinds] at hkind
    rw [PropertyGraph.get_inserted_node] at hm
    split at hm
    next he =>
      rw [if_pos he] at hkind
      cases hm
      exact .inl (Option.some.inj hkind)
    next he =>
      rw [if_neg he] at hkind
      exact h.kinds id kind m hkind hm
  case unknowns =>
    intro id m hm hunknown
    rw [PropertyGraph.get_inserted_node] at hm
    split at hm
    · cases hm
      exact absurd hunknown real
    · exact h.unknowns id m hm hunknown

theorem anchored_written (h : book.Attested g) (hnodup : (changes.map (·.path)).Nodup)
    (hw : (book.draftOn g markers changes).plan.written g = .ok g') (ha : g.Anchored k) :
    g'.Anchored k := by
  obtain ⟨node, hn, hk⟩ := ha.there
  have hkept := h.not_deleted markers hnodup ha.named hn hk
  have keyed := h.keyed_plan markers changes
  obtain ⟨new, hnew⟩ : ∃ new, g'.nodes[k.anchor]? = some new := by
    rw [Plan.get_written_nodes keyed hw, if_neg hkept, hn]
    cases (book.draftOn g markers changes).plan.upsertNodes[k.anchor]? with
    | none => exact ⟨node, rfl⟩
    | some planned => exact ⟨planned, rfl⟩
  refine ⟨ha.link, ha.named, new, hnew, ?_⟩
  rw [← Plan.kind_written keyed hw hkept hn hnew]
  exact hk

/-- What the plan of a call does to a link depends on which of the changed units name it. -/
structure LinkPlanned (book : Bookkeeping) (paths : List String) (k : EdgeKey) (d : Draft) : Prop where
  put : d.plan.upsertEdges.contains k = true ↔ ∃ p ∈ paths, d.book.Holds p k
  drop : k ∈ d.plan.deleteEdges ↔
    (∃ p ∈ paths, book.Holds p k) ∧ d.plan.upsertEdges.contains k = false
  others : ∀ p ∉ paths, d.book.Holds p k ↔ book.Holds p k

theorem linkPlanned (h : book.Attested g) (markers : List String)
    (hnodup : (changes.map (·.path)).Nodup) (hk : k.kind.isLink = true) :
    LinkPlanned book (changes.map (·.path)) k (book.draftOn g markers changes) := by
  have tracks := tracks_added h.assigned markers hnodup
  have same := sameAt_draftOn h.tidy.keyed g markers changes hk
  constructor
  · simp only [same.upsertEdges, same.holds, tracks.put]
  · rw [same.deleteEdges, same.upsertEdges, tracks.drop]
  · intro p hp
    rw [same.holds, tracks.others p hp]

/-- A link is there after a call if it has been put, or if it was there and neither it nor its code has
been deleted. Its other end never is. -/
theorem contains_link_iff (h : book.Attested g) (hnodup : (changes.map (·.path)).Nodup)
    (hw : (book.draftOn g markers changes).plan.written g = .ok g') (ha : g.Anchored k)
    (hthere : g.edges.contains k = true) :
    g'.edges.contains k = true ↔
      (book.draftOn g markers changes).plan.upsertEdges.contains k = true ∨
        (k ∉ (book.draftOn g markers changes).plan.deleteEdges ∧
          k.code ∉ (book.draftOn g markers changes).plan.deleteNodes) := by
  obtain ⟨node, hn, hkind⟩ := ha.there
  have hanchor := h.not_deleted markers hnodup ha.named hn hkind
  rw [Plan.contains_written (h.keyed_plan markers changes) hw, Plan.Leaves, and_iff_right hthere,
    k.forall_ends (· ∉ (book.draftOn g markers changes).plan.deleteNodes), and_iff_right hanchor]

/-- If a unit names a link after a call, the link is there. -/
theorem contains_of_holds (h : book.Attested g) (hnodup : (changes.map (·.path)).Nodup)
    (hw : (book.draftOn g markers changes).plan.written g = .ok g') (ha : g.Anchored k)
    (hthere : g.edges.contains k = true) {new : Node} (hnew : g'.nodes[k.code]? = some new)
    {q : String} (hq : (book.draftOn g markers changes).book.Holds q k) :
    g'.edges.contains k = true := by
  have planned := h.linkPlanned markers hnodup ha.link
  rw [h.contains_link_iff hnodup hw ha hthere]
  by_cases hpath : q ∈ changes.map (·.path)
  · exact .inl (planned.put.mpr ⟨q, hpath, hq⟩)
  · -- The code belongs to a unit that does not change, so that it is neither deleted nor dropped.
    have hunit := h.assigned.code q k ha.link ((planned.others q hpath).mp hq)
    refine .inr ⟨fun hdrop => ?_, fun hdel => ?_⟩
    · obtain ⟨⟨p, hp, hold⟩, -⟩ := planned.drop.mp hdrop
      cases hunit.symm.trans (h.assigned.code p k ha.link hold)
      exact hpath hp
    · obtain ⟨⟨p, hp, howns⟩, -⟩ := h.of_deleted hnodup hw hdel hnew
      cases hunit.symm.trans (h.assigned.owner p _ howns)
      exact hpath hp

/-- **One call on units.** A link that was there is there afterwards unless the call undoes it. -/
theorem contains_written_iff {b b' : Builder} (h : b.book.Attested g)
    (hnodup : (changes.map (·.path)).Nodup)
    (hw : (b.book.draftOn g markers changes).plan.written g = .ok g')
    (hb : b'.book = (b.book.draftOn g markers changes).book) (ha : g.Anchored k)
    (hthere : g.edges.contains k = true) :
    g'.edges.contains k = true ↔ ¬ Builder.Undoes k (b, g) (b', g') := by
  have planned := h.linkPlanned markers hnodup ha.link
  have hleft := h.contains_link_iff hnodup hw ha hthere
  constructor
  · intro hstays hundoes
    -- Without a unit that names it the link has not been put again, so it has been kept.
    have hkept : (∀ q, ¬ b'.book.Holds q k) →
        (b.book.draftOn g markers changes).plan.upsertEdges.contains k = false ∧
          k ∉ (b.book.draftOn g markers changes).plan.deleteEdges ∧
          k.code ∉ (b.book.draftOn g markers changes).plan.deleteNodes := by
      intro now
      have hput : ¬ (b.book.draftOn g markers changes).plan.upsertEdges.contains k = true := by
        rw [planned.put, ← hb]
        exact fun ⟨q, _, hq⟩ => now q hq
      exact ⟨Bool.eq_false_iff.mpr hput, (hleft.mp hstays).resolve_left hput⟩
    cases hundoes with
    | removed gone =>
      have hcode := (Plan.closed_written h.closed hw).code_of_contains hstays
      exact absurd (hcode.symm.trans gone) (by simp)
    | @unnamed p was now =>
      obtain ⟨hput, hdrop, -⟩ := hkept now
      refine hdrop (planned.drop.mpr ⟨⟨p, ?_, was⟩, hput⟩)
      by_contra hp
      exact now p (by rw [hb]; exact (planned.others p hp).mpr was)
    | rekinded hold hnew hne now =>
      exact hne (Plan.kind_written (h.keyed_plan markers changes) hw (hkept now).2.2 hold hnew)
  · intro hnot
    by_contra hlost
    obtain ⟨new, hnew⟩ : ∃ new, g'.nodes[k.code]? = some new := by
      rw [← Maps.contains_iff]
      by_contra hgone
      exact hnot (.removed (Bool.eq_false_iff.mpr hgone))
    have now : ∀ q, ¬ b'.book.Holds q k := by
      intro q hq
      rw [hb] at hq
      exact hlost (h.contains_of_holds hnodup hw ha hthere hnew hq)
    refine hlost (hleft.mpr (.inr ⟨fun hdrop => ?_, fun hdel => ?_⟩))
    · obtain ⟨⟨p, -, was⟩, -⟩ := planned.drop.mp hdrop
      exact hnot (.unnamed was now)
    · obtain ⟨old, hold⟩ := (Maps.contains_iff _ _).mp (h.closed.code_of_contains hthere)
      exact hnot (.rekinded hold hnew ((h.of_deleted hnodup hw hdel hnew).2 old hold) now)

end Bookkeeping.Attested

namespace Builder

variable {b : Builder} {g : PropertyGraph} {markers : List String} {policy : RetryPolicy}
  {k : EdgeKey} {s s' : Builder × PropertyGraph}

/-! ## Links along a history -/

theorem Step.attested (step : Step s s') (h : s.1.book.Attested s.2) : s'.1.book.Attested s'.2 := by
  cases step with
  | @request b b' g g' δ call hrun =>
    rcases b.request_cases PropertyGraph call with hnone | ⟨changes, hnodup, -, hsome⟩
    · rw [hnone] at hrun
      cases hrun
      exact h
    · rw [hsome] at hrun
      obtain ⟨d, rfl, -, hw, -, rfl⟩ := of_apply_ok hrun
      exact h.written hnodup hw
  | @requirement b b' g g' δ key code hrun =>
    obtain ⟨hup, hbook⟩ := of_link_ok hrun
    show b'.book.Attested g'
    rw [hbook]
    exact h.link (.inl rfl) (NodeId.isPlaceholder_requirement key) hup
  | @incident b b' g g' δ key code hrun =>
    obtain ⟨hup, hbook⟩ := of_link_ok hrun
    show b'.book.Attested g'
    rw [hbook]
    exact h.link (.inr rfl) (NodeId.isPlaceholder_incident key) hup

theorem Visited.attested (h : Visited markers policy b g) : b.book.Attested g := by
  induction h with
  | start => exact Bookkeeping.attested_empty
  | request _ hrun ih => exact Step.attested (.request hrun) ih
  | requirement _ hrun ih => exact Step.attested (.requirement hrun) ih
  | incident _ hrun ih => exact Step.attested (.incident hrun) ih

/-- A call that leaves the units as they are, and the kind of the code, undoes nothing. -/
theorem not_undoes (hunits : s'.1.book.units = s.1.book.units) (hcode : s.2.nodes.contains k.code = true)
    (hkind : ∀ old, s.2.nodes[k.code]? = some old →
      ∃ new, s'.2.nodes[k.code]? = some new ∧ new.kind = old.kind) : ¬ Undoes k s s' := by
  obtain ⟨old, hold⟩ := (Maps.contains_iff _ _).mp hcode
  obtain ⟨new, hnew, hsame⟩ := hkind old hold
  intro hundoes
  cases hundoes with
  | removed gone =>
    rw [(Maps.contains_eq_false_iff _ _).mp gone] at hnew
    cases hnew
  | @unnamed p was now => exact now p ((Bookkeeping.holds_congr (by rw [hunits]) k).mpr was)
  | rekinded hold' hnew' hne _ =>
    cases hold.symm.trans hold'
    cases hnew.symm.trans hnew'
    exact hne hsame.symm

/-- A link that is made keeps those that are there. -/
theorem contains_of_upsert {node : Node} {edge : Edge} (h : s.1.book.Attested s.2)
    (ha : s.2.Anchored k) (hthere : s.2.edges.contains k = true)
    (hup : s.2.upsert [node] [edge] = .ok s'.2)
    (hbook : s'.1.book = { s.1.book with index := s.1.book.index.add node }) :
    s'.2.Anchored k ∧ (s'.2.edges.contains k = true ↔ ¬ Undoes k s s') := by
  obtain ⟨anchor, hn, hk⟩ := ha.there
  obtain ⟨new, hnew, hsame⟩ := PropertyGraph.kind_upsert hup hn
  refine ⟨⟨ha.link, ha.named, new, hnew, by rw [hsame]; exact hk⟩, iff_of_true ?_ ?_⟩
  · rw [(PropertyGraph.of_upsert hup).1, PropertyGraph.contains_inserted_edge]
    exact .inr hthere
  · exact not_undoes (by rw [hbook]) (h.closed.code_of_contains hthere) fun old hold =>
      PropertyGraph.kind_upsert hup hold

/-- **One call.** A link that was there is there afterwards unless the call undoes it. -/
theorem Step.contains_iff (step : Step s s') (h : s.1.book.Attested s.2) (ha : s.2.Anchored k)
    (hthere : s.2.edges.contains k = true) :
    s'.2.Anchored k ∧ (s'.2.edges.contains k = true ↔ ¬ Undoes k s s') := by
  cases step with
  | @request b b' g g' δ call hrun =>
    rcases b.request_cases PropertyGraph call with hnone | ⟨changes, hnodup, -, hsome⟩
    · rw [hnone] at hrun
      cases hrun
      exact ⟨ha, iff_of_true hthere (not_undoes rfl (h.closed.code_of_contains hthere) fun old hold =>
        ⟨old, hold, rfl⟩)⟩
    · rw [hsome] at hrun
      obtain ⟨d, rfl, -, hw, -, rfl⟩ := of_apply_ok hrun
      exact ⟨h.anchored_written hnodup hw ha, h.contains_written_iff hnodup hw rfl ha hthere⟩
  | requirement hrun =>
    obtain ⟨hup, hbook⟩ := of_link_ok hrun
    exact contains_of_upsert h ha hthere hup hbook
  | incident hrun =>
    obtain ⟨hup, hbook⟩ := of_link_ok hrun
    exact contains_of_upsert h ha hthere hup hbook

/-- A call that makes a link. -/
inductive Links : Builder × PropertyGraph → EdgeKey → Builder × PropertyGraph → Prop
  | requirement {b b' : Builder} {g g' : PropertyGraph} {δ : Delta} {key : String} {code : NodeId}
      (hrun : b.linkRequirement key code g = (.ok (δ, b'), g')) :
      Links (b, g) ⟨.requirement key, code, .implements⟩ (b', g')
  | incident {b b' : Builder} {g g' : PropertyGraph} {δ : Delta} {key : String} {code : NodeId}
      (hrun : b.linkIncident key code g = (.ok (δ, b'), g')) :
      Links (b, g) ⟨code, .incident key, .triggersIncident⟩ (b', g')

theorem Links.step (h : Links s k s') : Step s s' := by
  cases h with
  | requirement hrun => exact .requirement hrun
  | incident hrun => exact .incident hrun

/-- The link is there, and so is what it leads to. -/
theorem Links.made (h : Links s k s') : s'.2.Anchored k ∧ s'.2.edges.contains k = true := by
  cases h with
  | requirement hrun =>
    obtain ⟨hup, -⟩ := of_link_ok hrun
    obtain ⟨rfl, -⟩ := PropertyGraph.of_upsert hup
    refine ⟨⟨rfl, NodeId.isPlaceholder_requirement _, _,
      (PropertyGraph.get_inserted_node _ _ _ _).trans (if_pos rfl), rfl⟩, ?_⟩
    exact (PropertyGraph.contains_inserted_edge _ _ _ _).mpr (.inl rfl)
  | incident hrun =>
    obtain ⟨hup, -⟩ := of_link_ok hrun
    obtain ⟨rfl, -⟩ := PropertyGraph.of_upsert hup
    refine ⟨⟨rfl, NodeId.isPlaceholder_incident _, _,
      (PropertyGraph.get_inserted_node _ _ _ _).trans (if_pos rfl), rfl⟩, ?_⟩
    exact (PropertyGraph.contains_inserted_edge _ _ _ _).mpr (.inl rfl)

/-- One call after another. -/
theorem contains_along {run : List (Builder × PropertyGraph)} (h : s.1.book.Attested s.2)
    (ha : s.2.Anchored k) (hthere : s.2.edges.contains k = true)
    (hrun : List.IsChain Step (s :: run)) :
    (∀ t ∈ run, t.2.edges.contains k = true) ↔
      List.IsChain (fun t t' => ¬ Undoes k t t') (s :: run) := by
  induction run generalizing s with
  | nil => exact iff_of_true (by simp) (.singleton s)
  | cons t rest ih =>
    obtain ⟨step, hrest⟩ := List.isChain_cons_cons.mp hrun
    obtain ⟨hanchored, hiff⟩ := step.contains_iff h ha hthere
    rw [List.forall_mem_cons, List.isChain_cons_cons, hiff]
    exact and_congr_right fun hnot => ih (step.attested h) hanchored (hiff.mpr hnot) hrest

/-- **How long a link lasts.** After any successful calls, whatever the units claim, a link is made;
more successful calls follow. The link is there after each of them exactly if none undoes it: the code
stays, a unit that names the link does not stop to do so, and where the code changes its kind there is a
unit that names the link afterwards. -/
theorem link_lasts_iff (h : Visited markers policy b g) (hlink : Links (b, g) k s)
    {run : List (Builder × PropertyGraph)} (hrun : List.IsChain Step (s :: run)) :
    (∀ t ∈ s :: run, t.2.edges.contains k = true) ↔
      List.IsChain (fun t t' => ¬ Undoes k t t') (s :: run) := by
  obtain ⟨hanchored, hmade⟩ := hlink.made
  rw [List.forall_mem_cons, and_iff_right hmade]
  exact contains_along (hlink.step.attested h.attested) hanchored hmade hrun

/-! ## Two links that are lost -/

/-- A unit with one declaration that may name requirements. -/
def sampleCode (hash : UInt64) (kind : DeclKind) (requirements : List String) : ParsedUnit where
  unit := ⟨"a.bsl", .sourceModule, ⟨hash⟩⟩
  outline := { declarations := [{ name := "f", kind, firstLine := 1, lastLine := 3, requirements }] }

/-- The link from a requirement to the declaration. -/
def sampleLink : EdgeKey := ⟨.requirement "R", ⟨"a::f"⟩, .implements⟩

/-- The builder and the graph after the unit has come, and after the link has been made. -/
def sampleUnlinked : Builder × PropertyGraph := firstCall [] [sampleCode 1 .procedure []]

def sampleLinkMade : Builder × PropertyGraph :=
  sampleUnlinked.1.after (sampleUnlinked.1.linkRequirement "R" ⟨"a::f"⟩ sampleUnlinked.2)

theorem visited_sampleUnlinked : Visited [] {} sampleUnlinked.1 sampleUnlinked.2 :=
  visited_firstCall (by decide +kernel)

theorem links_sampleLinkMade : Links sampleUnlinked sampleLink sampleLinkMade := by
  have hok : (sampleUnlinked.1.linkRequirement "R" ⟨"a::f"⟩ sampleUnlinked.2).1.isOk = true := by
    decide +kernel
  obtain ⟨δ, hrun⟩ := after_of_isOk (b := sampleUnlinked.1) hok
  exact .requirement hrun

/-- The builder and the graph after a unit has come again. -/
def ingested (s : Builder × PropertyGraph) (p : ParsedUnit) : Builder × PropertyGraph :=
  s.1.after (s.1.ingest [p] s.2)

theorem step_ingested {p : ParsedUnit} (h : (s.1.ingest [p] s.2).1.isOk = true) :
    Step s (ingested s p) := by
  obtain ⟨δ, hrun⟩ := after_of_isOk (b := s.1) h
  have hrequest : s.1.request (.ingest [p]) s.2 = _ := hrun
  exact .request hrequest

/-- The unit names the requirement, and then does not any more. -/
def sampleNamed : Builder × PropertyGraph := ingested sampleLinkMade (sampleCode 2 .procedure ["R"])

def sampleUnnamed : Builder × PropertyGraph := ingested sampleNamed (sampleCode 3 .procedure [])

theorem step_sampleNamed : Step sampleLinkMade sampleNamed := step_ingested (by decide +kernel)

/-- After the first of the two calls the link is still there, so the call has not undone it. -/
theorem link_lasts_iff_sample :
    List.IsChain Step [sampleLinkMade, sampleNamed] ∧
    (∀ t ∈ [sampleLinkMade, sampleNamed], t.2.edges.contains sampleLink = true) ∧
    List.IsChain (fun t t' => ¬ Undoes sampleLink t t') [sampleLinkMade, sampleNamed] := by
  have hrun : List.IsChain Step [sampleLinkMade, sampleNamed] :=
    List.isChain_cons_cons.mpr ⟨step_sampleNamed, .singleton _⟩
  have hthere : ∀ t ∈ [sampleLinkMade, sampleNamed], t.2.edges.contains sampleLink = true := by
    decide +kernel
  exact ⟨hrun, hthere, (link_lasts_iff visited_sampleUnlinked links_sampleLinkMade hrun).mp hthere⟩

/-- The plan that makes a function of the procedure. -/
def sampleRecast : Draft :=
  sampleLinkMade.1.book.draftWith sampleLinkMade.1.markers [.put (sampleCode 2 .function [])]
    (unsortedReopened sampleLinkMade.1.book sampleLinkMade.2 sampleLinkMade.1.markers
      [.put (sampleCode 2 .function [])])

theorem ingest_sampleRecast : sampleLinkMade.1.ingest [sampleCode 2 .function []] sampleLinkMade.2 =
    (.ok (sampleRecast.plan.toDelta, { sampleLinkMade.1 with book := sampleRecast.book }),
      laid sampleRecast sampleLinkMade.2) := by
  have hchanges : sampleLinkMade.1.changesOf [sampleCode 2 .function []] =
      [.put (sampleCode 2 .function [])] := changesOf_singleton (by decide +kernel)
  rw [ingest_eq_apply (by simp [hchanges]), hchanges]
  exact apply_of_passes (reopened_of_pairwise (by decide +kernel)) (by decide +kernel)

/-- **Links are lost while their code is there.** One call makes a function of the procedure, and the
link goes. Two calls give the unit an annotation and take it back, and the link goes with it. -/
theorem link_is_lost :
    Visited [] {} sampleUnlinked.1 sampleUnlinked.2 ∧
    Links sampleUnlinked sampleLink sampleLinkMade ∧
    (∃ t, Step sampleLinkMade t ∧ t.2.nodes.contains sampleLink.code = true ∧
      t.2.edges.contains sampleLink = false) ∧
    (List.IsChain Step [sampleLinkMade, sampleNamed, sampleUnnamed] ∧
      sampleUnnamed.2.nodes.contains sampleLink.code = true ∧
      sampleUnnamed.2.edges.contains sampleLink = false) := by
  have hrequest : sampleLinkMade.1.request (.ingest [sampleCode 2 .function []]) sampleLinkMade.2 = _ :=
    ingest_sampleRecast
  have hdropped : Step sampleNamed sampleUnnamed := step_ingested (by decide +kernel)
  exact ⟨visited_sampleUnlinked, links_sampleLinkMade,
    ⟨_, .request hrequest, by decide +kernel, by decide +kernel⟩,
    List.isChain_cons_cons.mpr ⟨step_sampleNamed, List.isChain_cons_cons.mpr ⟨hdropped, .singleton _⟩⟩,
    by decide +kernel, by decide +kernel⟩

end Builder

end CodeAtlas
