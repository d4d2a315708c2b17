import CodeAtlas.Proofs.Outcome
import Mathlib.Data.List.Find

/-!
# A call keeps the mirror

After a call that succeeds, the bookkeeping mirrors the graph again. The edges of the new graph are
of three sorts: those of new fragments, those of references at hand, and those that were kept
(`Kept`). What is kept belongs to units that have not changed and has lost neither end, so it still
stands for what it stood for. What makes the difference is that a reference is never in two places
at once: a reference that waits, or whose edge is kept, is not at hand.
-/

set_option autoImplicit false

namespace CodeAtlas

open Std Text

namespace Bookkeeping

theorem SameNodes.keepsAt {a b : Bookkeeping} (h : SameNodes a b) (id : NodeId) : KeepsAt b a id :=
  ⟨fun p hp => by rw [h.nodeUnit]; exact hp, fun e he => by rw [h.index]; exact he⟩

theorem SameNodes.ownRef {a b : Bookkeeping} (h : SameNodes a b) {r : Reference}
    (hr : b.OwnRef r) : a.OwnRef r := hr.keep (h.keepsAt _)

theorem SameNodes.ownEdge {a b : Bookkeeping} (h : SameNodes a b) {edge : Edge}
    (he : b.OwnEdge edge) : a.OwnEdge edge := he.keep (h.keepsAt _) (h.keepsAt _)

theorem SameNodes.unreserved {a b : Bookkeeping} (h : SameNodes a b) (hb : b.Unreserved) :
    a.Unreserved := by
  intro id p hp
  rw [h.nodeUnit] at hp
  exact hb id p hp

/-- A waiting reference as the reference of its edge. -/
theorem Mirrors.refEdge_waiting {book : Bookkeeping} {g : PropertyGraph} (m : book.Mirrors g)
    {key : PendingKey} {r : Reference} (h : book.pending.waiting[key]? = some r) :
    book.RefEdge r.placeholderEdge r r.placeholderId .unknown := by
  have hkey := m.keyed key r h
  subst hkey
  exact ⟨(m.waiting _ r h).1, rfl, .inr ⟨rfl, rfl, h⟩⟩

/-- An edge to a placeholder is that of a waiting reference. -/
theorem Mirrors.waiting_of_open {book : Bookkeeping} {g : PropertyGraph} (m : book.Mirrors g)
    {k : EdgeKey} {edge : Edge} (h : g.edges[k]? = some edge) (hopen : edge.key.isOpen = true) :
    ∃ r, edge = r.placeholderEdge ∧ book.pending.waiting[PendingQueue.keyOf r]? = some r := by
  rcases m.conforms k edge h with he | ⟨r, t, kind, he⟩
  · rw [he.isOpen m.unreserved] at hopen
    simp at hopen
  · rcases he.target with ⟨hkind, -⟩ | ⟨rfl, rfl, hw⟩
    · obtain ⟨entry, hentry, -⟩ := Option.map_eq_some_iff.mp hkind
      rw [he.eq, Reference.edgeTo_key, Reference.isOpen_keyTo,
        he.own.isPlaceholder_owner m.unreserved, (m.real t entry hentry).2] at hopen
      simp at hopen
    · exact ⟨r, he.eq, hw⟩

namespace Planned

variable {markers : List String} {book : Bookkeeping} {g g' : PropertyGraph}
  {changes : List UnitChange} {puts : List ParsedUnit}

theorem ends (c : Planned markers book g changes puts) :
    Draft.Concludes (book.added markers changes) (book.reopened g markers changes)
      book.pending.placeholderIds (book.draftOn g markers changes) :=
  c.concludes _

/-! ## References that wait -/

theorem isPlaceholder_of_gone (c : Planned markers book g changes puts) {id : NodeId}
    (h : id ∈ (book.added markers changes).goneNodes) : id.isPlaceholder = false := by
  obtain ⟨q, -, ho⟩ := c.old_of_gone h
  exact NodeId.isPlaceholder_eq_false (c.mirrors.unreserved id q ((c.mirrors.owns q id).mp ho))

/-- What is new or turned back does not wait already. -/
theorem not_waiting_fresh (c : Planned markers book g changes puts) {r s : Reference}
    (hr : r ∈ (book.added markers changes).fresh (book.reopened g markers changes))
    (hs : book.pending.waiting[PendingQueue.keyOf r]? = some s) :
    s.unit ∈ changes.map (·.path) := by
  by_contra hpaths
  have hkey := c.mirrors.keyed _ s hs
  have howner : s.owner = r.owner := congrArg PendingKey.owner hkey
  rcases List.mem_append.mp hr with hr | hr
  · obtain ⟨hown, hunit⟩ := c.of_refs hr
    have hsu := (c.ownRef_added (c.mirrors.waiting _ s hs).1 hpaths).unit
    rw [howner, hown.unit] at hsu
    exact hpaths (Option.some.inj hsu ▸ hunit)
  · obtain ⟨o, ho, rfl⟩ := List.mem_map.mp hr
    obtain ⟨edge, r, target, kind, h⟩ := c.mem_reopened.mp ho
    have hsame : PendingQueue.keyOf r = PendingQueue.keyOf s := by rw [hkey, h.eq, keyOf_fitted]
    -- Were it so, there would be one edge to a vanished node and to a placeholder.
    have hkeys := c.mirrors.single _ _ _ _ _ _ _ _ _ _ h.found (c.mirrors.waiting _ s hs).2.1
      h.refEdge (c.mirrors.refEdge_waiting hs) hsame
    have hopen := s.isOpen_placeholderEdge
    have hedge : o.key = r.keyTo target kind := by
      rw [h.eq]
      show edge.key = _
      rw [h.refEdge.eq, Reference.edgeTo_key]
    rw [← hkeys, hedge, Reference.isOpen_keyTo, c.isPlaceholder_of_gone h.gone,
      h.refEdge.own.isPlaceholder_owner c.mirrors.unreserved] at hopen
    simp at hopen

/-- The references at hand that are not resolved, in order. -/
def unresolved (markers : List String) (book : Bookkeeping) (g : PropertyGraph)
    (changes : List UnitChange) : List Reference :=
  ((book.added markers changes).fresh (book.reopened g markers changes)).filter
    (!(book.added markers changes).book.index.resolves ·)

theorem mem_unresolved {r : Reference} : r ∈ unresolved markers book g changes ↔
    r ∈ (book.added markers changes).fresh (book.reopened g markers changes) ∧
      (book.added markers changes).book.index.resolves r = false := by
  rw [unresolved, List.mem_filter, Bool.not_eq_true']

theorem ownRef_unresolved (c : Planned markers book g changes puts) {r : Reference}
    (h : r ∈ unresolved markers book g changes) : (book.added markers changes).book.OwnRef r :=
  c.ownRef_fresh (mem_unresolved.mp h).1

/-- A reference waits after a call if it waited before and is still not resolved, or if it is the
first of its kind that is new or turned back and not resolved. -/
theorem waiting_iff (c : Planned markers book g changes puts) {key : PendingKey} {r : Reference} :
    (book.draftOn g markers changes).book.pending.waiting[key]? = some r ↔
      (book.pending.waiting[key]? = some r ∧ r.unit ∉ changes.map (·.path) ∧
        (book.added markers changes).book.index.resolves r = false) ∨
      (unresolved markers book g changes).find? (PendingQueue.keyOf · = key) = some r := by
  have hold : ∀ s, (book.added markers changes).book.pending.waiting[key]?.filter
      (!(book.added markers changes).book.index.resolves ·) = some s ↔
      book.pending.waiting[key]? = some s ∧ s.unit ∉ changes.map (·.path) ∧
        (book.added markers changes).book.index.resolves s = false := by
    intro s
    rw [Option.filter_eq_some_iff, c.waiting_added, and_assoc, Bool.not_eq_true']
  rw [c.ends.pending, ← hold]
  change (_ : Option Reference).or ((unresolved markers book g changes).find? _) = _ ↔ _
  cases hw : (book.added markers changes).book.pending.waiting[key]?.filter
      (!(book.added markers changes).book.index.resolves ·) with
  | none => simp
  | some s =>
    rw [Option.some_or]
    refine ⟨Or.inl, fun h => h.resolve_right fun hf => ?_⟩
    have hkey : PendingQueue.keyOf r = key := by simpa using List.find?_some hf
    obtain ⟨hs, hpaths, -⟩ := (hold s).mp hw
    refine hpaths (c.not_waiting_fresh (mem_unresolved.mp (List.mem_of_find?_eq_some hf)).1 ?_)
    rw [hkey]
    exact hs

theorem find_unresolved {r : Reference} (h : r ∈ unresolved markers book g changes) :
    ∃ s, (unresolved markers book g changes).find? (PendingQueue.keyOf · = PendingQueue.keyOf r) =
      some s ∧ s ∈ unresolved markers book g changes ∧ PendingQueue.keyOf s = PendingQueue.keyOf r := by
  cases hf : (unresolved markers book g changes).find?
      (PendingQueue.keyOf · = PendingQueue.keyOf r) with
  | none => exact absurd (decide_eq_true rfl) (List.find?_eq_none.mp hf r h)
  | some s =>
    exact ⟨s, rfl, List.mem_of_find?_eq_some hf, by simpa using List.find?_some hf⟩

/-! ## New edges -/

/-- An edge to a placeholder comes of a reference that is not resolved. -/
theorem unresolved_of_open (c : Planned markers book g changes puts) {r : Reference}
    (h : r ∈ (book.added markers changes).atHand (book.reopened g markers changes))
    (hopen : ((book.added markers changes).book.index.standing r).key.isOpen = true) :
    r ∈ unresolved markers book g changes := by
  rw [c.isOpen_standing (c.ownRef_atHand h), Bool.not_eq_true'] at hopen
  refine mem_unresolved.mpr ⟨(List.mem_append.mp h).resolve_left fun hs => ?_, hopen⟩
  rw [(c.mem_settled.mp hs).2] at hopen
  simp at hopen

theorem standing_unresolved {r : Reference} (h : r ∈ unresolved markers book g changes) :
    (book.added markers changes).book.index.standing r = r.placeholderEdge :=
  NameIndex.standing_of_not_resolves (mem_unresolved.mp h).2

theorem mem_atHand_of_unresolved {r : Reference} (h : r ∈ unresolved markers book g changes) :
    r ∈ (book.added markers changes).atHand (book.reopened g markers changes) :=
  List.mem_append.mpr (.inr (mem_unresolved.mp h).1)

/-- What is planned for an edge to a placeholder. -/
theorem upsertEdges_placeholder (c : Planned markers book g changes puts) {r : Reference}
    (howner : r.owner.isPlaceholder = false) :
    (book.draftOn g markers changes).plan.upsertEdges[r.placeholderEdge.key]? =
      ((unresolved markers book g changes).find?
        (PendingQueue.keyOf · = PendingQueue.keyOf r)).map (·.placeholderEdge) := by
  rw [c.ends.upsertEdges, c.upsertEdges_placeholderEdge, Option.none_or, List.find?_map]
  -- On either side the first reference is meant whose edge is the one to this placeholder.
  have hfind : ((book.added markers changes).atHand (book.reopened g markers changes)).find?
      ((fun edge : Edge => decide (edge.key = r.placeholderEdge.key)) ∘
        (book.added markers changes).book.index.standing) =
      (unresolved markers book g changes).find? (PendingQueue.keyOf · = PendingQueue.keyOf r) := by
    have hsettled : (book.added markers changes).settled.find?
        ((fun edge : Edge => decide (edge.key = r.placeholderEdge.key)) ∘
          (book.added markers changes).book.index.standing) = none := by
      refine List.find?_eq_none.mpr fun s hs hkey => ?_
      have hmem : s ∈ (book.added markers changes).atHand (book.reopened g markers changes) :=
        List.mem_append.mpr (.inl hs)
      have hopen : ((book.added markers changes).book.index.standing s).key.isOpen = true := by
        rw [of_decide_eq_true hkey]
        exact r.isOpen_placeholderEdge
      have hres := (mem_unresolved.mp (c.unresolved_of_open hmem hopen)).2
      rw [(c.mem_settled.mp hs).2] at hres
      simp at hres
    rw [Draft.atHand, List.find?_append, hsettled, Option.none_or, unresolved, List.find?_filter]
    refine List.find?_congr fun s hs => ?_
    have hmem : s ∈ (book.added markers changes).atHand (book.reopened g markers changes) :=
      List.mem_append.mpr (.inr hs)
    have hsown := (c.ownRef_fresh hs).isPlaceholder_owner c.unreserved_added
    rw [Bool.eq_iff_iff]
    simp only [Function.comp, decide_eq_true_eq, Bool.not_eq_true']
    constructor
    · intro hkey
      have hun := c.unresolved_of_open hmem (by rw [hkey]; exact r.isOpen_placeholderEdge)
      rw [standing_unresolved hun] at hkey
      exact ⟨(mem_unresolved.mp hun).2, Reference.keyOf_eq_of_placeholderKey hsown howner hkey⟩
    · rintro ⟨hres, hkey⟩
      rw [standing_unresolved (mem_unresolved.mpr ⟨hs, hres⟩)]
      exact Reference.placeholderKey_of_keyOf hkey
  rw [hfind]
  cases hf : (unresolved markers book g changes).find?
      (PendingQueue.keyOf · = PendingQueue.keyOf r) with
  | none => rfl
  | some s => rw [Option.map_some, Option.map_some, standing_unresolved (List.mem_of_find?_eq_some hf)]

theorem upsertEdges_cases (c : Planned markers book g changes puts) {k : EdgeKey} {edge : Edge}
    (h : (book.draftOn g markers changes).plan.upsertEdges[k]? = some edge) :
    (book.added markers changes).plan.upsertEdges[k]? = some edge ∨
      ∃ r ∈ (book.added markers changes).atHand (book.reopened g markers changes),
        edge = (book.added markers changes).book.index.standing r ∧ edge.key = k := by
  rw [c.ends.upsertEdges] at h
  rcases Option.or_eq_some_iff.mp h with h | ⟨-, h⟩
  · exact .inl h
  · obtain ⟨r, hr, rfl⟩ := List.mem_map.mp (List.mem_of_find?_eq_some h)
    exact .inr ⟨r, hr, rfl, by simpa using List.find?_some h⟩

theorem upsertEdges_eq_none_iff (c : Planned markers book g changes puts) {k : EdgeKey} :
    (book.draftOn g markers changes).plan.upsertEdges[k]? = none ↔
      (book.added markers changes).plan.upsertEdges[k]? = none ∧
        ∀ r ∈ (book.added markers changes).atHand (book.reopened g markers changes),
          ((book.added markers changes).book.index.standing r).key ≠ k := by
  rw [c.ends.upsertEdges, Option.or_eq_none_iff, List.find?_eq_none]
  simp

/-- A reference at hand has its edge in the plan, if not with its own properties. -/
theorem exists_upsertEdges (c : Planned markers book g changes puts) {r : Reference}
    (h : r ∈ (book.added markers changes).atHand (book.reopened g markers changes)) :
    ∃ edge, (book.draftOn g markers changes).plan.upsertEdges[
      ((book.added markers changes).book.index.standing r).key]? = some edge := by
  rw [← Option.ne_none_iff_exists']
  intro hnone
  exact (c.upsertEdges_eq_none_iff.mp hnone).2 r h rfl

theorem refEdge_of_resolve? (c : Planned markers book g changes puts) {r : Reference}
    (h : (book.added markers changes).book.OwnRef r) {t : NodeId} {kind : NodeKind}
    (hfound : (book.added markers changes).book.index.resolve? r = some (t, kind)) :
    (book.draftOn g markers changes).book.RefEdge
      ((book.added markers changes).book.index.standing r) r t kind := by
  refine ⟨c.ends.same.ownRef h, NameIndex.standing_of_resolve? hfound, .inl ?_⟩
  rw [c.ends.same.index]
  exact c.real_added.admits c.sound_added hfound

theorem refEdge_of_resolves (c : Planned markers book g changes puts) {r : Reference}
    (h : (book.added markers changes).book.OwnRef r)
    (hres : (book.added markers changes).book.index.resolves r = true) :
    ∃ t kind, (book.draftOn g markers changes).book.RefEdge
      ((book.added markers changes).book.index.standing r) r t kind := by
  obtain ⟨⟨t, kind⟩, hfound⟩ := Option.isSome_iff_exists.mp hres
  exact ⟨t, kind, c.refEdge_of_resolve? h hfound⟩

theorem refEdge_of_waiting (c : Planned markers book g changes puts) {r : Reference}
    (h : (book.added markers changes).book.OwnRef r)
    (hw : (book.draftOn g markers changes).book.pending.waiting[PendingQueue.keyOf r]? = some r) :
    (book.draftOn g markers changes).book.RefEdge r.placeholderEdge r r.placeholderId .unknown :=
  ⟨c.ends.same.ownRef h, rfl, .inr ⟨rfl, rfl, hw⟩⟩

/-- Every planned edge is of one of the two sorts. -/
theorem planned_cases (c : Planned markers book g changes puts) {k : EdgeKey} {edge : Edge}
    (h : (book.draftOn g markers changes).plan.upsertEdges[k]? = some edge) :
    (book.added markers changes).plan.upsertEdges[k]? = some edge ∨
      ∃ r ∈ (book.added markers changes).atHand (book.reopened g markers changes),
        edge = (book.added markers changes).book.index.standing r ∧
        ∃ t kind, (book.draftOn g markers changes).book.RefEdge edge r t kind := by
  refine (c.upsertEdges_cases h).imp_right ?_
  rintro ⟨r, hr, rfl, rfl⟩
  have hown := c.ownRef_atHand hr
  cases hres : (book.added markers changes).book.index.resolves r with
  | true => exact ⟨r, hr, rfl, c.refEdge_of_resolves hown hres⟩
  | false =>
    -- The edge is that of the first such reference, and this is the one that waits.
    have hun : r ∈ unresolved markers book g changes := by
      refine c.unresolved_of_open hr ?_
      rw [c.isOpen_standing hown, hres]
      rfl
    rw [standing_unresolved hun] at h ⊢
    rw [c.upsertEdges_placeholder (hown.isPlaceholder_owner c.unreserved_added)] at h
    obtain ⟨s, hs, hsun, hkey⟩ := find_unresolved hun
    rw [hs, Option.map_some, Option.some.injEq] at h
    refine ⟨s, mem_atHand_of_unresolved hsun, ?_, s.placeholderId, .unknown, ?_⟩
    · rw [standing_unresolved hsun, h]
    · rw [← h]
      refine c.refEdge_of_waiting (c.ownRef_unresolved hsun) (c.waiting_iff.mpr (.inr ?_))
      rw [hkey]
      exact hs

theorem conforms_planned (c : Planned markers book g changes puts) {k : EdgeKey} {edge : Edge}
    (h : (book.draftOn g markers changes).plan.upsertEdges[k]? = some edge) :
    (book.draftOn g markers changes).book.Conforms edge := by
  rcases c.planned_cases h with h | ⟨r, -, -, t, kind, h⟩
  · exact .inl (c.ends.same.ownEdge (c.adds.edges k edge h).2.1)
  · exact .inr ⟨r, t, kind, h⟩

/-! ## Kept edges -/

/-- An edge of the graph that a call leaves as it is. -/
structure Kept (markers : List String) (book : Bookkeeping) (g : PropertyGraph)
    (changes : List UnitChange) (k : EdgeKey) (edge : Edge) : Prop where
  found : g.edges[k]? = some edge
  unplanned : (book.draftOn g markers changes).plan.upsertEdges[k]? = none
  undropped : ∀ r ∈ (book.added markers changes).settled, r.placeholderEdge.key ≠ k
  unheld : ∀ q ∈ changes.map (·.path), ¬ book.Holds q k
  ends : ∀ id, id = k.source ∨ id = k.target →
    id ∉ (book.draftOn g markers changes).plan.deleteNodes

theorem keyed_plan (c : Planned markers book g changes puts) :
    (book.draftOn g markers changes).plan.Keyed :=
  (keyed_draftWith c.mirrors.keyed markers changes _).2

/-- The edges after a call are those that were planned and those that were kept. -/
theorem edges_iff (c : Planned markers book g changes puts)
    (hw : (book.draftOn g markers changes).plan.written g = .ok g') {k : EdgeKey} {edge : Edge} :
    g'.edges[k]? = some edge ↔
      (book.draftOn g markers changes).plan.upsertEdges[k]? = some edge ∨
        Kept markers book g changes k edge := by
  rw [Plan.get_written_edges c.keyed_plan hw]
  cases hp : (book.draftOn g markers changes).plan.upsertEdges[k]? with
  | some e =>
    rw [Option.some_or]
    refine ⟨Or.inl, fun h => h.resolve_right fun kept => ?_⟩
    have hun := kept.unplanned
    rw [hp] at hun
    simp at hun
  | none =>
    obtain ⟨hown, hfree⟩ := c.upsertEdges_eq_none_iff.mp hp
    have hdelete : k ∈ (book.draftOn g markers changes).plan.deleteEdges ↔
        k ∈ (book.added markers changes).settled.map (·.placeholderEdge.key) ∨
          ∃ q ∈ changes.map (·.path), book.Holds q k := by
      rw [c.ends.deleteEdges, c.adds.deleteEdges, c.retracts.deleteEdges]
      exact ⟨fun h => h.1.imp_right And.left, fun h => ⟨h.imp_right fun hq => ⟨hq, hown⟩, hfree⟩⟩
    rw [Option.none_or]
    constructor
    · intro h
      split at h
      · simp at h
      next hn =>
        rw [hdelete, not_or, not_or, not_or] at hn
        obtain ⟨⟨hdrop, hheld⟩, hsource, htarget⟩ := hn
        refine .inr ⟨h, hp, fun r hr he => hdrop (List.mem_map.mpr ⟨r, hr, he⟩),
          fun q hq hk => hheld ⟨q, hq, hk⟩, ?_⟩
        rintro id (rfl | rfl)
        · exact hsource
        · exact htarget
    · rintro (h | kept)
      · simp at h
      · rw [if_neg, kept.found]
        rw [hdelete]
        rintro ((hk | ⟨q, hq, hk⟩) | hk | hk)
        · obtain ⟨r, hr, he⟩ := List.mem_map.mp hk
          exact kept.undropped r hr he
        · exact kept.unheld q hq hk
        · exact kept.ends _ (.inl rfl) hk
        · exact kept.ends _ (.inr rfl) hk

theorem mem_deleteNodes (c : Planned markers book g changes puts) {id : NodeId} :
    id ∈ (book.draftOn g markers changes).plan.deleteNodes ↔
      id ∈ (book.added markers changes).goneNodes ∨
        (book.pending.Awaits id ∧ ¬ (book.draftOn g markers changes).book.pending.Awaits id) := by
  have hnone : (book.added markers changes).plan.deleteNodes = ∅ :=
    c.adds.deleteNodes.trans c.retracts.deleteNodes
  rw [c.ends.deleteNodes, hnone, PendingQueue.mem_placeholderIds]
  simp

/-- Edges of changed units are not kept. -/
theorem not_mem_of_unheld (c : Planned markers book g changes puts) {k : EdgeKey} {edge : Edge}
    {p : String} (hk : g.edges[k]? = some edge) (hp : edge.unit? = some p)
    (h : ∀ q ∈ changes.map (·.path), ¬ book.Holds q k) : p ∉ changes.map (·.path) := fun hm =>
  h p hm ((c.mirrors.holds p k).mpr ⟨edge, hk, hp⟩)

/-- An edge of a unit that does not change, which has lost neither end and whose reference, if it
waited, still does. -/
structure Intact (markers : List String) (book : Bookkeeping) (g : PropertyGraph)
    (changes : List UnitChange) (k : EdgeKey) (edge : Edge) : Prop where
  found : g.edges[k]? = some edge
  unit : ∀ p, edge.unit? = some p → p ∉ changes.map (·.path)
  ends : ∀ id, id = edge.source ∨ id = edge.target → id ∉ (book.added markers changes).goneNodes
  undropped : ∀ r ∈ (book.added markers changes).settled, r.placeholderEdge.key ≠ k

theorem Kept.intact (c : Planned markers book g changes puts) {k : EdgeKey} {edge : Edge}
    (h : Kept markers book g changes k edge) : Intact markers book g changes k edge := by
  refine ⟨h.found, fun p hp => c.not_mem_of_unheld h.found hp h.unheld, fun id hid hgone => ?_, h.undropped⟩
  have hkey := c.mirrors.edge_key k edge h.found
  subst hkey
  exact h.ends id hid (c.mem_deleteNodes.mpr (.inl hgone))

namespace Intact

variable {k : EdgeKey} {edge : Edge}

theorem key (c : Planned markers book g changes puts) (h : Intact markers book g changes k edge) :
    edge.key = k := c.mirrors.edge_key k edge h.found

theorem ownEdge (c : Planned markers book g changes puts) (h : Intact markers book g changes k edge)
    (he : book.OwnEdge edge) : (book.draftOn g markers changes).book.OwnEdge edge := by
  obtain ⟨p, -, hp, -⟩ := Conforms.anchored (.inl he)
  have hpaths := h.unit p hp
  exact c.ends.same.ownEdge (he.keep (c.keepsAt (c.not_old_of_ownEdge he hp hpaths (.inl rfl)))
    (c.keepsAt (c.not_old_of_ownEdge he hp hpaths (.inr rfl))))

theorem unit_refEdge (h : Intact markers book g changes k edge) {r : Reference} {t : NodeId}
    {kind : NodeKind} (he : book.RefEdge edge r t kind) : r.unit ∉ changes.map (·.path) :=
  h.unit _ (by rw [he.eq, Reference.edgeTo_unit?])

theorem not_gone (h : Intact markers book g changes k edge) {r : Reference} {t : NodeId}
    {kind : NodeKind} (he : book.RefEdge edge r t kind) :
    t ∉ (book.added markers changes).goneNodes :=
  h.ends t he.target_mem

/-- A reference that waits for the end of such an edge goes on waiting. -/
theorem waits (c : Planned markers book g changes puts) (h : Intact markers book g changes k edge)
    {r : Reference} (he : edge = r.placeholderEdge)
    (hw : book.pending.waiting[PendingQueue.keyOf r]? = some r) :
    (book.draftOn g markers changes).book.pending.waiting[PendingQueue.keyOf r]? = some r := by
  have hpaths := h.unit_refEdge (he ▸ c.mirrors.refEdge_waiting hw)
  refine c.waiting_iff.mpr (.inl ⟨hw, hpaths, ?_⟩)
  cases hres : (book.added markers changes).book.index.resolves r with
  | false => rfl
  | true =>
    refine absurd ?_ (h.undropped r (c.mem_settled.mpr ⟨⟨hw, hpaths⟩, hres⟩))
    rw [← h.key c, he]

theorem refEdge (c : Planned markers book g changes puts) (h : Intact markers book g changes k edge)
    {r : Reference} {t : NodeId} {kind : NodeKind} (he : book.RefEdge edge r t kind) :
    (book.draftOn g markers changes).book.RefEdge edge r t kind := by
  refine ⟨c.ends.same.ownRef (c.ownRef_added he.own (h.unit_refEdge he)), he.eq, ?_⟩
  rcases he.target with ⟨hk, hadm⟩ | ⟨rfl, rfl, hw⟩
  · refine .inl ⟨?_, hadm⟩
    rw [c.ends.same.index]
    exact c.kind?_of_not_gone hk (h.not_gone he)
  · exact .inr ⟨rfl, rfl, h.waits c he.eq hw⟩

theorem conforms (c : Planned markers book g changes puts) (h : Intact markers book g changes k edge) :
    (book.draftOn g markers changes).book.Conforms edge := by
  rcases c.mirrors.conforms k edge h.found with he | ⟨r, t, kind, he⟩
  · exact .inl (h.ownEdge c he)
  · exact .inr ⟨r, t, kind, h.refEdge c he⟩

end Intact

theorem conforms_written (c : Planned markers book g changes puts)
    (hw : (book.draftOn g markers changes).plan.written g = .ok g') {k : EdgeKey} {edge : Edge}
    (h : g'.edges[k]? = some edge) : (book.draftOn g markers changes).book.Conforms edge := by
  rcases (c.edges_iff hw).mp h with h | h
  · exact c.conforms_planned h
  · exact (h.intact c).conforms c

theorem isPlaceholder_of_awaits {q : PendingQueue} (keyed : q.Keyed) {id : NodeId}
    (h : q.Awaits id) : id.isPlaceholder = true := by
  obtain ⟨key, r, hr, rfl⟩ := h
  rw [← keyed key r hr]
  exact Reference.isPlaceholder_placeholderId r

/-- Such an edge stays, unless another is planned in its place. -/
theorem Intact.kept_or_planned (c : Planned markers book g changes puts) {k : EdgeKey} {edge : Edge}
    (h : Intact markers book g changes k edge) :
    Kept markers book g changes k edge ∨
      ∃ new, (book.draftOn g markers changes).plan.upsertEdges[k]? = some new := by
  have hkey := h.key c
  cases hplan : (book.draftOn g markers changes).plan.upsertEdges[k]? with
  | some new => exact .inr ⟨new, rfl⟩
  | none =>
    refine .inl ⟨h.found, hplan, h.undropped, ?_, ?_⟩
    · intro q hq hheld
      obtain ⟨e, he, heq⟩ := (c.mirrors.holds q k).mp hheld
      rw [h.found] at he
      cases he
      exact h.unit q heq hq
    · subst hkey
      intro id hid hdel
      rcases c.mem_deleteNodes.mp hdel with hgone | ⟨hbefore, hafter⟩
      · exact h.ends id hid hgone
      -- A placeholder that is no longer in use has no such edge.
      · have hph := isPlaceholder_of_awaits c.mirrors.keyed hbefore
        have hopen : edge.key.isOpen = true := by
          rcases hid with rfl | rfl <;> simp [EdgeKey.isOpen, hph]
        obtain ⟨r, he, hw⟩ := c.mirrors.waiting_of_open h.found hopen
        refine hafter ⟨_, r, h.waits c he hw, ?_⟩
        have howner := (c.mirrors.waiting _ r hw).1.isPlaceholder_owner c.mirrors.unreserved
        have hne : id ≠ r.owner := fun he => by rw [he, howner] at hph; simp at hph
        subst he
        rcases (c.mirrors.refEdge_waiting hw).source_or_target with ⟨hs, ht⟩ | ⟨hs, ht⟩ <;>
          rcases hid with rfl | rfl
        · exact absurd hs hne
        · exact ht.symm
        · exact hs.symm
        · exact absurd ht hne

theorem contains_of_intact (c : Planned markers book g changes puts)
    (hw : (book.draftOn g markers changes).plan.written g = .ok g') {k : EdgeKey} {edge : Edge}
    (h : Intact markers book g changes k edge) : g'.edges.contains k = true := by
  rcases h.kept_or_planned c with kept | ⟨edge', he'⟩
  · exact (Maps.contains_iff _ _).mpr ⟨edge, (c.edges_iff hw).mpr (.inr kept)⟩
  · exact (Maps.contains_iff _ _).mpr ⟨edge', (c.edges_iff hw).mpr (.inl he')⟩

theorem contains_of_atHand (c : Planned markers book g changes puts)
    (hw : (book.draftOn g markers changes).plan.written g = .ok g') {r : Reference}
    (h : r ∈ (book.added markers changes).atHand (book.reopened g markers changes)) :
    g'.edges.contains ((book.added markers changes).book.index.standing r).key = true := by
  obtain ⟨edge, he⟩ := c.exists_upsertEdges h
  exact (Maps.contains_iff _ _).mpr ⟨edge, (c.edges_iff hw).mpr (.inl he)⟩

/-! ## The queue and the units -/

theorem ownRef_waiting (c : Planned markers book g changes puts) {r : Reference}
    (hw : book.pending.waiting[PendingQueue.keyOf r]? = some r)
    (hpaths : r.unit ∉ changes.map (·.path)) : (book.added markers changes).book.OwnRef r :=
  c.ownRef_added (c.mirrors.waiting _ r hw).1 hpaths

/-- The edge of a reference that goes on waiting is kept. -/
theorem kept_waiting (c : Planned markers book g changes puts) {r : Reference}
    (hw : book.pending.waiting[PendingQueue.keyOf r]? = some r)
    (hpaths : r.unit ∉ changes.map (·.path))
    (hres : (book.added markers changes).book.index.resolves r = false) :
    Kept markers book g changes r.placeholderEdge.key r.placeholderEdge := by
  have hown := c.ownRef_waiting hw hpaths
  have howner := hown.isPlaceholder_owner c.unreserved_added
  have intact : Intact markers book g changes r.placeholderEdge.key r.placeholderEdge := by
    refine ⟨(c.mirrors.waiting _ r hw).2.1, fun p hp => ?_, fun id hid hgone => ?_, fun s hs hkey => ?_⟩
    · rw [Reference.placeholderEdge_unit?] at hp
      exact Option.some.inj hp ▸ hpaths
    · rcases (c.mirrors.refEdge_waiting hw).end_cases hid with rfl | rfl
      · exact c.not_old_owner (c.mirrors.waiting _ r hw).1 hpaths (c.old_of_gone hgone)
      · have hph := c.isPlaceholder_of_gone hgone
        rw [Reference.isPlaceholder_placeholderId] at hph
        simp at hph
    · obtain ⟨⟨hsw, hsp⟩, hsres⟩ := c.mem_settled.mp hs
      have hsown := (c.ownRef_waiting hsw hsp).isPlaceholder_owner c.unreserved_added
      rw [Reference.keyOf_eq_of_placeholderKey hsown howner hkey, hw] at hsw
      cases hsw
      rw [hres] at hsres
      simp at hsres
  refine (intact.kept_or_planned c).resolve_right ?_
  · rintro ⟨new, hnew⟩
    rw [c.upsertEdges_placeholder howner] at hnew
    obtain ⟨s, hs, -⟩ := Option.map_eq_some_iff.mp hnew
    have hkey : PendingQueue.keyOf s = PendingQueue.keyOf r := by simpa using List.find?_some hs
    refine hpaths (c.not_waiting_fresh (mem_unresolved.mp (List.mem_of_find?_eq_some hs)).1 ?_)
    rw [hkey]
    exact hw

theorem waiting_written (c : Planned markers book g changes puts)
    (hw : (book.draftOn g markers changes).plan.written g = .ok g') {key : PendingKey}
    {r : Reference} (h : (book.draftOn g markers changes).book.pending.waiting[key]? = some r) :
    (book.draftOn g markers changes).book.OwnRef r ∧
      g'.edges[r.placeholderEdge.key]? = some r.placeholderEdge ∧
      (book.draftOn g markers changes).book.index.resolves r = false := by
  have hkey := c.ends.keyed key r h
  subst hkey
  rw [c.ends.same.index]
  rcases c.waiting_iff.mp h with ⟨hwait, hpaths, hres⟩ | hfind
  · exact ⟨c.ends.same.ownRef (c.ownRef_waiting hwait hpaths),
      (c.edges_iff hw).mpr (.inr (c.kept_waiting hwait hpaths hres)), hres⟩
  · have hun := List.mem_of_find?_eq_some hfind
    have hown := c.ownRef_unresolved hun
    refine ⟨c.ends.same.ownRef hown, (c.edges_iff hw).mpr (.inl ?_), (mem_unresolved.mp hun).2⟩
    rw [c.upsertEdges_placeholder (hown.isPlaceholder_owner c.unreserved_added), hfind]
    rfl

/-- A reference whose edge is kept is not at hand. -/
theorem not_kept_of_atHand (c : Planned markers book g changes puts) {r s : Reference} {k : EdgeKey}
    {edge : Edge} {t : NodeId} {kind : NodeKind} (h : Kept markers book g changes k edge)
    (he : book.RefEdge edge r t kind)
    (hs : s ∈ (book.added markers changes).atHand (book.reopened g markers changes)) :
    PendingQueue.keyOf r ≠ PendingQueue.keyOf s := by
  intro hkey
  have hpaths := (h.intact c).unit_refEdge he
  rcases List.mem_append.mp hs with hs | hs
  · obtain ⟨⟨hsw, -⟩, -⟩ := c.mem_settled.mp hs
    have hk := c.mirrors.single _ _ _ _ _ _ _ _ _ _ h.found (c.mirrors.waiting _ s hsw).2.1 he
      (c.mirrors.refEdge_waiting hsw) hkey
    exact h.undropped s hs hk.symm
  · rcases List.mem_append.mp hs with hs | hs
    · obtain ⟨hown, hunit⟩ := c.of_refs hs
      have howner : r.owner = s.owner := congrArg PendingKey.owner hkey
      have hru := (c.ownRef_added he.own hpaths).unit
      rw [howner, hown.unit] at hru
      exact hpaths (Option.some.inj hru ▸ hunit)
    · obtain ⟨o, ho, rfl⟩ := List.mem_map.mp hs
      obtain ⟨edge', r', t', kind', h'⟩ := c.mem_reopened.mp ho
      rw [h'.eq, keyOf_fitted] at hkey
      have hk := c.mirrors.single _ _ _ _ _ _ _ _ _ _ h.found h'.found he h'.refEdge hkey
      have hedge : edge' = edge := by
        have hfound := h.found
        rw [hk, h'.found] at hfound
        exact Option.some.inj hfound
      subst hedge
      exact (h.intact c).not_gone h'.refEdge h'.gone

/-- An edge that stands for a reference is kept, or comes of a reference at hand. -/
theorem refEdge_cases (c : Planned markers book g changes puts)
    (hw : (book.draftOn g markers changes).plan.written g = .ok g') {k : EdgeKey} {edge : Edge}
    (h : g'.edges[k]? = some edge) {r : Reference} {t : NodeId} {kind : NodeKind}
    (he : (book.draftOn g markers changes).book.RefEdge edge r t kind) :
    (∃ s u l, Kept markers book g changes k edge ∧ book.RefEdge edge s u l ∧
      PendingQueue.keyOf s = PendingQueue.keyOf r) ∨
    ∃ s ∈ (book.added markers changes).atHand (book.reopened g markers changes),
      edge = (book.added markers changes).book.index.standing s ∧
        PendingQueue.keyOf s = PendingQueue.keyOf r := by
  have unreserved := c.ends.same.unreserved c.unreserved_added
  rcases (c.edges_iff hw).mp h with hp | hkept
  · rcases c.planned_cases hp with hown | ⟨s, hs, heq, u, l, hsr⟩
    · exact absurd he.eq (OwnEdge.ne_edgeTo (c.adds.edges k edge hown).2.1 r t kind)
    · exact .inr ⟨s, hs, heq, hsr.keyOf_eq unreserved he⟩
  · rcases c.mirrors.conforms k edge hkept.found with hown | ⟨s, u, l, hs⟩
    · exact absurd he.eq (OwnEdge.ne_edgeTo hown r t kind)
    · exact .inl ⟨s, u, l, hkept, hs, ((hkept.intact c).refEdge c hs).keyOf_eq unreserved he⟩

theorem single_written (c : Planned markers book g changes puts)
    (hw : (book.draftOn g markers changes).plan.written g = .ok g') {k k' : EdgeKey}
    {edge edge' : Edge} {r r' : Reference} {t t' : NodeId} {l l' : NodeKind}
    (h : g'.edges[k]? = some edge) (h' : g'.edges[k']? = some edge')
    (he : (book.draftOn g markers changes).book.RefEdge edge r t l)
    (he' : (book.draftOn g markers changes).book.RefEdge edge' r' t' l')
    (hkey : PendingQueue.keyOf r = PendingQueue.keyOf r') : k = k' := by
  have hk : edge.key = k := Plan.edge_key_written c.keyed_plan c.mirrors.edge_key hw h
  have hk' : edge'.key = k' := Plan.edge_key_written c.keyed_plan c.mirrors.edge_key hw h'
  rcases c.refEdge_cases hw h he with ⟨s, u, m, kept, hs, hsr⟩ | ⟨s, hs, heq, hsr⟩ <;>
    rcases c.refEdge_cases hw h' he' with ⟨s', u', m', kept', hs', hsr'⟩ | ⟨s', hs', heq', hsr'⟩
  · exact c.mirrors.single _ _ _ _ _ _ _ _ _ _ kept.found kept'.found hs hs'
      (hsr.trans (hkey.trans hsr'.symm))
  · exact absurd (hsr.trans (hkey.trans hsr'.symm)) (c.not_kept_of_atHand kept hs hs')
  · exact absurd (hsr'.trans (hkey.symm.trans hsr.symm)) (c.not_kept_of_atHand kept' hs' hs)
  · have hstand := ((c.ownRef_atHand hs).standing_key_eq (c.ownRef_atHand hs')
      (hsr.trans (hkey.trans hsr'.symm))).2
    rw [← hk, ← hk', heq, heq', hstand]

theorem owns_added (c : Planned markers book g changes puts) (p : String) (id : NodeId) :
    (book.added markers changes).book.Owns p id ↔
      (book.added markers changes).book.nodeUnit[id]? = some p := by
  constructor
  · intro h
    rw [c.adds.nodeUnit]
    rcases (c.adds.owns p id).mp h with hbase | ⟨node, hn, hu⟩
    · have hb : (book.base changes).book.nodeUnit[id]? = some p := by
        obtain ⟨unit, hunit, hmem⟩ := hbase
        rw [c.retracts.units] at hunit
        split at hunit
        · simp at hunit
        next hpaths =>
          have hu := (c.mirrors.owns p id).mp ⟨unit, hunit, hmem⟩
          exact (c.retracts.nodeUnit id p).mpr
            ⟨hu, fun q hq ho => c.not_old_of_nodeUnit hu hpaths ⟨q, hq, ho⟩⟩
      obtain ⟨hu, hfree⟩ := (c.retracts.nodeUnit id p).mp hb
      obtain ⟨entry, he⟩ := c.mirrors.entry_of_nodeUnit hu
      rw [c.upsertNodes_eq_none he fun ⟨q, hq, ho⟩ => hfree q hq ho]
      exact hb
    · rw [hn, Option.bind_some, hu]
      rfl
  · intro h
    exact c.adds.owns_of_nodeUnit c.ready h

theorem contains_unit (c : Planned markers book g changes puts) {r : Reference}
    (h : (book.added markers changes).book.OwnRef r) :
    (book.added markers changes).book.units.contains r.unit = true := by
  obtain ⟨unit, hu, -⟩ := (c.owns_added _ _).mpr h.unit
  exact (Maps.contains_iff _ _).mpr ⟨unit, hu⟩

theorem holds_added (c : Planned markers book g changes puts) {p : String} {k : EdgeKey} :
    (book.added markers changes).book.Holds p k ↔
      (p ∉ changes.map (·.path) ∧ book.Holds p k) ∨
        ∃ edge, (book.added markers changes).plan.upsertEdges[k]? = some edge ∧
          edge.unit? = some p := by
  rw [c.adds.holds]
  refine or_congr_left ?_
  by_cases hp : p ∈ changes.map (·.path)
  · have hnone : (book.base changes).book.units[p]? = none := by rw [c.retracts.units, if_pos hp]
    simp [Holds, hnone, hp]
  · have hsame : (book.base changes).book.units[p]? = book.units[p]? := by
      rw [c.retracts.units, if_neg hp]
    rw [holds_congr hsame k, and_iff_right hp]

theorem unit_upsertEdges (c : Planned markers book g changes puts) {k : EdgeKey} {edge : Edge}
    (h : (book.added markers changes).plan.upsertEdges[k]? = some edge) {p : String}
    (hp : edge.unit? = some p) : p ∈ changes.map (·.path) := by
  obtain ⟨-, -, q, hq, hf⟩ := c.adds.edges k edge h
  have hunit := ((Fragment.wellFormed_build markers q).edges edge hf).unit?
  rw [hp] at hunit
  rw [Option.some.inj hunit]
  exact List.mem_map.mpr ⟨.put q, (c.mem_puts q).mp hq, rfl⟩

/-- The edge that is planned where a reference has its edge belongs to the same unit. -/
theorem unit_planned (c : Planned markers book g changes puts) {r : Reference}
    (h : r ∈ (book.added markers changes).atHand (book.reopened g markers changes)) {edge : Edge}
    (he : (book.draftOn g markers changes).plan.upsertEdges[
      ((book.added markers changes).book.index.standing r).key]? = some edge) :
    edge.unit? = some r.unit := by
  have hown := c.ownRef_atHand h
  cases hres : (book.added markers changes).book.index.resolves r with
  | true =>
    obtain ⟨t, kind, href⟩ := c.refEdge_of_resolves hown hres
    rw [(c.conforms_planned he).unit?_eq (c.ends.same.unreserved c.unreserved_added)
      (.inr ⟨r, t, kind, href⟩) (c.keyed_plan.edges _ edge he), NameIndex.standing_unit?]
  | false =>
    rw [NameIndex.standing_of_not_resolves hres,
      c.upsertEdges_placeholder (hown.isPlaceholder_owner c.unreserved_added)] at he
    obtain ⟨s, hs, rfl⟩ := Option.map_eq_some_iff.mp he
    have hkey : PendingQueue.keyOf s = PendingQueue.keyOf r := by simpa using List.find?_some hs
    have howner : s.owner = r.owner := congrArg PendingKey.owner hkey
    have hsu := (c.ownRef_unresolved (List.mem_of_find?_eq_some hs)).unit
    rw [howner, hown.unit] at hsu
    rw [Reference.placeholderEdge_unit?, hsu]

/-- An edge that was remembered of a unit and is not forgotten is there, or another edge of the
same unit in its place. -/
theorem edge_of_remembered (c : Planned markers book g changes puts)
    (hw : (book.draftOn g markers changes).plan.written g = .ok g') {p : String} {k : EdgeKey}
    (hpaths : p ∉ changes.map (·.path)) (hheld : book.Holds p k)
    (hopened : ∀ o ∈ book.reopened g markers changes, ¬ (o.unit = p ∧ o.key = k))
    (hsettled : ∀ r ∈ (book.added markers changes).settled,
      ¬ (r.unit = p ∧ r.placeholderEdge.key = k)) :
    ∃ edge, g'.edges[k]? = some edge ∧ edge.unit? = some p := by
  obtain ⟨edge, hk, hp⟩ := (c.mirrors.holds p k).mp hheld
  have hkey := c.mirrors.edge_key k edge hk
  subst hkey
  have hdrop : ∀ r ∈ (book.added markers changes).settled, r.placeholderEdge.key ≠ edge.key := by
    intro r hr he
    obtain ⟨⟨hwait, -⟩, -⟩ := c.mem_settled.mp hr
    have hfound := (c.mirrors.waiting _ r hwait).2.1
    rw [he, hk] at hfound
    rw [Option.some.inj hfound, Reference.placeholderEdge_unit?] at hp
    exact hsettled r hr ⟨Option.some.inj hp, he⟩
  have hunit : ∀ q, edge.unit? = some q → q = p := fun q hq => Option.some.inj (hq.symm.trans hp)
  have intact : Intact markers book g changes edge.key edge := by
    refine ⟨hk, fun q hq => hunit q hq ▸ hpaths, fun id hid hgone => ?_, hdrop⟩
    have hold := c.old_of_gone hgone
    rcases c.mirrors.conforms _ edge hk with he | ⟨r, t, kind, he⟩
    · exact c.not_old_of_ownEdge he hp hpaths hid hold
    · have hru : r.unit = p := hunit _ (by rw [he.eq, Reference.edgeTo_unit?])
      rcases he.end_cases hid with rfl | rfl
      · exact c.not_old_owner he.own (hru ▸ hpaths) hold
      · exact hopened _ (c.mem_reopened.mpr ⟨edge, r, id, kind, hk, he, hgone, hru ▸ hpaths, rfl⟩)
          ⟨hru, rfl⟩
  rcases intact.kept_or_planned c with kept | ⟨new, hnew⟩
  · exact ⟨edge, (c.edges_iff hw).mpr (.inr kept), hp⟩
  · refine ⟨new, (c.edges_iff hw).mpr (.inl hnew), ?_⟩
    rw [(c.conforms_planned hnew).unit?_eq (c.ends.same.unreserved c.unreserved_added)
      (intact.conforms c) (c.keyed_plan.edges _ new hnew), hp]

theorem holds_written (c : Planned markers book g changes puts)
    (hw : (book.draftOn g markers changes).plan.written g = .ok g') (p : String) (k : EdgeKey) :
    (book.draftOn g markers changes).book.Holds p k ↔
      ∃ edge, g'.edges[k]? = some edge ∧ edge.unit? = some p := by
  rw [c.ends.holds]
  constructor
  · rintro (⟨hheld, hopened, hsettled⟩ | ⟨r, hr, rfl, rfl, -⟩)
    · rcases c.holds_added.mp hheld with ⟨hpaths, hheld⟩ | ⟨edge, he, hp⟩
      · exact c.edge_of_remembered hw hpaths hheld hopened hsettled
      · refine ⟨edge, (c.edges_iff hw).mpr (.inl ?_), hp⟩
        rw [c.ends.upsertEdges, he]
        rfl
    · obtain ⟨edge, he⟩ := c.exists_upsertEdges hr
      exact ⟨edge, (c.edges_iff hw).mpr (.inl he), c.unit_planned hr he⟩
  · rintro ⟨edge, he, hp⟩
    rcases (c.edges_iff hw).mp he with hplan | kept
    · rcases c.upsertEdges_cases hplan with hown | ⟨r, hr, rfl, rfl⟩
      · refine .inl ⟨c.holds_added.mpr (.inr ⟨edge, hown, hp⟩), fun o ho hop => ?_, fun r hr hrp => ?_⟩
        · obtain ⟨_, r, _, _, h⟩ := c.mem_reopened.mp ho
          refine h.unit ?_
          have hunit : o.unit = r.unit := by rw [h.eq]
          rw [← hunit, hop.1]
          exact c.unit_upsertEdges hown hp
        · have hopen := c.isOpen_upsertEdges hown
          rw [← hrp.2, r.isOpen_placeholderEdge] at hopen
          simp at hopen
      · rw [NameIndex.standing_unit?] at hp
        cases hp
        exact .inr ⟨r, hr, rfl, rfl, c.contains_unit (c.ownRef_atHand hr)⟩
    · have hpaths := c.not_mem_of_unheld kept.found hp kept.unheld
      refine .inl ⟨c.holds_added.mpr (.inl ⟨hpaths, (c.mirrors.holds p k).mpr ⟨edge, kept.found, hp⟩⟩),
        fun o ho hop => ?_, fun r hr hrp => kept.undropped r hr hrp.2⟩
      obtain ⟨edge', r, t, kind, h⟩ := c.mem_reopened.mp ho
      have hfound := h.found
      rw [hop.2, kept.found] at hfound
      cases hfound
      exact (kept.intact c).not_gone h.refEdge h.gone

/-! ## Nodes -/

theorem accepted_cases (c : Planned markers book g changes puts) {id : NodeId} {node : Node}
    (h : (book.added markers changes).plan.upsertNodes[id]? = some node) :
    (∃ p ∈ puts, node ∈ (Fragment.build markers p).nodes ∧ Fragment.Owned p.unit.path node) ∨
      ∃ key, node = Fragment.requirementNode key ∨ node = Fragment.incidentNode key := by
  obtain ⟨p, hp, hf | hf⟩ := c.adds.source id node h
  · exact .inl ⟨p, hp, hf, (Fragment.wellFormed_build markers p).owned node hf⟩
  · exact .inr ((Fragment.wellFormed_build markers p).shared node hf)

theorem real_of_accepted (c : Planned markers book g changes puts) {id : NodeId} {node : Node}
    (h : (book.added markers changes).plan.upsertNodes[id]? = some node) : node.kind ≠ .unknown := by
  rcases c.accepted_cases h with ⟨p, -, -, howned⟩ | ⟨key, rfl | rfl⟩
  · exact howned.real
  · simp [Fragment.requirementNode]
  · simp [Fragment.incidentNode]

theorem isPlaceholder_of_entry (c : Planned markers book g changes puts) {id : NodeId}
    (h : (book.added markers changes).book.index.contains id = true) : id.isPlaceholder = false := by
  obtain ⟨entry, he⟩ := (Maps.contains_iff _ _).mp h
  exact (c.real_added id entry he).2

/-- Placeholders are not in the index. -/
theorem entries_eq_none_of_awaits (c : Planned markers book g changes puts) {q : PendingQueue}
    (keyed : q.Keyed) {id : NodeId} (h : q.Awaits id) :
    (book.added markers changes).book.index.entries[id]? = none := by
  cases he : (book.added markers changes).book.index.entries[id]? with
  | none => rfl
  | some entry =>
    have hph := isPlaceholder_of_awaits keyed h
    rw [(c.real_added id entry he).2] at hph
    simp at hph

theorem upsertNodes_eq_none_of_awaits (c : Planned markers book g changes puts) {q : PendingQueue}
    (keyed : q.Keyed) {id : NodeId} (h : q.Awaits id) :
    (book.added markers changes).plan.upsertNodes[id]? = none := by
  have he := c.entries_eq_none_of_awaits keyed h
  rw [c.adds.entries, Option.or_eq_none_iff, Option.map_eq_none_iff] at he
  exact he.1

theorem not_gone_of_awaits (c : Planned markers book g changes puts) {q : PendingQueue}
    (keyed : q.Keyed) {id : NodeId} (h : q.Awaits id) :
    id ∉ (book.added markers changes).goneNodes := by
  intro hgone
  have hph := isPlaceholder_of_awaits keyed h
  rw [c.isPlaceholder_of_gone hgone] at hph
  simp at hph

/-- A placeholder in use has its node. -/
theorem node_awaited (c : Planned markers book g changes puts)
    (hw : (book.draftOn g markers changes).plan.written g = .ok g') {id : NodeId}
    (h : (book.draftOn g markers changes).book.pending.Awaits id) :
    ∃ name, g'.nodes[id]? = some (.placeholder name) := by
  by_cases hb : book.pending.Awaits id
  · have hplan : (book.draftOn g markers changes).plan.upsertNodes[id]? = none := by
      rw [c.ends.others id (iff_of_true h ((PendingQueue.mem_placeholderIds _ _).mpr hb))]
      exact c.upsertNodes_eq_none_of_awaits c.mirrors.keyed hb
    have hdel : id ∉ (book.draftOn g markers changes).plan.deleteNodes := fun hm =>
      (c.mem_deleteNodes.mp hm).elim (c.not_gone_of_awaits c.mirrors.keyed hb) fun hn => hn.2 h
    obtain ⟨node, hn, hk⟩ := (c.mirrors.placeholders id).mpr hb
    have hunit : node.unit? = none := by
      cases hu : book.nodeUnit[id]? with
      | none => simpa [c.mirrors.nodeUnit, hn] using hu
      | some p =>
        have hph := isPlaceholder_of_awaits c.mirrors.keyed hb
        rw [NodeId.isPlaceholder_eq_false (c.mirrors.unreserved id p hu)] at hph
        simp at hph
    rw [Plan.get_written_nodes c.keyed_plan hw, hplan, if_neg hdel, Option.none_or]
    rcases c.mirrors.unowned id node hn hunit with ⟨name, rfl⟩ | ⟨key, rfl | rfl⟩
    · exact ⟨name, hn⟩
    · simp [Fragment.requirementNode] at hk
    · simp [Fragment.incidentNode] at hk
  · obtain ⟨name, -, hn⟩ := c.ends.appear id h fun hm => hb ((PendingQueue.mem_placeholderIds _ _).mp hm)
    refine ⟨name, ?_⟩
    rw [Plan.get_written_nodes c.keyed_plan hw, hn]
    rfl

theorem gone_of_old (c : Planned markers book g changes puts) {id : NodeId}
    (h : Old book changes id) (hn : (book.added markers changes).plan.upsertNodes[id]? = none) :
    id ∈ (book.added markers changes).goneNodes := by
  obtain ⟨q, hq, ho⟩ := h
  obtain ⟨entry, he⟩ := c.mirrors.entry_of_nodeUnit ((c.mirrors.owns q id).mp ho)
  have hk : book.index.kind? id = some entry.kind := by rw [NameIndex.kind?, he]; rfl
  refine mem_goneNodes.mpr (.inl ⟨entry.kind, ?_⟩)
  rw [c.adds.retracted, (Maps.contains_eq_false_iff _ _).mpr hn]
  exact (c.retracts.retracted id _).mpr ⟨hk, q, hq, ho⟩

/-- Where a node is accepted there was none, but for nodes of changed units. -/
theorem node_eq_none_of_accepted (c : Planned markers book g changes puts) {id : NodeId} {new : Node}
    (hn : (book.added markers changes).plan.upsertNodes[id]? = some new)
    (hold : ¬ Old book changes id) (hb : ¬ book.pending.Awaits id) : g.nodes[id]? = none := by
  cases hg : g.nodes[id]? with
  | none => rfl
  | some node =>
    have hk : node.kind ≠ .unknown := fun hk => hb ((c.mirrors.placeholders id).mp ⟨node, hg, hk⟩)
    have hnone := c.upsertNodes_eq_none (c.mirrors.entry_of_node hg hk) hold
    rw [hn] at hnone
    simp at hnone

/-- Every other node after a call is one of a fragment, or it was there and belongs to no changed
unit. -/
theorem node_unawaited (c : Planned markers book g changes puts)
    (hw : (book.draftOn g markers changes).plan.written g = .ok g') {id : NodeId}
    (h : ¬ (book.draftOn g markers changes).book.pending.Awaits id) {node : Node} :
    g'.nodes[id]? = some node ↔
      (book.added markers changes).plan.upsertNodes[id]? = some node ∨
        (¬ Old book changes id ∧ ¬ book.pending.Awaits id ∧ g.nodes[id]? = some node) := by
  rw [Plan.get_written_nodes c.keyed_plan hw]
  by_cases hb : book.pending.Awaits id
  · have hbefore := (PendingQueue.mem_placeholderIds _ _).mpr hb
    rw [c.ends.disappear id hbefore h, c.upsertNodes_eq_none_of_awaits c.mirrors.keyed hb,
      if_pos (c.mem_deleteNodes.mpr (.inr ⟨hb, h⟩))]
    simp [hb]
  · have hbefore : id ∉ book.pending.placeholderIds := fun hm =>
      hb ((PendingQueue.mem_placeholderIds _ _).mp hm)
    have hdel : id ∈ (book.draftOn g markers changes).plan.deleteNodes ↔
        id ∈ (book.added markers changes).goneNodes := by
      rw [c.mem_deleteNodes]
      simp [hb]
    rw [c.ends.others id (iff_of_false h hbefore)]
    cases hn : (book.added markers changes).plan.upsertNodes[id]? with
    | some new =>
      rw [Option.some_or]
      refine ⟨Or.inl, fun hr => hr.resolve_right ?_⟩
      rintro ⟨hold, -, hg⟩
      rw [c.node_eq_none_of_accepted hn hold hb] at hg
      simp at hg
    | none =>
      rw [Option.none_or]
      constructor
      · intro hg
        split at hg
        · simp at hg
        next hndel => exact .inr ⟨fun hold => hndel (hdel.mpr (c.gone_of_old hold hn)), hb, hg⟩
      · rintro (hr | ⟨hold, -, hg⟩)
        · simp at hr
        · rw [if_neg fun hm => hold (c.old_of_gone (hdel.mp hm)), hg]

theorem entries_written (c : Planned markers book g changes puts)
    (hw : (book.draftOn g markers changes).plan.written g = .ok g') (id : NodeId) :
    (book.draftOn g markers changes).book.index.entries[id]? =
      (g'.nodes[id]?.filter fun node => node.kind ≠ .unknown).map .ofNode := by
  rw [c.ends.same.index]
  by_cases h : (book.draftOn g markers changes).book.pending.Awaits id
  · obtain ⟨name, hn⟩ := c.node_awaited hw h
    rw [c.entries_eq_none_of_awaits c.ends.keyed h, hn]
    rfl
  · ext entry
    rw [c.adds.entries]
    simp only [Option.map_eq_some_iff, Option.filter_eq_some_iff, c.node_unawaited hw h,
      decide_eq_true_eq]
    cases hn : (book.added markers changes).plan.upsertNodes[id]? with
    | some node =>
      have hreal := c.real_of_accepted hn
      constructor
      · intro he
        exact ⟨node, ⟨.inl rfl, hreal⟩, by simpa using he⟩
      · rintro ⟨m, ⟨hm | ⟨hold, hb, hg⟩, -⟩, rfl⟩
        · cases hm; rfl
        · rw [c.node_eq_none_of_accepted hn hold hb] at hg
          simp at hg
    | none =>
      rw [Option.map_none, Option.none_or, c.retracts.entries, c.mirrors.entries]
      simp only [Option.map_eq_some_iff, Option.filter_eq_some_iff, decide_eq_true_eq]
      constructor
      · rintro ⟨⟨m, ⟨hg, hk⟩, rfl⟩, hfree⟩
        refine ⟨m, ⟨.inr ⟨fun ⟨q, hq, ho⟩ => hfree q hq ho, fun hb => hk ?_, hg⟩, hk⟩, rfl⟩
        obtain ⟨m', hg', hk'⟩ := (c.mirrors.placeholders id).mpr hb
        rw [hg] at hg'
        exact Option.some.inj hg' ▸ hk'
      · rintro ⟨m, ⟨hm | ⟨hold, -, hg⟩, hk⟩, rfl⟩
        · simp at hm
        · exact ⟨⟨m, ⟨hg, hk⟩, rfl⟩, fun q hq ho => hold ⟨q, hq, ho⟩⟩

theorem nodeUnit_written (c : Planned markers book g changes puts)
    (hw : (book.draftOn g markers changes).plan.written g = .ok g') (id : NodeId) :
    (book.draftOn g markers changes).book.nodeUnit[id]? = g'.nodes[id]?.bind Node.unit? := by
  rw [c.ends.same.nodeUnit]
  by_cases h : (book.draftOn g markers changes).book.pending.Awaits id
  · obtain ⟨name, hn⟩ := c.node_awaited hw h
    have hnone : (book.added markers changes).book.nodeUnit[id]? = none := by
      cases hu : (book.added markers changes).book.nodeUnit[id]? with
      | none => rfl
      | some p =>
        have hph := isPlaceholder_of_awaits c.ends.keyed h
        rw [NodeId.isPlaceholder_eq_false (c.unreserved_added id p hu)] at hph
        simp at hph
    rw [hnone, hn]
    simp [Node.unit?, Node.placeholder, Props.text?, Props.get_ofList_cons, Props.get_ofList_nil]
  · ext p
    rw [c.adds.nodeUnit]
    simp only [Option.bind_eq_some_iff, c.node_unawaited hw h]
    cases hn : (book.added markers changes).plan.upsertNodes[id]? with
    | some node =>
      have hbase : (book.base changes).book.nodeUnit[id]? = none := by
        cases hu : (book.base changes).book.nodeUnit[id]? with
        | none => rfl
        | some q =>
          obtain ⟨hu, hfree⟩ := (c.retracts.nodeUnit id q).mp hu
          obtain ⟨entry, he⟩ := c.mirrors.entry_of_nodeUnit hu
          have hnone := c.upsertNodes_eq_none he fun hold => hold.elim fun q hq => hfree q hq.1 hq.2
          rw [hn] at hnone
          simp at hnone
      rw [hbase, Option.or_none]
      constructor
      · intro hp
        exact ⟨node, .inl rfl, hp⟩
      · rintro ⟨m, hm | ⟨hold, hb, hg⟩, hp⟩
        · cases hm; exact hp
        · rw [c.node_eq_none_of_accepted hn hold hb] at hg
          simp at hg
    | none =>
      rw [Option.bind_none, Option.none_or, c.retracts.nodeUnit, c.mirrors.nodeUnit]
      simp only [Option.bind_eq_some_iff]
      constructor
      · rintro ⟨⟨m, hg, hp⟩, hfree⟩
        refine ⟨m, .inr ⟨fun hold => hold.elim fun q hq => hfree q hq.1 hq.2, fun hb => ?_, hg⟩, hp⟩
        have hu : book.nodeUnit[id]? = some p := by rw [c.mirrors.nodeUnit, hg]; exact hp
        have hph := isPlaceholder_of_awaits c.mirrors.keyed hb
        rw [NodeId.isPlaceholder_eq_false (c.mirrors.unreserved id p hu)] at hph
        simp at hph
      · rintro ⟨m, hm | ⟨hold, -, hg⟩, hp⟩
        · simp at hm
        · exact ⟨⟨m, hg, hp⟩, fun q hq ho => hold ⟨q, hq, ho⟩⟩

theorem placeholders_written (c : Planned markers book g changes puts)
    (hw : (book.draftOn g markers changes).plan.written g = .ok g') (id : NodeId) :
    (∃ node, g'.nodes[id]? = some node ∧ node.kind = .unknown) ↔
      (book.draftOn g markers changes).book.pending.Awaits id := by
  constructor
  · rintro ⟨node, hn, hk⟩
    by_contra h
    rcases (c.node_unawaited hw h).mp hn with hn | ⟨-, hb, hg⟩
    · exact c.real_of_accepted hn hk
    · exact hb ((c.mirrors.placeholders id).mp ⟨node, hg, hk⟩)
  · intro h
    obtain ⟨name, hn⟩ := c.node_awaited hw h
    exact ⟨_, hn, rfl⟩

theorem unowned_written (c : Planned markers book g changes puts)
    (hw : (book.draftOn g markers changes).plan.written g = .ok g') {id : NodeId} {node : Node}
    (hn : g'.nodes[id]? = some node) (hu : node.unit? = none) :
    (∃ name, node = .placeholder name) ∨
      ∃ key, node = Fragment.requirementNode key ∨ node = Fragment.incidentNode key := by
  by_cases h : (book.draftOn g markers changes).book.pending.Awaits id
  · obtain ⟨name, hn'⟩ := c.node_awaited hw h
    rw [hn] at hn'
    exact .inl ⟨name, Option.some.inj hn'⟩
  · rcases (c.node_unawaited hw h).mp hn with hn | ⟨-, -, hg⟩
    · rcases c.accepted_cases hn with ⟨p, -, -, howned⟩ | hshared
      · rw [howned.unit] at hu
        simp at hu
      · exact .inr hshared
    · exact c.mirrors.unowned id node hg hu

/-- **A call keeps the mirror.** -/
theorem mirrors_written (c : Planned markers book g changes puts)
    (hw : (book.draftOn g markers changes).plan.written g = .ok g') :
    (book.draftOn g markers changes).book.Mirrors g' where
  node_id id node h := by
    rw [Plan.get_written_nodes c.keyed_plan hw] at h
    rcases Option.or_eq_some_iff.mp h with h | ⟨-, h⟩
    · exact c.keyed_plan.nodes id node h
    · split at h
      · simp at h
      · exact c.mirrors.node_id id node h
  edge_key k edge h := Plan.edge_key_written c.keyed_plan c.mirrors.edge_key hw h
  entries := c.entries_written hw
  sound := by rw [c.ends.same.index]; exact c.sound_added
  nodeUnit := c.nodeUnit_written hw
  owns p id := by rw [c.ends.same.owns, c.ends.same.nodeUnit, c.owns_added]
  unreserved := c.ends.same.unreserved c.unreserved_added
  unowned id node h := c.unowned_written hw h
  placeholders := c.placeholders_written hw
  holds := c.holds_written hw
  conforms k edge h := c.conforms_written hw h
  keyed := c.ends.keyed
  waiting key r h := c.waiting_written hw h
  single k k' edge edge' r r' t t' l l' h h' he he' hkey := c.single_written hw h h' he he' hkey

/-! ## Success -/

/-- A node of the new index, or a placeholder in use, is there to be the end of an edge. -/
theorem end_known (c : Planned markers book g changes puts) {id : NodeId}
    (h : (book.added markers changes).book.index.contains id = true ∨
      (book.draftOn g markers changes).book.pending.Awaits id) :
    (book.draftOn g markers changes).plan.upsertNodes.contains id = true ∨
      (id ∉ (book.draftOn g markers changes).plan.deleteNodes ∧ g.nodes.contains id = true) := by
  by_cases ha : (book.draftOn g markers changes).book.pending.Awaits id
  · by_cases hb : book.pending.Awaits id
    · obtain ⟨node, hn, -⟩ := (c.mirrors.placeholders id).mpr hb
      refine .inr ⟨fun hm => ?_, (Maps.contains_iff _ _).mpr ⟨node, hn⟩⟩
      exact (c.mem_deleteNodes.mp hm).elim (c.not_gone_of_awaits c.mirrors.keyed hb) fun hn => hn.2 ha
    · obtain ⟨name, -, hn⟩ := c.ends.appear id ha
        fun hm => hb ((PendingQueue.mem_placeholderIds _ _).mp hm)
      exact .inl ((Maps.contains_iff _ _).mpr ⟨_, hn⟩)
  · have hentry := h.resolve_right ha
    have hb : ¬ book.pending.Awaits id := fun hb => by
      have hph := isPlaceholder_of_awaits c.mirrors.keyed hb
      rw [c.isPlaceholder_of_entry hentry] at hph
      simp at hph
    have hothers := c.ends.others id
      (iff_of_false ha fun hm => hb ((PendingQueue.mem_placeholderIds _ _).mp hm))
    obtain ⟨entry, he⟩ := (Maps.contains_iff _ _).mp hentry
    rw [c.adds.entries] at he
    cases hn : (book.added markers changes).plan.upsertNodes[id]? with
    | some node =>
      rw [hn] at hothers
      exact .inl ((Maps.contains_iff _ _).mpr ⟨node, hothers⟩)
    | none =>
      rw [hn, Option.map_none, Option.none_or] at he
      obtain ⟨he, hfree⟩ := (c.retracts.entries id entry).mp he
      obtain ⟨node, hg, -⟩ := c.mirrors.node_of_entry he
      refine .inr ⟨fun hm => ?_, (Maps.contains_iff _ _).mpr ⟨node, hg⟩⟩
      rcases c.mem_deleteNodes.mp hm with hgone | ⟨hb', -⟩
      · obtain ⟨q, hq, ho⟩ := c.old_of_gone hgone
        exact hfree q hq ho
      · exact hb hb'

/-- The plan of a call can be written. -/
theorem exists_written (c : Planned markers book g changes puts) :
    ∃ g', (book.draftOn g markers changes).plan.written g = .ok g' := by
  refine Plan.exists_written c.keyed_plan ?_ ?_
  · intro id node old hn hdel hg
    by_cases ha : (book.draftOn g markers changes).book.pending.Awaits id
    · by_cases hb : book.pending.Awaits id
      · rw [c.ends.others id (iff_of_true ha ((PendingQueue.mem_placeholderIds _ _).mpr hb)),
          c.upsertNodes_eq_none_of_awaits c.mirrors.keyed hb] at hn
        simp at hn
      · refine absurd ?_ hb
        obtain ⟨name, hid, hn'⟩ := c.ends.appear id ha
          fun hm => hb ((PendingQueue.mem_placeholderIds _ _).mp hm)
        refine (c.mirrors.placeholders id).mp ⟨old, hg, ?_⟩
        by_contra hk
        have hph := isPlaceholder_of_awaits c.ends.keyed ha
        rw [(c.mirrors.real id _ (c.mirrors.entry_of_node hg hk)).2] at hph
        simp at hph
    · by_cases hb : book.pending.Awaits id
      · rw [c.ends.disappear id ((PendingQueue.mem_placeholderIds _ _).mpr hb) ha] at hn
        simp at hn
      · rw [c.ends.others id
          (iff_of_false ha fun hm => hb ((PendingQueue.mem_placeholderIds _ _).mp hm))] at hn
        have hgone : id ∉ (book.added markers changes).goneNodes := fun hm =>
          hdel (c.mem_deleteNodes.mpr (.inl hm))
        have hk : old.kind ≠ .unknown := fun hk => hb ((c.mirrors.placeholders id).mp ⟨old, hg, hk⟩)
        have hbook : book.index.kind? id = some old.kind := by
          rw [NameIndex.kind?, c.mirrors.entry_of_node hg hk, Option.map_some, IndexEntry.ofNode_kind]
        have hkind := c.kind?_of_not_gone hbook hgone
        have hid := c.adds.named id node hn
        subst hid
        rw [c.adds.kind?_of_accepted hn] at hkind
        exact (Option.some.inj hkind).symm
  · intro k edge he id hid
    have hkey := c.keyed_plan.edges k edge he
    subst hkey
    refine c.end_known ?_
    rcases c.planned_cases he with hown | ⟨r, -, -, t, kind, href⟩
    · exact .inl (OwnEdge.known (c.adds.edges _ edge hown).2.1 hid)
    · rw [← c.ends.same.index]
      exact RefEdge.known href hid

theorem validate_placeholder (name : String) : (Node.placeholder name).validate = .ok () := by
  have hid : ((NodeId.placeholder name).text.isEmpty) = false := by
    simp [NodeId.placeholder, NodeId.placeholderMark]
  simp [Node.validate, Node.placeholder, NodeKind.requiredProps, Node.hasProp, Props.get_ofList_cons,
    Props.get_ofList_nil, PropType.admits, hid]

/-- A node of a plan is valid, or it is one of those that a unit brings. -/
theorem planned_node (c : Planned markers book g changes puts) {node : Node}
    (h : node ∈ (book.draftOn g markers changes).plan.upsertNodes.values) :
    node.validate = .ok () ∨
      ∃ p, .put p ∈ changes ∧ node ∈ (Fragment.build markers p).nodes ∧
        Fragment.Owned p.unit.path node := by
  obtain ⟨id, hn⟩ := (Maps.mem_values _ _).mp h
  by_cases hiff : (book.draftOn g markers changes).book.pending.Awaits id ↔
      id ∈ book.pending.placeholderIds
  · rw [c.ends.others id hiff] at hn
    rcases c.accepted_cases hn with ⟨p, hp, hf, howned⟩ | ⟨key, rfl | rfl⟩
    · exact .inr ⟨p, (c.mem_puts p).mp hp, hf, howned⟩
    · left
      simp [Node.validate, Fragment.requirementNode, NodeKind.requiredProps, NodeId.requirement_text]
    · left
      simp [Node.validate, Fragment.incidentNode, NodeKind.requiredProps, NodeId.incident_text]
  · by_cases ha : (book.draftOn g markers changes).book.pending.Awaits id
    · obtain ⟨name, -, hn'⟩ := c.ends.appear id ha fun hm => hiff (iff_of_true ha hm)
      rw [hn] at hn'
      rw [Option.some.inj hn']
      exact .inl (validate_placeholder name)
    · have hbefore : id ∈ book.pending.placeholderIds := by
        by_contra hb
        exact hiff (iff_of_false ha hb)
      rw [c.ends.disappear id hbefore ha] at hn
      simp at hn

/-- All nodes of a plan keep what their kinds promise, if no unit claims an empty id. -/
theorem valid_plan (c : Planned markers book g changes puts)
    (hids : ∀ p, .put p ∈ changes → ∀ node ∈ (Fragment.build markers p).nodes, node.id.text ≠ "") :
    (book.draftOn g markers changes).plan.Valid := by
  intro node hnode
  rcases c.planned_node hnode with hvalid | ⟨p, hp, hf, howned⟩
  · exact hvalid
  · exact howned.validate (hids p hp node hf)

end Planned

end Bookkeeping

end CodeAtlas
