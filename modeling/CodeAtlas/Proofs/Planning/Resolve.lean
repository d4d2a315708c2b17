import CodeAtlas.Proofs.PendingQueue
import CodeAtlas.Proofs.Planning.Vanish

/-!
# Resolving references

The last things a draft does are about references. Waiting references whose target is known now get
their edge in exchange for the one to the placeholder; new references get an edge to their target
or, for want of one, to a placeholder where they wait. Both come down to the same edge, the one
that a reference has in a given index (`NameIndex.standing`).

Neither phase touches the index, so that what a list of references does to the plan, the queue and the
units can be said of the whole list at once.
-/

set_option autoImplicit false

namespace CodeAtlas

open Std

/-- The edge that a reference has: to its target if the index knows it, else to its placeholder. -/
def NameIndex.standing (ix : NameIndex) (r : Reference) : Edge :=
  match ix.resolve? r with
  | some (target, kind) => r.edgeTo target kind
  | none => r.placeholderEdge

namespace NameIndex

/-- Whether an index knows the target of a reference. -/
def resolves (ix : NameIndex) (r : Reference) : Bool := (ix.resolve? r).isSome

@[simp] theorem standing_unit? (ix : NameIndex) (r : Reference) :
    (ix.standing r).unit? = some r.unit := by
  unfold standing
  split <;> simp

theorem standing_of_resolve? {ix : NameIndex} {r : Reference} {target : NodeId} {kind : NodeKind}
    (h : ix.resolve? r = some (target, kind)) : ix.standing r = r.edgeTo target kind := by
  simp [standing, h]

theorem standing_of_not_resolves {ix : NameIndex} {r : Reference} (h : ix.resolves r = false) :
    ix.standing r = r.placeholderEdge := by
  have hnone : ix.resolve? r = none := by simpa [resolves] using h
  simp [standing, hnone]

end NameIndex

namespace Bookkeeping

/-! ## Remembered edges -/

/-- Two bookkeepings that differ in the queue and in the edges of units at most. -/
structure SameNodes (a b : Bookkeeping) : Prop where
  index : a.index = b.index
  nodeUnit : a.nodeUnit = b.nodeUnit
  units : ∀ p : String, a.units[p]?.map (fun unit => (unit.hash, unit.nodes)) =
    b.units[p]?.map (fun unit => (unit.hash, unit.nodes))

theorem SameNodes.refl (book : Bookkeeping) : SameNodes book book := ⟨rfl, rfl, fun _ => rfl⟩

theorem SameNodes.trans {a b c : Bookkeeping} (hab : SameNodes a b) (hbc : SameNodes b c) :
    SameNodes a c :=
  ⟨hab.index.trans hbc.index, hab.nodeUnit.trans hbc.nodeUnit,
    fun p => (hab.units p).trans (hbc.units p)⟩

theorem SameNodes.contains {a b : Bookkeeping} (h : SameNodes a b) (p : String) :
    a.units.contains p = b.units.contains p := by
  have hp := congrArg Option.isSome (h.units p)
  simpa only [Option.isSome_map, ← ExtTreeMap.contains_eq_isSome_getElem?] using hp

theorem SameNodes.owns {a b : Bookkeeping} (h : SameNodes a b) (p : String) (id : NodeId) :
    a.Owns p id ↔ b.Owns p id := by
  have hp := h.units p
  unfold Owns
  cases ha : a.units[p]? <;> cases hb : b.units[p]? <;> simp_all

theorem sameNodes_modifyUnit (book : Bookkeeping) (path : String) {f : UnitState → UnitState}
    (hf : ∀ unit, (f unit).hash = unit.hash ∧ (f unit).nodes = unit.nodes) :
    SameNodes (book.modifyUnit path f) book := by
  refine ⟨rfl, rfl, fun p => ?_⟩
  simp only [modifyUnit, Maps.get_modify]
  split
  next => cases book.units[p]? <;> simp [hf]
  next => rfl

theorem sameNodes_addEdge (book : Bookkeeping) (path : String) (key : EdgeKey) :
    SameNodes (book.addEdge path key) book :=
  sameNodes_modifyUnit book path fun _ => ⟨rfl, rfl⟩

theorem sameNodes_eraseEdge (book : Bookkeeping) (path : String) (key : EdgeKey) :
    SameNodes (book.eraseEdge path key) book :=
  sameNodes_modifyUnit book path fun _ => ⟨rfl, rfl⟩

theorem holds_addEdge (book : Bookkeeping) (path p : String) (key k : EdgeKey) :
    (book.addEdge path key).Holds p k ↔
      book.Holds p k ∨ (path = p ∧ key = k ∧ book.units.contains p = true) := by
  unfold Holds addEdge modifyUnit
  rw [Maps.get_modify]
  by_cases hp : path = p
  · subst hp
    cases hu : book.units[path]? with
    | none => simp [(Maps.contains_eq_false_iff _ _).mpr hu]
    | some unit =>
      simp [(Maps.contains_iff _ _).mpr ⟨unit, hu⟩, ExtTreeSet.mem_insert, or_comm]
  · simp [hp]

theorem holds_eraseEdge (book : Bookkeeping) (path p : String) (key k : EdgeKey) :
    (book.eraseEdge path key).Holds p k ↔ book.Holds p k ∧ ¬ (path = p ∧ key = k) := by
  unfold Holds eraseEdge modifyUnit
  rw [Maps.get_modify]
  by_cases hp : path = p
  · subst hp
    cases hu : book.units[path]? with
    | none => simp
    | some unit => simp [ExtTreeSet.mem_erase, and_comm]
  · simp [hp]

theorem sameNodes_foldl_eraseEdge (opened : List Draft.Reopening) (book : Bookkeeping) :
    SameNodes (opened.foldl (fun book o => book.eraseEdge o.unit o.key) book) book := by
  induction opened generalizing book with
  | nil => exact .refl book
  | cons o rest ih => exact (ih _).trans (sameNodes_eraseEdge book o.unit o.key)

theorem holds_foldl_eraseEdge (opened : List Draft.Reopening) (book : Bookkeeping) (p : String)
    (k : EdgeKey) :
    (opened.foldl (fun book o => book.eraseEdge o.unit o.key) book).Holds p k ↔
      book.Holds p k ∧ ∀ o ∈ opened, ¬ (o.unit = p ∧ o.key = k) := by
  induction opened generalizing book with
  | nil => simp
  | cons o rest ih =>
    rw [List.foldl_cons, ih, holds_eraseEdge, List.forall_mem_cons, and_assoc]

end Bookkeeping

namespace Draft

/-! ## New references -/

theorem place_eq (d : Draft) (r : Reference) :
    d.place r =
      { d with
        book := Bookkeeping.addEdge
          { d.book with
            pending := if d.book.index.resolves r then d.book.pending else d.book.pending.insert r }
          r.unit (d.book.index.standing r).key
        plan := d.plan.putEdge (d.book.index.standing r) } := by
  unfold place NameIndex.standing NameIndex.resolves
  cases d.book.index.resolve? r with
  | none => rfl
  | some found => rfl

/-- What placing some references has done to a draft. -/
structure Places (refs : List Reference) (d d' : Draft) : Prop where
  same : d'.book.SameNodes d.book
  pending : ∀ key : PendingKey, d'.book.pending.waiting[key]? = d.book.pending.waiting[key]?.or
    ((refs.filter (!d.book.index.resolves ·)).find? (PendingQueue.keyOf · = key))
  upsertEdges : ∀ k : EdgeKey, d'.plan.upsertEdges[k]? =
    d.plan.upsertEdges[k]?.or ((refs.map d.book.index.standing).find? (·.key = k))
  deleteEdges : ∀ k, k ∈ d'.plan.deleteEdges ↔
    k ∈ d.plan.deleteEdges ∧ ∀ r ∈ refs, (d.book.index.standing r).key ≠ k
  holds : ∀ p k, d'.book.Holds p k ↔ d.book.Holds p k ∨
    ∃ r ∈ refs, r.unit = p ∧ (d.book.index.standing r).key = k ∧ d.book.units.contains p = true
  upsertNodes : d'.plan.upsertNodes = d.plan.upsertNodes
  deleteNodes : d'.plan.deleteNodes = d.plan.deleteNodes

theorem places_nil (d : Draft) : Places [] d d := by
  constructor
  case same => exact .refl _
  all_goals simp

theorem sameNodes_place (d : Draft) (r : Reference) : (d.place r).book.SameNodes d.book := by
  rw [place_eq]
  refine (Bookkeeping.sameNodes_addEdge _ _ _).trans ⟨rfl, rfl, fun _ => rfl⟩

theorem get_pending_place (d : Draft) (r : Reference) (key : PendingKey) :
    (d.place r).book.pending.waiting[key]? = d.book.pending.waiting[key]?.or
      (if d.book.index.resolves r = false ∧ PendingQueue.keyOf r = key then some r else none) := by
  have hpending : (d.place r).book.pending =
      if d.book.index.resolves r then d.book.pending else d.book.pending.insert r := by
    rw [place_eq]; rfl
  rw [hpending]
  cases hr : d.book.index.resolves r with
  | true => simp
  | false =>
    simp only [Bool.false_eq_true, if_false, PendingQueue.insert, Maps.get_insertIfNew, true_and]
    by_cases hk : PendingQueue.keyOf r = key
    · cases d.book.pending.waiting[key]? <;> simp [hk]
    · simp [hk]

theorem holds_place (d : Draft) (r : Reference) (p : String) (k : EdgeKey) :
    (d.place r).book.Holds p k ↔ d.book.Holds p k ∨
      (r.unit = p ∧ (d.book.index.standing r).key = k ∧ d.book.units.contains p = true) := by
  rw [place_eq]
  exact Bookkeeping.holds_addEdge _ _ _ _ _

theorem plan_place (d : Draft) (r : Reference) :
    (d.place r).plan = d.plan.putEdge (d.book.index.standing r) := by
  rw [place_eq]

theorem Places.cons {r : Reference} {rest : List Reference} {d d' : Draft}
    (h : Places rest (d.place r) d') : Places (r :: rest) d d' := by
  have same := sameNodes_place d r
  have hplan := plan_place d r
  constructor
  case same => exact h.same.trans same
  case pending =>
    intro key
    rw [h.pending, get_pending_place, same.index, Option.or_assoc]
    congr 1
    cases hr : d.book.index.resolves r with
    | true => simp [hr]
    | false =>
      by_cases hk : PendingQueue.keyOf r = key
      · simp [hr, hk]
      · simp [hr, hk]
  case upsertEdges =>
    intro k
    rw [h.upsertEdges, hplan, get_upsertEdges_putEdge, same.index]
    by_cases hk : (d.book.index.standing r).key = k
    · cases d.plan.upsertEdges[k]? <;> simp [hk]
    · simp [hk]
  case deleteEdges =>
    intro k
    rw [h.deleteEdges, hplan, mem_deleteEdges_putEdge, same.index, List.forall_mem_cons]
    constructor
    · rintro ⟨⟨hne, hk⟩, hrest⟩
      exact ⟨hk, hne, hrest⟩
    · rintro ⟨hk, hne, hrest⟩
      exact ⟨⟨hne, hk⟩, hrest⟩
  case holds =>
    intro p k
    rw [h.holds, same.index, same.contains, holds_place, or_assoc]
    simp only [List.mem_cons, exists_eq_or_imp]
  case upsertNodes => rw [h.upsertNodes, hplan]; rfl
  case deleteNodes => rw [h.deleteNodes, hplan]; rfl

theorem places_foldl (refs : List Reference) (d : Draft) : Places refs d (refs.foldl place d) := by
  induction refs generalizing d with
  | nil => exact places_nil d
  | cons r rest ih => exact (ih (d.place r)).cons

/-! ## Waiting references -/

theorem settle_eq (d : Draft) (r : Reference) :
    d.settle r =
      if d.book.index.resolves r then
        { d with
          book := (Bookkeeping.eraseEdge { d.book with pending := d.book.pending.erase r } r.unit
            r.placeholderEdge.key).addEdge r.unit (d.book.index.standing r).key
          plan := (d.plan.dropEdge r.placeholderEdge.key).putEdge (d.book.index.standing r) }
      else d := by
  unfold settle NameIndex.standing NameIndex.resolves
  cases d.book.index.resolve? r with
  | none => rfl
  | some found => rfl

/-- Edges to placeholders and edges to known targets are different edges. -/
def Parted (ix : NameIndex) (refs : List Reference) : Prop :=
  ∀ r ∈ refs, ∀ s ∈ refs, ix.resolves r = true → ix.resolves s = true →
    r.placeholderEdge.key ≠ (ix.standing s).key

/-- What settling some waiting references has done to a draft. -/
structure Settles (refs : List Reference) (d d' : Draft) : Prop where
  same : d'.book.SameNodes d.book
  pending : ∀ key : PendingKey, d'.book.pending.waiting[key]? =
    if key ∈ (refs.filter d.book.index.resolves).map PendingQueue.keyOf then none
    else d.book.pending.waiting[key]?
  upsertEdges : ∀ k : EdgeKey, d'.plan.upsertEdges[k]? =
    (if k ∈ (refs.filter d.book.index.resolves).map (·.placeholderEdge.key) then none
      else d.plan.upsertEdges[k]?).or
    (((refs.filter d.book.index.resolves).map d.book.index.standing).find? (·.key = k))
  deleteEdges : ∀ k, k ∈ d'.plan.deleteEdges ↔
    (k ∈ (refs.filter d.book.index.resolves).map (·.placeholderEdge.key) ∨ k ∈ d.plan.deleteEdges) ∧
    ∀ r ∈ refs.filter d.book.index.resolves, (d.book.index.standing r).key ≠ k
  holds : ∀ p k, d'.book.Holds p k ↔
    (d.book.Holds p k ∧
      ∀ r ∈ refs.filter d.book.index.resolves, ¬ (r.unit = p ∧ r.placeholderEdge.key = k)) ∨
    ∃ r ∈ refs.filter d.book.index.resolves, r.unit = p ∧ (d.book.index.standing r).key = k ∧
      d.book.units.contains p = true
  upsertNodes : d'.plan.upsertNodes = d.plan.upsertNodes
  deleteNodes : d'.plan.deleteNodes = d.plan.deleteNodes
  refs : d'.refs = d.refs

theorem settles_nil (d : Draft) : Settles [] d d := by
  constructor
  case same => exact .refl _
  all_goals simp

theorem sameNodes_settle (d : Draft) (r : Reference) : (d.settle r).book.SameNodes d.book := by
  rw [settle_eq]
  split
  · exact ((Bookkeeping.sameNodes_addEdge _ _ _).trans (Bookkeeping.sameNodes_eraseEdge _ _ _)).trans
      ⟨rfl, rfl, fun _ => rfl⟩
  · exact .refl _

theorem get_pending_settle (d : Draft) (r : Reference) (key : PendingKey) :
    (d.settle r).book.pending.waiting[key]? =
      if d.book.index.resolves r = true ∧ PendingQueue.keyOf r = key then none
      else d.book.pending.waiting[key]? := by
  rw [settle_eq]
  by_cases hr : d.book.index.resolves r = true
  · rw [if_pos hr]
    show (d.book.pending.erase r).waiting[key]? = _
    simp [PendingQueue.erase, ExtTreeMap.getElem?_erase, hr]
  · rw [if_neg hr, if_neg fun h => hr h.1]

theorem plan_settle {d : Draft} {r : Reference} (hr : d.book.index.resolves r = true) :
    (d.settle r).plan =
      (d.plan.dropEdge r.placeholderEdge.key).putEdge (d.book.index.standing r) := by
  rw [settle_eq, if_pos hr]

theorem holds_settle {d : Draft} {r : Reference} (hr : d.book.index.resolves r = true) (p : String)
    (k : EdgeKey) :
    (d.settle r).book.Holds p k ↔
      (d.book.Holds p k ∧ ¬ (r.unit = p ∧ r.placeholderEdge.key = k)) ∨
      (r.unit = p ∧ (d.book.index.standing r).key = k ∧ d.book.units.contains p = true) := by
  rw [settle_eq, if_pos hr]
  refine (Bookkeeping.holds_addEdge _ _ _ _ _).trans ?_
  rw [Bookkeeping.holds_eraseEdge, (Bookkeeping.sameNodes_eraseEdge _ _ _).contains]
  rfl

theorem refs_settle (d : Draft) (r : Reference) : (d.settle r).refs = d.refs := by
  rw [settle_eq]
  split <;> rfl

/-- What settling one reference and placing one keeps is kept when all of them are resolved. -/
theorem resolveAll_induction {P : Draft → Prop} {d : Draft} (start : P d)
    (settle : ∀ (x : Draft) (r : Reference), P x → P (x.settle r))
    (place : ∀ (x : Draft) (r : Reference), P x → P (x.place r)) : P d.resolveAll := by
  unfold resolveAll
  dsimp only
  refine List.foldlRecOn _ Draft.place ?_ fun x hx r _ => place x r hx
  exact List.foldlRecOn _ Draft.settle start fun x hx r _ => settle x r hx

theorem sameNodes_resolveAll (d : Draft) : d.resolveAll.book.SameNodes d.book :=
  resolveAll_induction (P := fun x => x.book.SameNodes d.book) (.refl _)
    (fun x r hx => (sameNodes_settle x r).trans hx) fun x r hx => (sameNodes_place x r).trans hx

theorem get_upsertEdges_dropEdge (plan : Plan) (key k : EdgeKey) :
    (plan.dropEdge key).upsertEdges[k]? = if key = k then none else plan.upsertEdges[k]? := by
  simp [Plan.dropEdge, ExtTreeMap.getElem?_erase]

theorem mem_deleteEdges_dropEdge (plan : Plan) (key k : EdgeKey) :
    k ∈ (plan.dropEdge key).deleteEdges ↔ key = k ∨ k ∈ plan.deleteEdges := by
  simp [Plan.dropEdge, ExtTreeSet.mem_insert]

theorem Settles.cons_resolved {r : Reference} {rest : List Reference} {d d' : Draft}
    (hr : d.book.index.resolves r = true) (parted : Parted d.book.index (r :: rest))
    (h : Settles rest (d.settle r) d') : Settles (r :: rest) d d' := by
  have same := sameNodes_settle d r
  obtain ⟨old, hold⟩ : ∃ old, old = r.placeholderEdge.key := ⟨_, rfl⟩
  obtain ⟨new, hnew⟩ : ∃ new, new = d.book.index.standing r := ⟨_, rfl⟩
  have hplan : (d.settle r).plan = (d.plan.dropEdge old).putEdge new := by
    rw [plan_settle hr, hold, hnew]
  have hfilter : (r :: rest).filter d.book.index.resolves = r :: rest.filter d.book.index.resolves :=
    List.filter_cons_of_pos hr
  have hne : old ≠ new.key := by
    rw [hold, hnew]
    exact parted r List.mem_cons_self r List.mem_cons_self hr hr
  -- The new edge of the first reference is not given up by any of the others.
  have hkept : new.key ∉ (rest.filter d.book.index.resolves).map (·.placeholderEdge.key) := by
    intro hm
    obtain ⟨s, hs, hkey⟩ := List.mem_map.mp hm
    obtain ⟨hs, hsr⟩ := List.mem_filter.mp hs
    rw [hnew] at hkey
    exact parted s (List.mem_cons_of_mem r hs) r List.mem_cons_self hsr hr hkey
  constructor
  case same => exact h.same.trans same
  case pending =>
    intro key
    rw [h.pending, get_pending_settle, same.index, hfilter, List.map_cons]
    simp only [hr, true_and]
    generalize (rest.filter d.book.index.resolves).map PendingQueue.keyOf = keys
    by_cases hk : PendingQueue.keyOf r = key
    · simp [hk]
    · have hk' : key ≠ PendingQueue.keyOf r := fun he => hk he.symm
      simp [hk, hk']
  case upsertEdges =>
    intro k
    rw [h.upsertEdges, hplan, get_upsertEdges_putEdge, get_upsertEdges_dropEdge, same.index, hfilter,
      List.map_cons, List.map_cons, List.find?_cons, ← hold, ← hnew]
    generalize (rest.filter d.book.index.resolves).map (·.placeholderEdge.key) = dropped at hkept
    generalize ((rest.filter d.book.index.resolves).map d.book.index.standing).find? _ = found
    by_cases hk : new.key = k
    · subst hk
      have hk' : new.key ≠ old := fun he => hne he.symm
      cases d.plan.upsertEdges[new.key]? <;> simp [hkept, hne, hk']
    · by_cases ho : old = k
      · simp [hk, ho]
      · have ho' : k ≠ old := fun he => ho he.symm
        simp [hk, ho, ho']
  case deleteEdges =>
    intro k
    rw [h.deleteEdges, hplan, mem_deleteEdges_putEdge, mem_deleteEdges_dropEdge, same.index, hfilter,
      List.map_cons, List.mem_cons, List.forall_mem_cons, ← hold, ← hnew]
    constructor
    · rintro ⟨hk | ⟨hne', hk⟩, hrest⟩
      · refine ⟨.inl (.inr hk), fun he => hkept (he ▸ hk), hrest⟩
      · rcases hk with hk | hk
        · exact ⟨.inl (.inl hk.symm), hne', hrest⟩
        · exact ⟨.inr hk, hne', hrest⟩
    · rintro ⟨(hk | hk) | hk, hne', hrest⟩
      · exact ⟨.inr ⟨hne', .inl hk.symm⟩, hrest⟩
      · exact ⟨.inl hk, hrest⟩
      · exact ⟨.inr ⟨hne', .inr hk⟩, hrest⟩
  case holds =>
    intro p k
    rw [h.holds, holds_settle hr, same.index, same.contains, hfilter, List.forall_mem_cons, ← hold]
    simp only [List.mem_cons, exists_eq_or_imp, ← hnew]
    constructor
    · rintro (⟨⟨hk, hne'⟩ | hk, hrest⟩ | hk)
      · exact .inl ⟨hk, hne', hrest⟩
      · exact .inr (.inl hk)
      · exact .inr (.inr hk)
    · rintro (⟨hk, hne', hrest⟩ | ⟨hu, hk, hc⟩ | hk)
      · exact .inl ⟨.inl ⟨hk, hne'⟩, hrest⟩
      · refine .inl ⟨.inr ⟨hu, hk, hc⟩, fun s hs hsk => hkept ?_⟩
        exact List.mem_map.mpr ⟨s, hs, hsk.2.trans hk.symm⟩
      · exact .inr hk
  case upsertNodes => rw [h.upsertNodes, hplan]; rfl
  case deleteNodes => rw [h.deleteNodes, hplan]; rfl
  case refs => rw [h.refs, refs_settle]

theorem settles_foldl (refs : List Reference) (d : Draft) (parted : Parted d.book.index refs) :
    Settles refs d (refs.foldl settle d) := by
  induction refs generalizing d with
  | nil => exact settles_nil d
  | cons r rest ih =>
    have hrest : Parted (d.settle r).book.index rest := by
      rw [(sameNodes_settle d r).index]
      exact fun a ha b hb => parted a (List.mem_cons_of_mem r ha) b (List.mem_cons_of_mem r hb)
    have h := ih (d.settle r) hrest
    cases hr : d.book.index.resolves r with
    | true => exact h.cons_resolved hr parted
    | false =>
      have hsame : d.settle r = d := by rw [settle_eq, hr]; rfl
      rw [hsame] at h
      have hfilter : (r :: rest).filter d.book.index.resolves =
          rest.filter d.book.index.resolves :=
        List.filter_cons_of_neg (by simp [hr])
      rw [List.foldl_cons, hsame]
      obtain ⟨same, pending, upsertEdges, deleteEdges, holds, upsertNodes, deleteNodes, hrefs⟩ := h
      rw [← hfilter] at pending upsertEdges deleteEdges holds
      exact ⟨same, pending, upsertEdges, deleteEdges, holds, upsertNodes, deleteNodes, hrefs⟩

/-! ## Placeholders -/

/-- What following the queue has done to a draft. -/
structure Follows (before : List NodeId) (d d' : Draft) : Prop where
  book : d'.book = d.book
  upsertEdges : d'.plan.upsertEdges = d.plan.upsertEdges
  deleteEdges : d'.plan.deleteEdges = d.plan.deleteEdges
  deleteNodes : ∀ id, id ∈ d'.plan.deleteNodes ↔
    id ∈ d.plan.deleteNodes ∨ (id ∈ before ∧ ¬ d.book.pending.Awaits id)
  appear : ∀ id, d.book.pending.Awaits id → id ∉ before → ∃ name, NodeId.placeholder name = id ∧
    d'.plan.upsertNodes[id]? = some (.placeholder name)
  disappear : ∀ id ∈ before, ¬ d.book.pending.Awaits id → d'.plan.upsertNodes[id]? = none
  others : ∀ id, (d.book.pending.Awaits id ↔ id ∈ before) →
    d'.plan.upsertNodes[id]? = d.plan.upsertNodes[id]?

theorem foldl_putNode (nodes : List Node) (plan : Plan) :
    nodes.foldl Plan.putNode plan =
      { plan with upsertNodes := nodes.foldl (fun m node => m.insert node.id node) plan.upsertNodes } := by
  induction nodes generalizing plan with
  | nil => rfl
  | cons node rest ih => rw [List.foldl_cons, ih]; rfl

/-- Plans the deletion of a node and nothing else for it. -/
def discard (plan : Plan) (id : NodeId) : Plan :=
  { plan.deleteNode id with upsertNodes := plan.upsertNodes.erase id }

theorem foldl_discard (ids : List NodeId) (plan : Plan) :
    ids.foldl discard plan =
      { plan with
        upsertNodes := ids.foldl (fun m id => m.erase id) plan.upsertNodes
        deleteNodes := ids.foldl (fun m id => m.insert id) plan.deleteNodes } := by
  induction ids generalizing plan with
  | nil => rfl
  | cons id rest ih => rw [List.foldl_cons, ih]; rfl

theorem followQueue_plan (d : Draft) (before : List NodeId) :
    (d.followQueue before).plan =
      (before.filter fun id => !d.book.pending.placeholders.any (·.placeholder = id)).foldl discard
        (((d.book.pending.placeholders.filter fun p => !before.contains p.placeholder).map
          fun p => Node.placeholder p.awaited).foldl Plan.putNode d.plan) := by
  rw [List.foldl_map]
  rfl

theorem follows_followQueue {d : Draft} (keyed : d.book.pending.Keyed) (before : List NodeId) :
    Follows before d (d.followQueue before) := by
  let after := d.book.pending.placeholders
  let fresh := (after.filter fun p => !before.contains p.placeholder).map
    fun p => Node.placeholder p.awaited
  let gone := before.filter fun id => !after.any (·.placeholder = id)
  have hafter : ∀ id, (∃ u ∈ after, u.placeholder = id) ↔ d.book.pending.Awaits id := by
    intro id
    rw [← PendingQueue.mem_placeholderIds, ← PendingQueue.map_placeholder_placeholders keyed,
      List.mem_map]
  have hplan : (d.followQueue before).plan = gone.foldl discard (fresh.foldl Plan.putNode d.plan) :=
    followQueue_plan d before
  rw [foldl_putNode, foldl_discard] at hplan
  have hgone : ∀ id, id ∈ gone ↔ id ∈ before ∧ ¬ d.book.pending.Awaits id := by
    intro id
    simp only [gone, List.mem_filter, ← hafter, Bool.not_eq_true', List.any_eq_false,
      decide_eq_true_eq, not_exists, not_and]
  have hfresh : ∀ node ∈ fresh, ∃ name, node = .placeholder name ∧
      d.book.pending.Awaits node.id ∧ node.id ∉ before := by
    intro node hn
    obtain ⟨u, hu, rfl⟩ := List.mem_map.mp hn
    obtain ⟨hu, hb⟩ := List.mem_filter.mp hu
    have hid : (Node.placeholder u.awaited).id = u.placeholder :=
      PendingQueue.placeholder_awaited hu
    refine ⟨u.awaited, rfl, (hafter _).mp ⟨u, hu, hid.symm⟩, ?_⟩
    rw [hid]
    simpa using hb
  have hget : ∀ id : NodeId, (d.followQueue before).plan.upsertNodes[id]? =
      if id ∈ gone then none
      else (fresh.foldl (fun m node => m.insert node.id node) d.plan.upsertNodes)[id]? := by
    intro id
    rw [hplan]
    exact Maps.get_foldl_erase gone _ id
  constructor
  case book => rfl
  case upsertEdges => rw [hplan]
  case deleteEdges => rw [hplan]
  case deleteNodes =>
    intro id
    rw [hplan, ← hgone]
    simpa using Maps.mem_foldl_insert (fun id => id) gone d.plan.deleteNodes id
  case appear =>
    intro id hw hb
    rw [hget, if_neg fun hm => ((hgone id).mp hm).2 hw]
    obtain ⟨u, hu, hid⟩ := (hafter id).mpr hw
    have hmem : Node.placeholder u.awaited ∈ fresh := by
      refine List.mem_map.mpr ⟨u, List.mem_filter.mpr ⟨hu, ?_⟩, rfl⟩
      simpa [hid] using hb
    obtain ⟨node, hn, hk, hg⟩ := Maps.get_foldl_insert_of_exists Node.id fresh d.plan.upsertNodes id
      ⟨_, hmem, (PendingQueue.placeholder_awaited hu).trans hid⟩
    obtain ⟨name, rfl, -⟩ := hfresh node hn
    exact ⟨name, hk, hg⟩
  case disappear =>
    intro id hb hw
    rw [hget, if_pos ((hgone id).mpr ⟨hb, hw⟩)]
  case others =>
    intro id hiff
    rw [hget, if_neg fun hm => ((hgone id).mp hm).2 (hiff.mpr ((hgone id).mp hm).1)]
    refine Maps.get_foldl_insert_of_forall_ne Node.id fresh _ id fun node hn he => ?_
    obtain ⟨-, -, hw, hb⟩ := hfresh node hn
    rw [he] at hw hb
    exact hb (hiff.mp hw)

/-! ## All phases after the second -/

/-- The waiting references whose target is known now. -/
def settled (d : Draft) : List Reference := d.book.pending.toList.filter d.book.index.resolves

/-- The references that are new or turned back. -/
def fresh (d : Draft) (opened : List Reopening) : List Reference := d.refs ++ opened.map (·.ref)

/-- All references that get an edge. -/
def atHand (d : Draft) (opened : List Reopening) : List Reference := d.settled ++ d.fresh opened

/-- What comes of a draft when some edges are turned back and all references are resolved. -/
structure Concludes (d : Draft) (opened : List Reopening) (before : List NodeId) (d' : Draft) :
    Prop where
  same : d'.book.SameNodes d.book
  pending : ∀ key : PendingKey, d'.book.pending.waiting[key]? =
    (d.book.pending.waiting[key]?.filter (!d.book.index.resolves ·)).or
      (((d.fresh opened).filter (!d.book.index.resolves ·)).find? (PendingQueue.keyOf · = key))
  keyed : d'.book.pending.Keyed
  upsertEdges : ∀ k : EdgeKey, d'.plan.upsertEdges[k]? = d.plan.upsertEdges[k]?.or
    (((d.atHand opened).map d.book.index.standing).find? (·.key = k))
  deleteEdges : ∀ k, k ∈ d'.plan.deleteEdges ↔
    (k ∈ d.settled.map (·.placeholderEdge.key) ∨ k ∈ d.plan.deleteEdges) ∧
      ∀ r ∈ d.atHand opened, (d.book.index.standing r).key ≠ k
  holds : ∀ p k, d'.book.Holds p k ↔
    (d.book.Holds p k ∧ (∀ o ∈ opened, ¬ (o.unit = p ∧ o.key = k)) ∧
      ∀ r ∈ d.settled, ¬ (r.unit = p ∧ r.placeholderEdge.key = k)) ∨
    ∃ r ∈ d.atHand opened, r.unit = p ∧ (d.book.index.standing r).key = k ∧
      d.book.units.contains p = true
  deleteNodes : ∀ id, id ∈ d'.plan.deleteNodes ↔
    (id ∈ d.plan.deleteNodes ∨ id ∈ d.goneNodes) ∨
      (id ∈ before ∧ ¬ d'.book.pending.Awaits id)
  appear : ∀ id, d'.book.pending.Awaits id → id ∉ before → ∃ name, NodeId.placeholder name = id ∧
    d'.plan.upsertNodes[id]? = some (.placeholder name)
  disappear : ∀ id ∈ before, ¬ d'.book.pending.Awaits id → d'.plan.upsertNodes[id]? = none
  others : ∀ id, (d'.book.pending.Awaits id ↔ id ∈ before) →
    d'.plan.upsertNodes[id]? = d.plan.upsertNodes[id]?

theorem mem_deleteNodes_deleteAll (d : Draft) (gone : List NodeId) (id : NodeId) :
    id ∈ (d.deleteAll gone).plan.deleteNodes ↔ id ∈ d.plan.deleteNodes ∨ id ∈ gone := by
  have hplan : ∀ (plan : Plan), gone.foldl Plan.deleteNode plan =
      { plan with deleteNodes := gone.foldl (fun s x => s.insert x) plan.deleteNodes } := by
    induction gone with
    | nil => exact fun _ => rfl
    | cons x rest ih => intro plan; rw [List.foldl_cons, ih]; rfl
  rw [deleteAll, hplan]
  simpa using Maps.mem_foldl_insert (fun id => id) gone d.plan.deleteNodes id

theorem deleteAll_upserts (d : Draft) (gone : List NodeId) :
    (d.deleteAll gone).plan.upsertNodes = d.plan.upsertNodes ∧
      (d.deleteAll gone).plan.upsertEdges = d.plan.upsertEdges ∧
      (d.deleteAll gone).plan.deleteEdges = d.plan.deleteEdges := by
  unfold deleteAll
  dsimp only
  generalize d.plan = plan
  induction gone generalizing plan with
  | nil => exact ⟨rfl, rfl, rfl⟩
  | cons x rest ih => exact ih (plan.deleteNode x)

theorem foldl_eraseEdge_pending (opened : List Reopening) (book : Bookkeeping) :
    (opened.foldl (fun book o => book.eraseEdge o.unit o.key) book).pending = book.pending := by
  induction opened generalizing book with
  | nil => rfl
  | cons o rest ih => rw [List.foldl_cons, ih]; rfl

theorem keyed_place {d : Draft} (h : d.book.pending.Keyed) (r : Reference) :
    (d.place r).book.pending.Keyed := by
  have hpending : (d.place r).book.pending =
      if d.book.index.resolves r then d.book.pending else d.book.pending.insert r := by
    rw [place_eq]; rfl
  rw [hpending]
  split
  · exact h
  · exact h.insert r

theorem keyed_settle {d : Draft} (h : d.book.pending.Keyed) (r : Reference) :
    (d.settle r).book.pending.Keyed := by
  rw [settle_eq]
  split
  · exact h.erase r
  · exact h

theorem keyed_resolveAll {d : Draft} (h : d.book.pending.Keyed) :
    d.resolveAll.book.pending.Keyed :=
  resolveAll_induction (P := fun x => x.book.pending.Keyed) h (fun _ r hx => keyed_settle hx r)
    fun _ r hx => keyed_place hx r

theorem mem_settled {d : Draft} (keyed : d.book.pending.Keyed) {r : Reference} :
    r ∈ d.settled ↔ d.book.pending.waiting[PendingQueue.keyOf r]? = some r ∧
      d.book.index.resolves r = true := by
  rw [settled, List.mem_filter, PendingQueue.mem_toList keyed]

/-- The key of a waiting reference is among those settled if that reference is resolved. -/
theorem get_pending_settled {d : Draft} (keyed : d.book.pending.Keyed) (key : PendingKey) :
    (if key ∈ d.settled.map PendingQueue.keyOf then none else d.book.pending.waiting[key]?) =
      d.book.pending.waiting[key]?.filter (!d.book.index.resolves ·) := by
  cases hw : d.book.pending.waiting[key]? with
  | none => simp
  | some r =>
    have hkey := keyed key r hw
    subst hkey
    have hmem : PendingQueue.keyOf r ∈ d.settled.map PendingQueue.keyOf ↔
        d.book.index.resolves r = true := by
      constructor
      · intro hm
        obtain ⟨s, hs, hsr⟩ := List.mem_map.mp hm
        obtain ⟨hs, hres⟩ := (mem_settled keyed).mp hs
        rw [hsr, hw] at hs
        exact Option.some.inj hs ▸ hres
      · intro hres
        exact List.mem_map.mpr ⟨r, (mem_settled keyed).mpr ⟨hw, hres⟩, rfl⟩
    rw [Option.filter_some]
    cases hres : d.book.index.resolves r <;> simp [hmem, hres]

theorem concludes {d : Draft} (keyed : d.book.pending.Keyed)
    (parted : Parted d.book.index d.book.pending.toList)
    (clear : ∀ r ∈ d.settled, d.plan.upsertEdges[r.placeholderEdge.key]? = none)
    (opened : List Reopening) (before : List NodeId) :
    Concludes d opened before
      (((d.deleteAll d.goneNodes).reopenAll opened).resolveAll.followQueue before) := by
  obtain ⟨start, hstart⟩ : ∃ start, start = (d.deleteAll d.goneNodes).reopenAll opened := ⟨_, rfl⟩
  have hbook : start.book = opened.foldl (fun book o => book.eraseEdge o.unit o.key) d.book := by
    rw [hstart]; rfl
  have hrefs : start.refs = d.fresh opened := by rw [hstart]; rfl
  obtain ⟨hun, hue, hde⟩ : start.plan.upsertNodes = d.plan.upsertNodes ∧
      start.plan.upsertEdges = d.plan.upsertEdges ∧ start.plan.deleteEdges = d.plan.deleteEdges := by
    rw [hstart]
    exact deleteAll_upserts d d.goneNodes
  have same : start.book.SameNodes d.book := by
    rw [hbook]; exact Bookkeeping.sameNodes_foldl_eraseEdge opened d.book
  have hpending : start.book.pending = d.book.pending := by
    rw [hbook]; exact foldl_eraseEdge_pending opened d.book
  obtain ⟨mid, hmid⟩ : ∃ mid, mid = start.book.pending.toList.foldl settle start := ⟨_, rfl⟩
  have settles : Settles start.book.pending.toList start mid := by
    rw [hmid]
    exact settles_foldl _ start (by rw [same.index, hpending]; exact parted)
  rw [hpending] at settles
  have hsettled : d.book.pending.toList.filter start.book.index.resolves = d.settled := by
    rw [same.index]; rfl
  have hresolve : start.resolveAll = (d.fresh opened).foldl place mid := by
    rw [← hrefs, ← settles.refs, hmid]; rfl
  have places := places_foldl (d.fresh opened) mid
  rw [← hresolve] at places
  have hix : mid.book.index = d.book.index := settles.same.index.trans same.index
  have hunits : ∀ p, mid.book.units.contains p = d.book.units.contains p := fun p =>
    (settles.same.contains p).trans (same.contains p)
  have hkeyed : start.resolveAll.book.pending.Keyed :=
    keyed_resolveAll (by rw [hpending]; exact keyed)
  have follows := follows_followQueue hkeyed before
  rw [← hstart]
  constructor
  case same => rw [follows.book]; exact places.same.trans (settles.same.trans same)
  case pending =>
    intro key
    rw [follows.book, places.pending, settles.pending, hsettled, hix, hpending,
      get_pending_settled keyed]
  case keyed => rw [follows.book]; exact hkeyed
  case upsertEdges =>
    intro k
    rw [follows.upsertEdges, places.upsertEdges, settles.upsertEdges, hsettled, hix, same.index, hue,
      atHand, List.map_append, List.find?_append, ← Option.or_assoc]
    congr 2
    split
    next hk =>
      obtain ⟨r, hr, rfl⟩ := List.mem_map.mp hk
      exact (clear r hr).symm
    next => rfl
  case deleteEdges =>
    intro k
    rw [follows.deleteEdges, places.deleteEdges, settles.deleteEdges, hsettled, hix, same.index, hde,
      atHand, List.forall_mem_append, and_assoc]
  case holds =>
    intro p k
    rw [follows.book, places.holds, settles.holds, hsettled, hix, hunits, same.index,
      same.contains, hbook, Bookkeeping.holds_foldl_eraseEdge, and_assoc, or_assoc]
    refine or_congr_right ?_
    rw [atHand]
    simp only [List.mem_append, or_and_right, exists_or]
  case deleteNodes =>
    intro id
    rw [follows.deleteNodes, places.deleteNodes, settles.deleteNodes, follows.book]
    refine or_congr_left ?_
    rw [hstart]
    exact mem_deleteNodes_deleteAll d d.goneNodes id
  case appear => rw [follows.book]; exact follows.appear
  case disappear => rw [follows.book]; exact follows.disappear
  case others =>
    intro id hiff
    rw [follows.book] at hiff
    rw [follows.others id hiff, places.upsertNodes, settles.upsertNodes, hun]

end Draft

end CodeAtlas
