import CodeAtlas.Builder.Plan
import CodeAtlas.Proofs.NameIndex

/-!
# Taking units back

The first thing a draft does is to forget what the changed units owned. What is left is the
bookkeeping of the other units, untouched (`Retracts`); what was taken is written down twice, the
edges in the plan and the nodes among those retracted. A unit that is not known leaves nothing to
take, and taking a unit twice is the same as taking it once.
-/

set_option autoImplicit false

namespace CodeAtlas

open Std

namespace Bookkeeping

/-- Whether a node is among those remembered of a unit. -/
def Owns (book : Bookkeeping) (path : String) (id : NodeId) : Prop :=
  ∃ unit, book.units[path]? = some unit ∧ id ∈ unit.nodes

/-- Whether an edge is among those remembered of a unit. -/
def Holds (book : Bookkeeping) (path : String) (key : EdgeKey) : Prop :=
  ∃ unit, book.units[path]? = some unit ∧ key ∈ unit.edges

theorem owns_congr {a b : Bookkeeping} {path : String} (h : a.units[path]? = b.units[path]?)
    (id : NodeId) : a.Owns path id ↔ b.Owns path id := by
  unfold Owns
  rw [h]

theorem holds_congr {a b : Bookkeeping} {path : String} (h : a.units[path]? = b.units[path]?)
    (key : EdgeKey) : a.Holds path key ↔ b.Holds path key := by
  unfold Holds
  rw [h]

end Bookkeeping

namespace Draft

/-! ## One unit -/

/-- Taking edges back only writes them down. -/
theorem foldl_retractEdge (d : Draft) (keys : List EdgeKey) :
    keys.foldl retractEdge d = { d with plan := keys.foldl Plan.dropEdge d.plan } := by
  induction keys generalizing d with
  | nil => rfl
  | cons key rest ih => rw [List.foldl_cons, ih]; rfl

theorem mem_deleteEdges_foldl_dropEdge (keys : List EdgeKey) (plan : Plan) (k : EdgeKey) :
    k ∈ (keys.foldl Plan.dropEdge plan).deleteEdges ↔ k ∈ plan.deleteEdges ∨ k ∈ keys := by
  induction keys generalizing plan with
  | nil => simp
  | cons key rest ih =>
    rw [List.foldl_cons, ih]
    simp only [Plan.dropEdge, ExtTreeSet.mem_insert, LawfulEqCmp.compare_eq_iff_eq, List.mem_cons]
    constructor
    · rintro ((h | h) | h)
      · exact .inr (.inl h.symm)
      · exact .inl h
      · exact .inr (.inr h)
    · rintro (h | h | h)
      · exact .inl (.inr h)
      · exact .inl (.inl h.symm)
      · exact .inr h

/-- What is left of a draft's maps after some nodes have been taken back. -/
structure Forgets (d : Draft) (ids : List NodeId) (d' : Draft) : Prop where
  nodeUnit : ∀ id : NodeId, d'.book.nodeUnit[id]? = if id ∈ ids then none else d.book.nodeUnit[id]?
  entries : ∀ id : NodeId,
    d'.book.index.entries[id]? = if id ∈ ids then none else d.book.index.entries[id]?
  retracted : ∀ id : NodeId, d'.retracted[id]? =
    if id ∈ ids then (d.book.index.kind? id).or d.retracted[id]? else d.retracted[id]?
  sound : d.book.index.Sound → d'.book.index.Sound
  faithful : d.book.index.Faithful → d'.book.index.Faithful
  units : d'.book.units = d.book.units
  pending : d'.book.pending = d.book.pending
  plan : d'.plan = d.plan
  rekinded : d'.rekinded = d.rekinded
  refs : d'.refs = d.refs

theorem retractNode_retracted (d : Draft) (x id : NodeId) :
    (d.retractNode x).retracted[id]? =
      if x = id then (d.book.index.kind? id).or d.retracted[id]? else d.retracted[id]? := by
  unfold retractNode
  by_cases h : x = id
  · subst h
    cases d.book.index.kind? x <;> simp
  · cases hk : d.book.index.kind? x <;> simp [h, ExtTreeMap.getElem?_insert]

theorem forgets_foldl (d : Draft) (ids : List NodeId) : Forgets d ids (ids.foldl retractNode d) := by
  induction ids generalizing d with
  | nil => exact ⟨by simp, by simp, by simp, id, id, rfl, rfl, rfl, rfl, rfl⟩
  | cons x rest ih =>
    have h := ih (d.retractNode x)
    have hkind : ∀ id : NodeId, x ≠ id →
        (d.retractNode x).book.index.kind? id = d.book.index.kind? id := fun id hne => by
      simp [retractNode, NameIndex.kind?, NameIndex.entries_remove, hne]
    have hgone : (d.retractNode x).book.index.kind? x = none := by
      simp [retractNode, NameIndex.kind?, NameIndex.entries_remove]
    refine ⟨fun id => ?_, fun id => ?_, fun id => ?_, fun hs => h.sound (hs.remove x),
      fun hf => h.faithful (hf.remove x), h.units, h.pending, h.plan, h.rekinded, h.refs⟩
    · rw [List.foldl_cons, h.nodeUnit]
      by_cases hx : x = id
      · subst hx; simp [retractNode]
      · have hx' : id ≠ x := fun he => hx he.symm
        simp [retractNode, ExtTreeMap.getElem?_erase, hx, hx']
    · rw [List.foldl_cons, h.entries]
      by_cases hx : x = id
      · subst hx; simp [retractNode, NameIndex.entries_remove]
      · have hx' : id ≠ x := fun he => hx he.symm
        simp [retractNode, NameIndex.entries_remove, hx, hx']
    · rw [List.foldl_cons, h.retracted, retractNode_retracted]
      by_cases hx : x = id
      · subst hx
        by_cases hr : x ∈ rest <;> simp [hr, hgone]
      · have hx' : id ≠ x := fun he => hx he.symm
        simp [hx, hx', hkind id hx]

/-! ## All changed units -/

/-- A draft from which the units of some paths have been taken back, and nothing else. -/
structure Retracts (book : Bookkeeping) (paths : List String) (d : Draft) : Prop where
  units : ∀ p : String, d.book.units[p]? = if p ∈ paths then none else book.units[p]?
  nodeUnit : ∀ (id : NodeId) p, d.book.nodeUnit[id]? = some p ↔
    book.nodeUnit[id]? = some p ∧ ∀ q ∈ paths, ¬ book.Owns q id
  entries : ∀ (id : NodeId) entry, d.book.index.entries[id]? = some entry ↔
    book.index.entries[id]? = some entry ∧ ∀ q ∈ paths, ¬ book.Owns q id
  pending : ∀ (key : PendingKey) r, d.book.pending.waiting[key]? = some r ↔
    book.pending.waiting[key]? = some r ∧ r.unit ∉ paths
  retracted : ∀ (id : NodeId) kind, d.retracted[id]? = some kind ↔
    book.index.kind? id = some kind ∧ ∃ q ∈ paths, book.Owns q id
  sound : book.index.Sound → d.book.index.Sound
  faithful : book.index.Faithful → d.book.index.Faithful
  deleteEdges : ∀ k, k ∈ d.plan.deleteEdges ↔ ∃ q ∈ paths, book.Holds q k
  upsertNodes : d.plan.upsertNodes = ∅
  upsertEdges : d.plan.upsertEdges = ∅
  deleteNodes : d.plan.deleteNodes = ∅
  rekinded : d.rekinded = []
  refs : d.refs = []

theorem retracts_nil (book : Bookkeeping) : Retracts book [] { book } := by
  constructor <;> simp

theorem upsertEdges_foldl_dropEdge_empty {plan : Plan} (h : plan.upsertEdges = ∅)
    (keys : List EdgeKey) : (keys.foldl Plan.dropEdge plan).upsertEdges = ∅ := by
  induction keys generalizing plan with
  | nil => exact h
  | cons key rest ih => exact ih (by simp [Plan.dropEdge, h])

theorem foldl_dropEdge_nodes (keys : List EdgeKey) (plan : Plan) :
    (keys.foldl Plan.dropEdge plan).upsertNodes = plan.upsertNodes ∧
      (keys.foldl Plan.dropEdge plan).deleteNodes = plan.deleteNodes := by
  induction keys generalizing plan with
  | nil => exact ⟨rfl, rfl⟩
  | cons key rest ih => exact ih (plan.dropEdge key)

theorem get_dropUnit (q : PendingQueue) (path : String) (key : PendingKey) (r : Reference) :
    (q.dropUnit path).waiting[key]? = some r ↔ q.waiting[key]? = some r ∧ r.unit ≠ path := by
  rw [PendingQueue.dropUnit, ExtTreeMap.getElem?_filter', Option.filter_eq_some_iff]
  simp

/-- What is left of the index are the nodes that none of the units owned. -/
theorem Retracts.kind?_eq_some_iff {book : Bookkeeping} {paths : List String} {d : Draft}
    (h : Retracts book paths d) {id : NodeId} {kind : NodeKind} :
    d.book.index.kind? id = some kind ↔
      book.index.kind? id = some kind ∧ ∀ q ∈ paths, ¬ book.Owns q id := by
  simp only [NameIndex.kind?, Option.map_eq_some_iff, h.entries]
  constructor
  · rintro ⟨entry, ⟨he, hfree⟩, hkind⟩
    exact ⟨⟨entry, he, hkind⟩, hfree⟩
  · rintro ⟨⟨entry, he, hkind⟩, hfree⟩
    exact ⟨entry, ⟨he, hfree⟩, hkind⟩

/-- The references of one more unit do not wait any more. -/
theorem Retracts.get_dropUnit {book : Bookkeeping} {paths : List String} {d : Draft}
    (h : Retracts book paths d) (path : String) (key : PendingKey) (r : Reference) :
    (d.book.pending.dropUnit path).waiting[key]? = some r ↔
      book.pending.waiting[key]? = some r ∧ r.unit ∉ path :: paths := by
  rw [Draft.get_dropUnit, h.pending, List.mem_cons, not_or]
  constructor
  · rintro ⟨⟨hr, hpaths⟩, hpath⟩
    exact ⟨hr, hpath, hpaths⟩
  · rintro ⟨hr, hpath, hpaths⟩
    exact ⟨⟨hr, hpaths⟩, hpath⟩

/-- A unit that is known is taken back. -/
theorem Retracts.retractKnown {book : Bookkeeping} {paths : List String} {d : Draft}
    (h : Retracts book paths d) {path : String} {old : UnitState} (new : path ∉ paths)
    (hold : book.units[path]? = some old) : Retracts book (path :: paths) (d.retractUnit path) := by
  have hunit : d.book.units[path]? = some old := by rw [h.units, if_neg new, hold]
  have howns : ∀ id, book.Owns path id ↔ id ∈ old.nodes.toList := fun id => by
    simp [Bookkeeping.Owns, hold, ExtTreeSet.mem_toList]
  have hholds : ∀ key, book.Holds path key ↔ key ∈ old.edges.toList := fun key => by
    simp [Bookkeeping.Holds, hold, ExtTreeSet.mem_toList]
  obtain ⟨d', hd'⟩ : ∃ d', d' = old.nodes.toList.foldl retractNode
      (old.edges.toList.foldl retractEdge
        { d with book := { d.book with units := d.book.units.erase path } }) := ⟨_, rfl⟩
  have hretract : d.retractUnit path =
      { d' with book := { d'.book with pending := d'.book.pending.dropUnit path } } := by
    simp only [retractUnit, hunit, hd']
  have hf := forgets_foldl (old.edges.toList.foldl retractEdge
    { d with book := { d.book with units := d.book.units.erase path } }) old.nodes.toList
  rw [← hd', foldl_retractEdge] at hf
  rw [hretract]
  constructor
  case units =>
    intro p
    rw [hf.units, ExtTreeMap.getElem?_erase, h.units]
    by_cases hp : path = p <;> simp [hp, Ne.symm]
  case nodeUnit =>
    intro id p
    rw [hf.nodeUnit, List.forall_mem_cons, howns]
    split
    next hid => simp [hid]
    next hid => simp [hid, h.nodeUnit]
  case entries =>
    intro id entry
    rw [hf.entries, List.forall_mem_cons, howns]
    split
    next hid => simp [hid]
    next hid => simp [hid, h.entries]
  case pending =>
    intro key r
    rw [hf.pending]
    exact h.get_dropUnit path key r
  case retracted =>
    intro id kind
    rw [hf.retracted]
    simp only [List.mem_cons, exists_eq_or_imp, howns]
    by_cases hid : id ∈ old.nodes.toList
    · rw [if_pos hid, and_iff_left (.inl hid), Option.or_eq_some_iff]
      constructor
      · rintro (hk | ⟨-, hr⟩)
        · exact (h.kind?_eq_some_iff.mp hk).1
        · exact ((h.retracted id kind).mp hr).1
      · intro hk
        -- An earlier unit may have owned the node too; then its kind is written down already.
        by_cases hfree : ∀ q ∈ paths, ¬ book.Owns q id
        · exact .inl (h.kind?_eq_some_iff.mpr ⟨hk, hfree⟩)
        · refine .inr ⟨Option.eq_none_iff_forall_ne_some.mpr fun _ hk' => ?_,
            (h.retracted id kind).mpr ⟨hk, by simpa using hfree⟩⟩
          exact hfree (h.kind?_eq_some_iff.mp hk').2
    · simp [hid, h.retracted]
  case sound => exact fun hs => hf.sound (h.sound hs)
  case faithful => exact fun hs => hf.faithful (h.faithful hs)
  case deleteEdges =>
    intro k
    rw [hf.plan, mem_deleteEdges_foldl_dropEdge, h.deleteEdges]
    simp only [List.mem_cons, exists_eq_or_imp, hholds]
    exact or_comm
  case upsertNodes => rw [hf.plan, (foldl_dropEdge_nodes _ _).1, h.upsertNodes]
  case upsertEdges => rw [hf.plan, upsertEdges_foldl_dropEdge_empty h.upsertEdges]
  case deleteNodes => rw [hf.plan, (foldl_dropEdge_nodes _ _).2, h.deleteNodes]
  case rekinded => rw [hf.rekinded, h.rekinded]
  case refs => rw [hf.refs, h.refs]

/-- A unit that is not known leaves nothing to take back. -/
theorem Retracts.retractUnknown {book : Bookkeeping} {paths : List String} {d : Draft}
    (h : Retracts book paths d) {path : String} (hunit : d.book.units[path]? = none)
    (hpath : path ∉ paths → book.units[path]? = none) :
    Retracts book (path :: paths) (d.retractUnit path) := by
  have hretract : d.retractUnit path =
      { d with book := { d.book with pending := d.book.pending.dropUnit path } } := by
    simp only [retractUnit, hunit]
  have howns : ∀ id, (∃ q ∈ path :: paths, book.Owns q id) ↔ ∃ q ∈ paths, book.Owns q id := by
    intro id
    by_cases hp : path ∈ paths
    · simp only [List.mem_cons, exists_eq_or_imp, or_iff_right_iff_imp]
      exact fun ho => ⟨path, hp, ho⟩
    · simp [Bookkeeping.Owns, hpath hp]
  have hfree : ∀ id, (∀ q ∈ path :: paths, ¬ book.Owns q id) ↔ ∀ q ∈ paths, ¬ book.Owns q id := by
    intro id
    have h := not_congr (howns id)
    simpa only [not_exists, not_and] using h
  have hholds : ∀ k, (∃ q ∈ path :: paths, book.Holds q k) ↔ ∃ q ∈ paths, book.Holds q k := by
    intro k
    by_cases hp : path ∈ paths
    · simp only [List.mem_cons, exists_eq_or_imp, or_iff_right_iff_imp]
      exact fun ho => ⟨path, hp, ho⟩
    · simp [Bookkeeping.Holds, hpath hp]
  rw [hretract]
  constructor
  case units =>
    intro p
    rw [h.units]
    by_cases hp : p = path
    · subst hp
      by_cases hm : p ∈ paths
      · simp [hm]
      · simp [hm, hpath hm]
    · simp [hp]
  case nodeUnit => intro id p; rw [h.nodeUnit, hfree]
  case entries => intro id entry; rw [h.entries, hfree]
  case pending => exact h.get_dropUnit path
  case retracted => intro id kind; rw [h.retracted, howns]
  case sound => exact h.sound
  case faithful => exact h.faithful
  case deleteEdges => intro k; rw [h.deleteEdges, hholds]
  case upsertNodes => exact h.upsertNodes
  case upsertEdges => exact h.upsertEdges
  case deleteNodes => exact h.deleteNodes
  case rekinded => exact h.rekinded
  case refs => exact h.refs

theorem Retracts.retractUnit {book : Bookkeeping} {paths : List String} {d : Draft}
    (h : Retracts book paths d) (path : String) :
    Retracts book (path :: paths) (d.retractUnit path) := by
  by_cases hp : path ∈ paths
  · exact h.retractUnknown (by rw [h.units, if_pos hp]) fun hn => absurd hp hn
  · cases hold : book.units[path]? with
    | none => exact h.retractUnknown (by rw [h.units, if_neg hp, hold]) fun _ => hold
    | some old => exact h.retractKnown hp hold

theorem Retracts.foldl {book : Bookkeeping} {done : List String} {d : Draft}
    (h : Retracts book done d) (paths : List String) :
    Retracts book (paths.reverse ++ done) (paths.foldl Draft.retractUnit d) := by
  induction paths generalizing done d with
  | nil => exact h
  | cons path rest ih =>
    rw [List.foldl_cons, List.reverse_cons, List.append_assoc]
    exact ih (h.retractUnit path)

/-- Only which paths are taken back matters, not their order. -/
theorem Retracts.congr {book : Bookkeeping} {a b : List String} {d : Draft}
    (h : Retracts book a d) (hab : ∀ p, p ∈ a ↔ p ∈ b) : Retracts book b d := by
  constructor
  case units => simpa only [hab] using h.units
  case nodeUnit => simpa only [hab] using h.nodeUnit
  case entries => simpa only [hab] using h.entries
  case pending => simpa only [hab] using h.pending
  case retracted => simpa only [hab] using h.retracted
  case sound => exact h.sound
  case faithful => exact h.faithful
  case deleteEdges => simpa only [hab] using h.deleteEdges
  case upsertNodes => exact h.upsertNodes
  case upsertEdges => exact h.upsertEdges
  case deleteNodes => exact h.deleteNodes
  case rekinded => exact h.rekinded
  case refs => exact h.refs

/-- The first phase of a draft takes the changed units back. -/
theorem retracts_changed (book : Bookkeeping) (paths : List String) :
    Retracts book paths
      ((ExtTreeSet.ofList paths).toList.foldl Draft.retractUnit { book }) := by
  refine ((retracts_nil book).foldl _).congr fun p => ?_
  simp [ExtTreeSet.mem_toList, ExtTreeSet.mem_ofList]

end Draft
end CodeAtlas
