import CodeAtlas.Proofs.History
import CodeAtlas.Proofs.Planning.Track
import CodeAtlas.Proofs.Sessions

/-!
# The hashes that a call leaves

A builder remembers the content hash of every unit. A call that succeeds sets the hashes of its changes
and keeps all others (`Builder.hash_apply`). Nothing else has a say in it: not the graph, which decides
about edges and references alone, nor other units, which may own every node that a unit has to offer. So
this holds of any bookkeeping over any store, without an invariant.
-/

set_option autoImplicit false

namespace CodeAtlas

open Std

/-- What a builder remembers of a unit after its change. -/
def UnitChange.hash? : UnitChange → Option ContentHash
  | put parsed => some parsed.unit.hash
  | remove _ => none

namespace Bookkeeping

/-- The content hash that is remembered of a unit. -/
def hash? (book : Bookkeeping) (path : String) : Option ContentHash :=
  book.units[path]?.map (·.hash)

theorem SameNodes.hash? {a b : Bookkeeping} (h : a.SameNodes b) (path : String) :
    a.hash? path = b.hash? path := by
  have hpath := congrArg (Option.map Prod.fst) (h.units path)
  rw [Option.map_map, Option.map_map] at hpath
  exact hpath

end Bookkeeping

/-! ## Drafts -/

namespace Draft

theorem hash_foldl_addNode (path : String) (nodes : List Node) (s : Draft × UnitState) :
    (nodes.foldl (addNode path) s).2.hash = s.2.hash := by
  refine List.foldlRecOn (motive := fun t : Draft × UnitState => t.2.hash = s.2.hash) nodes _ rfl ?_
  intro t ht node _
  rw [addNode_eq]
  split <;> exact ht

theorem hash_foldl_addEdge (edges : List Edge) (s : Draft × UnitState) :
    (edges.foldl addEdge s).2.hash = s.2.hash := by
  refine List.foldlRecOn (motive := fun t : Draft × UnitState => t.2.hash = s.2.hash) edges _ rfl ?_
  intro t ht edge _
  rw [addEdge_eq]
  split <;> exact ht

theorem hash_addUnit (markers : List String) (d : Draft) (parsed : ParsedUnit) (path : String) :
    (d.addUnit markers parsed).book.hash? path =
      if parsed.unit.path = path then some parsed.unit.hash else d.book.hash? path := by
  split
  next h =>
    subst h
    have hunits : (d.addUnit markers parsed).book.units =
      ExtTreeMap.insert _ parsed.unit.path _ := rfl
    rw [Bookkeeping.hash?, hunits, ExtTreeMap.getElem?_insert_self, Option.map_some,
      hash_foldl_addEdge, hash_foldl_addNode]
  next h => rw [Bookkeeping.hash?, units_addUnit markers d parsed h, Bookkeeping.hash?]

/-- Adding the fragments of some changes sets the hashes of those that are still there. -/
theorem hash_foldl_addChange (markers : List String) {changes : List UnitChange}
    (hnodup : (changes.map (·.path)).Nodup) (d : Draft) (path : String) :
    (changes.foldl (addChange markers) d).book.hash? path =
      ((changes.find? (·.path = path)).bind (·.hash?)).or (d.book.hash? path) := by
  induction changes generalizing d with
  | nil => rfl
  | cons change rest ih =>
    obtain ⟨hdistinct, hnodupRest⟩ := List.nodup_cons.mp hnodup
    rw [List.foldl_cons, ih hnodupRest]
    by_cases hpath : change.path = path
    · have hnone : rest.find? (·.path = path) = none := by
        rw [List.find?_eq_none]
        intro c hc he
        exact hdistinct (List.mem_map.mpr ⟨c, hc, (of_decide_eq_true he).trans hpath.symm⟩)
      rw [hnone, List.find?_cons_of_pos (by simpa using hpath)]
      cases change with
      | remove _ => rfl
      | put parsed => exact (hash_addUnit markers d parsed path).trans (if_pos hpath)
    · rw [List.find?_cons_of_neg (by simpa using hpath)]
      congr 1
      cases change with
      | remove _ => rfl
      | put parsed => exact (hash_addUnit markers d parsed path).trans (if_neg hpath)

theorem sameNodes_vanish {σ : Type} [Backend σ] {policy : RetryPolicy} {changed : ExtTreeSet String}
    {gone : List NodeId} {d d' : Draft} {s s' : σ}
    (h : gone.foldlM (vanish policy changed) d s = (.ok d', s')) : d'.book.SameNodes d.book := by
  induction gone generalizing d s with
  | nil =>
    cases h
    exact .refl _
  | cons id rest ih =>
    rw [List.foldlM_cons] at h
    obtain ⟨d₁, s₁, hvanish, hrest⟩ := Session.of_bind_ok h
    obtain ⟨hops, s₂, -, hreopen⟩ := Session.of_bind_ok hvanish
    refine (ih hrest).trans ?_
    cases hreopen
    rw [foldl_reopenEdge]
    exact Bookkeeping.sameNodes_foldl_eraseEdge _ _

end Draft

theorem Bookkeeping.hash_draft {σ : Type} [Backend σ] {book : Bookkeeping} {policy : RetryPolicy}
    {markers : List String} {changes : List UnitChange} (hnodup : (changes.map (·.path)).Nodup)
    {s s' : σ} {d : Draft} (h : book.draft policy markers changes s = (.ok d, s')) (path : String) :
    d.book.hash? path = (changes.find? (·.path = path)).elim (book.hash? path) (·.hash?) := by
  obtain ⟨mid, t, hvanish, hrest⟩ := Session.of_bind_ok h
  have hadded : d.book.hash? path = (book.added markers changes).book.hash? path := by
    refine SameNodes.hash? (SameNodes.trans ?_ (Draft.sameNodes_vanish hvanish)) path
    cases hrest
    exact mid.sameNodes_resolveAll
  rw [hadded, added, Draft.hash_foldl_addChange markers hnodup, Bookkeeping.hash?,
    (Draft.retracts_changed book (changes.map (·.path))).units]
  cases hfind : changes.find? (·.path = path) with
  | none =>
    have hnew : path ∉ changes.map (·.path) := by
      rintro hm
      obtain ⟨c, hc, hpath⟩ := List.mem_map.mp hm
      exact List.find?_eq_none.mp hfind c hc (by simpa using hpath)
    rw [if_neg hnew]
    rfl
  | some change =>
    have hm : path ∈ changes.map (·.path) :=
      List.mem_map.mpr ⟨change, List.mem_of_find?_eq_some hfind, by
        simpa using List.find?_some hfind⟩
    rw [if_pos hm]
    exact Option.or_none

/-! ## Calls -/

namespace Builder

variable {σ : Type} [Backend σ] {b b' : Builder} {s s' : σ} {δ : Delta}

theorem get_unitHashes (b : Builder) (path : String) : b.unitHashes[path]? = b.book.hash? path :=
  ExtTreeMap.getElem?_map

/-- A call that succeeds sets the hashes of its changes and keeps all others. -/
theorem hash_apply {changes : List UnitChange} (hnodup : (changes.map (·.path)).Nodup)
    (h : b.apply changes s = (.ok (δ, b'), s')) (path : String) :
    b'.book.hash? path = (changes.find? (·.path = path)).elim (b.book.hash? path) (·.hash?) := by
  obtain ⟨d, s₁, hdraft, hrest⟩ := Session.of_bind_ok h
  obtain ⟨_, s₂, -, hdone⟩ := Session.of_bind_ok hrest
  cases hdone
  exact Bookkeeping.hash_draft hnodup hdraft path

/-- A unit that is left out has the hash that is known. -/
theorem hash_of_unchanged {b : Builder} {parsed : List ParsedUnit} {path : String}
    (h : ∀ change ∈ b.changesOf parsed, change.path ≠ path) :
    b.book.hash? path = ((latest parsed)[path]?.map (·.unit.hash)).or (b.book.hash? path) := by
  cases hlatest : (latest parsed)[path]? with
  | none => rfl
  | some p =>
    obtain ⟨-, rfl⟩ := get_latest hlatest
    by_contra hne
    exact h _ (mem_changesOf.mpr ⟨p, rfl, hlatest, hne⟩) rfl

theorem hash_ingest {parsed : List ParsedUnit} (h : b.ingest parsed s = (.ok (δ, b'), s'))
    (path : String) :
    b'.book.hash? path = ((latest parsed)[path]?.map (·.unit.hash)).or (b.book.hash? path) := by
  by_cases hc : b.changesOf parsed = []
  · unfold ingest at h
    rw [hc] at h
    cases h
    exact hash_of_unchanged (by simp [hc])
  · rw [ingest_eq_apply hc] at h
    rw [hash_apply (nodup_changesOf b parsed) h]
    cases hfind : (b.changesOf parsed).find? (·.path = path) with
    | some change =>
      obtain ⟨p, rfl, hlatest, -⟩ := mem_changesOf.mp (List.mem_of_find?_eq_some hfind)
      have hpath : (UnitChange.put p).path = path := by simpa using List.find?_some hfind
      rw [← hpath, UnitChange.path, hlatest]
      rfl
    | none =>
      refine hash_of_unchanged fun change hm => ?_
      simpa using List.find?_eq_none.mp hfind change hm

theorem hash_removeUnit {unit : String} (h : b.removeUnit unit s = (.ok (δ, b'), s')) (path : String) :
    b'.book.hash? path = if unit = path then none else b.book.hash? path := by
  unfold removeUnit at h
  by_cases hc : b.book.units.contains unit = true
  · rw [if_pos hc] at h
    rw [hash_apply (by simp) h]
    by_cases hp : unit = path <;> simp [hp, UnitChange.path, UnitChange.hash?]
  · rw [if_neg hc] at h
    cases h
    split
    next hp =>
      subst hp
      have hnone := (Maps.contains_eq_false_iff _ _).mp (Bool.eq_false_iff.mpr hc)
      rw [Bookkeeping.hash?, hnone]
      rfl
    next => rfl

end Builder

end CodeAtlas
