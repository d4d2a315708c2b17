import CodeAtlas.Proofs.Preservation

/-!
# Histories of a builder

A builder starts with nothing, on an empty graph, and then takes units in and gives them up. What
holds at the start and is kept by every call that succeeds holds of every builder and graph that such
a history reaches (`Reached.induct`). A call either changes nothing or applies some changes, to
different units; in this form it is what the planning of a call was studied for.
-/

set_option autoImplicit false

namespace CodeAtlas

open Std Text

namespace Builder

/-! ## The changes of a call -/

variable {b b' : Builder} {g g' : PropertyGraph} {δ : Delta}

/-- The last unit of each path. -/
def latest (parsed : List ParsedUnit) : ExtTreeMap String ParsedUnit :=
  parsed.foldl (fun m p => m.insert p.unit.path p) ∅

theorem get_latest {parsed : List ParsedUnit} {path : String} {p : ParsedUnit}
    (h : (latest parsed)[path]? = some p) : p ∈ parsed ∧ p.unit.path = path := by
  by_cases hex : ∃ q ∈ parsed, q.unit.path = path
  · obtain ⟨q, hq, hk, hg⟩ := Maps.get_foldl_insert_of_exists (fun p : ParsedUnit => p.unit.path)
      parsed ∅ path hex
    have hpq : p = q := Option.some.inj (h.symm.trans hg)
    exact ⟨hpq ▸ hq, hpq ▸ hk⟩
  · have hnone := Maps.get_foldl_insert_of_forall_ne (fun p : ParsedUnit => p.unit.path) parsed ∅ path
      fun q hq hk => hex ⟨q, hq, hk⟩
    rw [latest, hnone] at h
    simp at h

theorem mem_changesOf {parsed : List ParsedUnit} {change : UnitChange} :
    change ∈ b.changesOf parsed ↔ ∃ p, change = .put p ∧ (latest parsed)[p.unit.path]? = some p ∧
      b.book.units[p.unit.path]?.map (·.hash) ≠ some p.unit.hash := by
  have hchanges : b.changesOf parsed = ((latest parsed).values.filter fun p =>
      b.book.units[p.unit.path]?.map (·.hash) != some p.unit.hash).map .put := rfl
  rw [hchanges, List.mem_map]
  constructor
  · rintro ⟨p, hp, rfl⟩
    obtain ⟨hp, hh⟩ := List.mem_filter.mp hp
    obtain ⟨path, hget⟩ := (Maps.mem_values _ _).mp hp
    have hpath := (get_latest hget).2
    subst hpath
    exact ⟨p, rfl, hget, by simpa using hh⟩
  · rintro ⟨p, rfl, hget, hh⟩
    exact ⟨p, List.mem_filter.mpr ⟨(Maps.mem_values _ _).mpr ⟨_, hget⟩, by simpa using hh⟩, rfl⟩

theorem mem_of_put_mem_changesOf {parsed : List ParsedUnit} {p : ParsedUnit}
    (h : .put p ∈ b.changesOf parsed) : p ∈ parsed := by
  obtain ⟨q, hq, hget, -⟩ := mem_changesOf.mp h
  cases hq
  exact (get_latest hget).1

/-- No unit is changed twice in one call. -/
theorem nodup_changesOf (b : Builder) (parsed : List ParsedUnit) :
    ((b.changesOf parsed).map (·.path)).Nodup := by
  have hchanges : b.changesOf parsed = ((latest parsed).values.filter fun p =>
      b.book.units[p.unit.path]?.map (·.hash) != some p.unit.hash).map .put := rfl
  rw [hchanges, List.map_map]
  have hpaths : (latest parsed).values.map (fun p => p.unit.path) = (latest parsed).keys :=
    Maps.map_values fun _ _ h => (get_latest h).2
  refine List.Nodup.sublist (List.Sublist.map _ List.filter_sublist) ?_
  show ((latest parsed).values.map fun p => p.unit.path).Nodup
  rw [hpaths]
  exact ExtTreeMap.nodup_keys

/-- A single unit whose hash is not known is a change. -/
theorem changesOf_singleton {p : ParsedUnit}
    (h : b.book.units[p.unit.path]?.map (·.hash) ≠ some p.unit.hash) :
    b.changesOf [p] = [.put p] := by
  have hnodup : (b.changesOf [p]).Nodup := (nodup_changesOf b [p]).of_map
  refine List.perm_singleton.mp ((List.perm_ext_iff_of_nodup hnodup (by simp)).mpr fun change => ?_)
  rw [List.mem_singleton]
  constructor
  · intro hc
    obtain ⟨q, rfl, hget, -⟩ := mem_changesOf.mp hc
    rw [List.mem_singleton.mp (get_latest hget).1]
  · rintro rfl
    exact mem_changesOf.mpr ⟨p, rfl, by simp [latest], h⟩

theorem ingest_eq_apply {σ : Type} [Backend σ] {parsed : List ParsedUnit} (h : b.changesOf parsed ≠ []) :
    (b.ingest parsed : Session σ (Delta × Builder)) = b.apply (b.changesOf parsed) := by
  unfold ingest
  cases hc : b.changesOf parsed with
  | nil => exact absurd hc h
  | cons change rest => rfl

/-! ## Calls -/

/-- A call on a builder. -/
inductive Request where
  | ingest (parsed : List ParsedUnit)
  | remove (path : String)

/-- Makes a call. -/
def request {σ : Type} [Backend σ] (b : Builder) : Request → Session σ (Delta × Builder)
  | .ingest parsed => b.ingest parsed
  | .remove path => b.removeUnit path

/-- The units that a call brings in. -/
def Request.incoming : Request → List ParsedUnit
  | .ingest parsed => parsed
  | .remove _ => []

/-- A call does nothing, or it applies some changes, each to another unit. -/
theorem request_cases (σ : Type) [Backend σ] (b : Builder) (call : Request) :
    (b.request call : Session σ (Delta × Builder)) = pure ({}, b) ∨
      ∃ changes, (changes.map (·.path)).Nodup ∧ (∀ p, .put p ∈ changes → p ∈ call.incoming) ∧
        (b.request call : Session σ (Delta × Builder)) = b.apply changes := by
  cases call with
  | ingest parsed =>
    by_cases hc : b.changesOf parsed = []
    · left
      show b.ingest parsed = _
      unfold ingest
      rw [hc]
    · exact .inr ⟨_, nodup_changesOf b parsed, fun p hp => mem_of_put_mem_changesOf hp,
        ingest_eq_apply hc⟩
  | remove path =>
    by_cases hc : b.book.units.contains path = true
    · refine .inr ⟨[.remove path], by simp, by simp, ?_⟩
      show b.removeUnit path = _
      rw [removeUnit, if_pos hc]
    · left
      show b.removeUnit path = _
      rw [removeUnit, if_neg hc]

/-! ## Reached builders -/

/-- The builders and graphs that successful calls over given units lead to. -/
inductive Reached (markers : List String) (policy : RetryPolicy) (units : ParsedUnit → Prop) :
    Builder → PropertyGraph → Prop
  | start : Reached markers policy units { markers, policy } {}
  | ingest {b b' : Builder} {g g' : PropertyGraph} {δ : Delta} {parsed : List ParsedUnit}
      (h : Reached markers policy units b g) (hunits : ∀ p ∈ parsed, units p)
      (hrun : b.ingest parsed g = (.ok (δ, b'), g')) : Reached markers policy units b' g'
  | remove {b b' : Builder} {g g' : PropertyGraph} {δ : Delta} {path : String}
      (h : Reached markers policy units b g)
      (hrun : b.removeUnit path g = (.ok (δ, b'), g')) : Reached markers policy units b' g'

variable {markers : List String} {policy : RetryPolicy} {units : ParsedUnit → Prop}

/-- What holds at the start and is kept by every change holds of all that is reached. -/
theorem Reached.induct {P : Bookkeeping → PropertyGraph → Prop} (start : P {} {})
    (step : ∀ (book : Bookkeeping) (g g' : PropertyGraph) (changes : List UnitChange), P book g →
      (changes.map (·.path)).Nodup → (∀ p, .put p ∈ changes → units p) →
      (book.draftOn g markers changes).plan.written g = .ok g' →
      P (book.draftOn g markers changes).book g')
    (h : Reached markers policy units b g) :
    P b.book g ∧ b.markers = markers ∧ b.policy = policy := by
  -- Both kinds of calls are requests, and a request that does something applies some changes.
  have hrequest : ∀ {b b' : Builder} {g g' : PropertyGraph} {δ : Delta} (call : Request),
      P b.book g ∧ b.markers = markers ∧ b.policy = policy → (∀ p ∈ call.incoming, units p) →
      b.request call g = (.ok (δ, b'), g') →
      P b'.book g' ∧ b'.markers = markers ∧ b'.policy = policy := by
    rintro b b' g g' δ call ⟨ih, rfl, rfl⟩ hunits hrun
    rcases b.request_cases PropertyGraph call with hnone | ⟨changes, hnodup, hputs, hsome⟩
    · rw [hnone] at hrun
      cases hrun
      exact ⟨ih, rfl, rfl⟩
    · rw [hsome] at hrun
      obtain ⟨d, rfl, -, hw, -, rfl⟩ := of_apply_ok hrun
      exact ⟨step b.book g g' changes ih hnodup (fun p hp => hunits p (hputs p hp)) hw, rfl, rfl⟩
  induction h with
  | start => exact ⟨start, rfl, rfl⟩
  | @ingest b b' g g' δ parsed _ hunits hrun ih => exact hrequest (.ingest parsed) ih hunits hrun
  | @remove b b' g g' δ path _ hrun ih =>
    exact hrequest (.remove path) ih (by simp [Request.incoming]) hrun

theorem Reached.settings (h : Reached markers policy units b g) :
    b.markers = markers ∧ b.policy = policy :=
  (Reached.induct (P := fun _ _ => True) trivial (fun _ _ _ _ _ _ _ _ => trivial) h).2

/-- Units that claim no reserved id. -/
def Unreserved (markers : List String) (units : ParsedUnit → Prop) : Prop :=
  ∀ p, units p → ∀ node ∈ (Fragment.build markers p).nodes, node.id.isReserved = false

theorem Unreserved.changes (h : Unreserved markers units) {changes : List UnitChange}
    (hnodup : (changes.map (·.path)).Nodup) (hunits : ∀ p, .put p ∈ changes → units p) :
    Bookkeeping.Changes markers changes :=
  ⟨hnodup, fun p hp => h p (hunits p hp)⟩

/-- A call on a bookkeeping that mirrors the graph succeeds, unless a unit claims an empty id. -/
theorem apply_planned {changes : List UnitChange} {puts : List ParsedUnit}
    (c : b.book.Planned b.markers g changes puts)
    (hids : ∀ p, .put p ∈ changes → ∀ node ∈ (Fragment.build b.markers p).nodes, node.id.text ≠ "") :
    ∃ δ g', (b.book.draftOn g b.markers changes).plan.written g = .ok g' ∧
      b.apply changes g =
        (.ok (δ, { b with book := (b.book.draftOn g b.markers changes).book }), g') := by
  obtain ⟨g', hw⟩ := c.exists_written
  exact ⟨_, g', hw, apply_ok rfl (c.valid_plan hids) hw⟩

/-- A builder that only knows such units mirrors its graph. -/
theorem Reached.mirrors (hu : Unreserved markers units) (h : Reached markers policy units b g) :
    b.book.Mirrors g := by
  refine (Reached.induct Bookkeeping.mirrors_empty ?_ h).1
  intro book g g' changes m hnodup hunits hw
  obtain ⟨puts, c⟩ := m.planned (hu.changes hnodup hunits)
  exact c.mirrors_written hw

/-! ## One call after another -/

/-- The builder and the store after a call. A call that fails leaves the builder as it was. -/
def after {σ : Type} (b : Builder) (run : Except GraphError (Delta × Builder) × σ) : Builder × σ :=
  match run with
  | (.ok (_, b'), s) => (b', s)
  | (.error _, s) => (b, s)

/-- The answers to one call after another, each with the graph it leaves. -/
def answers (b : Builder) (g : PropertyGraph) :
    List Request → List (Except GraphError Delta × PropertyGraph)
  | [] => []
  | call :: rest =>
    let run := b.request call g
    let next := b.after run
    (run.1.map (·.1), run.2) :: answers next.1 next.2 rest

/-! ## Calls that can be computed -/

theorem after_of_isOk {σ : Type} {b : Builder} {run : Except GraphError (Delta × Builder) × σ}
    (h : run.1.isOk = true) : ∃ δ, run = (.ok (δ, (b.after run).1), (b.after run).2) := by
  obtain ⟨e | ⟨δ, b'⟩, s⟩ := run
  · simp [Except.isOk, Except.toBool] at h
  · exact ⟨δ, rfl⟩

/-- The builder and the graph after a first call. -/
def firstCall (markers : List String) (parsed : List ParsedUnit) : Builder × PropertyGraph :=
  after { markers } (ingest { markers } parsed {})

theorem reached_firstCall {parsed : List ParsedUnit}
    (h : (ingest { markers } parsed ({} : PropertyGraph)).1.isOk = true)
    (hunits : ∀ p ∈ parsed, units p) :
    Reached markers {} units (firstCall markers parsed).1 (firstCall markers parsed).2 := by
  obtain ⟨δ, hrun⟩ := after_of_isOk (b := { markers }) h
  exact .ingest .start hunits hrun

/-- Whether a plan passes all checks. -/
def passes (plan : Plan) (g : PropertyGraph) : Bool :=
  plan.upsertNodes.values.all (·.validate.isOk) && (plan.written g).isOk

theorem written_of_passes {plan : Plan} {g : PropertyGraph} (h : passes plan g = true) :
    plan.Valid ∧ plan.written g =
      .ok ((plan.cleared g).inserted plan.upsertNodes.values plan.upsertEdges.values) := by
  obtain ⟨hv, hw⟩ := Bool.and_eq_true_iff.mp h
  constructor
  · intro node hn
    have hok := List.all_eq_true.mp hv node hn
    cases hval : node.validate with
    | ok u => rfl
    | error e => rw [hval] at hok; simp [Except.isOk, Except.toBool] at hok
  · cases hres : plan.written g with
    | ok g' => rw [Plan.inserted_of_written hres]
    | error e => rw [hres] at hw; simp [Except.isOk, Except.toBool] at hw

/-- What a graph is turned into by the plan of a draft. -/
def laid (d : Draft) (g : PropertyGraph) : PropertyGraph :=
  (d.plan.cleared g).inserted d.plan.upsertNodes.values d.plan.upsertEdges.values

theorem apply_of_passes {changes : List UnitChange} {opened : List Draft.Reopening}
    (ho : b.book.reopened g b.markers changes = opened)
    (h : passes (b.book.draftWith b.markers changes opened).plan g = true) :
    b.apply changes g = (.ok ((b.book.draftWith b.markers changes opened).plan.toDelta,
      { b with book := (b.book.draftWith b.markers changes opened).book }),
      laid (b.book.draftWith b.markers changes opened) g) := by
  obtain ⟨valid, hw⟩ := written_of_passes h
  refine apply_ok ?_ valid hw
  rw [Bookkeeping.draftOn, ho]

/-- What is turned back, if the hops come in order as they are. -/
def unsortedReopened (book : Bookkeeping) (g : PropertyGraph) (markers : List String)
    (changes : List UnitChange) : List Draft.Reopening :=
  (book.added markers changes).goneNodes.flatMap fun id => (g.hops id).filterMap
    (Draft.reopen? (.ofList (changes.map (·.path))) (book.added markers changes).book.index id)

theorem reopened_of_pairwise {book : Bookkeeping} {changes : List UnitChange}
    (h : ∀ id ∈ (book.added markers changes).goneNodes,
      (g.hops id).Pairwise fun a b => (Neighbor.compareListed a b).isLE = true) :
    book.reopened g markers changes = unsortedReopened book g markers changes := by
  unfold Bookkeeping.reopened Draft.reopenings unsortedReopened
  refine List.flatMap_congr fun id hid => ?_
  rw [PropertyGraph.neighbors_of_pairwise (h id hid)]

/-- A module with one declaration, and what it calls there. -/
def sampleUnit (path name : String) (hash : UInt64) (calls : List String) : ParsedUnit where
  unit := ⟨path, .sourceModule, ⟨hash⟩⟩
  outline :=
    { declarations := [{ name, isExport := true, firstLine := 1, lastLine := 3 }]
      calls := calls.map fun callee => ⟨some name, callee, none, 2⟩ }

end Builder

end CodeAtlas
