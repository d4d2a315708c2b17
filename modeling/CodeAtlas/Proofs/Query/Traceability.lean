import CodeAtlas.Proofs.Query.Hop
import CodeAtlas.Query.Traceability

/-!
# The traceability matrix is exact

The chain of a requirement is followed from set to set, and at each set the store is asked about one
element after the other. What comes of it is said by the edges alone (`TraceEntry.Exact`), and a report is
the chains of the requirements, one after the other (`TraceReport.addAll`).

The risks of a requirement are read off its chain, and there is one at most of each kind
(`TraceEntry.countP_risks`). The numbers of a report are counted in the matrix and never in the list of
risks. That they agree with it nonetheless needs one thing of every chain: without code there are no tests
(`TraceEntry.Exact.isEmpty_tests`), for otherwise a requirement could be tested and not be implemented.
-/

set_option autoImplicit false

namespace CodeAtlas

open Std

/-- What meets a condition is counted once where it falls into one of two classes and not into both. -/
theorem countP_eq_add {α : Type} {p q r : α → Bool} {items : List α}
    (h : ∀ x ∈ items, p x = (q x || r x)) (apart : ∀ x ∈ items, (q x && r x) = false) :
    items.countP p = items.countP q + items.countP r := by
  induction items with
  | nil => rfl
  | cons x rest ih =>
    have hrest := ih (fun y hy => h y (List.mem_cons_of_mem x hy))
      fun y hy => apart y (List.mem_cons_of_mem x hy)
    have hx := apart x List.mem_cons_self
    rw [List.countP_cons, List.countP_cons, List.countP_cons, h x List.mem_cons_self, hrest]
    cases hq : q x with
    | false => simp [Nat.add_assoc]
    | true =>
      have hr : r x = false := by simpa [hq] using hx
      simp [hr]
      omega

/-! ## Following a chain -/

theorem Query.mem_idSet {nodes : List NodeSummary} {id : NodeId} :
    id ∈ Query.idSet nodes ↔ id ∈ nodes.map (·.id) := by
  rw [Query.idSet, Maps.mem_foldl_insert]
  simp

namespace PropertyGraph

variable {g : PropertyGraph} {sources : ExtTreeSet NodeId} {kind : EdgeKind} {id : NodeId}

/-- What edges of a kind lead to from some nodes, node by node. -/
def targets (g : PropertyGraph) (sources : ExtTreeSet NodeId) (kind : EdgeKind) : List NodeSummary :=
  sources.toList.flatMap fun id => g.adjacent id [kind] .outgoing

theorem mem_map_targets_iff (keyed : g.Keyed) (closed : g.Closed) :
    id ∈ (g.targets sources kind).map (·.id) ↔
      ∃ source ∈ sources, g.Leads [kind] .outgoing source id := by
  simp only [targets, List.map_flatMap, List.mem_flatMap, ExtTreeSet.mem_toList,
    mem_map_adjacent_iff keyed closed]

/-- The chain of a requirement in a graph. -/
def chain (g : PropertyGraph) (requirement : NodeId) : TraceEntry :=
  let code := Query.idSet (g.adjacent requirement [.implements] .outgoing)
  let tests := Query.idSet (g.targets code .testedBy)
  { code, tests
    incidents := Query.idSet (g.targets code .triggersIncident ++ g.targets tests .triggersIncident) }

end PropertyGraph

namespace TraceEntry

variable {g : PropertyGraph} {requirement : NodeId} {entry : TraceEntry}

/-- What the chain of a requirement is, edge by edge. -/
structure Exact (g : PropertyGraph) (requirement : NodeId) (entry : TraceEntry) : Prop where
  code : ∀ id, id ∈ entry.code ↔ g.Leads [.implements] .outgoing requirement id
  tests : ∀ id, id ∈ entry.tests ↔
    ∃ declaration ∈ entry.code, g.Leads [.testedBy] .outgoing declaration id
  incidents : ∀ id, id ∈ entry.incidents ↔
    ∃ source, (source ∈ entry.code ∨ source ∈ entry.tests) ∧
      g.Leads [.triggersIncident] .outgoing source id

theorem exact_chain (keyed : g.Keyed) (closed : g.Closed) (requirement : NodeId) :
    (g.chain requirement).Exact g requirement := by
  constructor
  case code =>
    intro id
    exact Query.mem_idSet.trans (PropertyGraph.mem_map_adjacent_iff keyed closed)
  case tests =>
    intro id
    exact Query.mem_idSet.trans (PropertyGraph.mem_map_targets_iff keyed closed)
  case incidents =>
    intro id
    refine Query.mem_idSet.trans ?_
    rw [List.map_append, List.mem_append, PropertyGraph.mem_map_targets_iff keyed closed,
      PropertyGraph.mem_map_targets_iff keyed closed]
    simp only [or_and_right, exists_or]
    rfl

/-- What is not implemented is not tested. -/
theorem Exact.isEmpty_tests (exact : entry.Exact g requirement) (h : entry.code.isEmpty = true) :
    entry.tests.isEmpty = true := by
  have hcode := ExtTreeSet.isEmpty_iff.mp h
  refine ExtTreeSet.isEmpty_iff.mpr (ExtTreeSet.ext_mem fun id => ?_)
  rw [exact.tests, hcode]
  simp

/-! ## The risks of a chain -/

/-- Whether a chain is at a risk of a kind. -/
def atRisk (entry : TraceEntry) : RiskKind → Bool
  | .implementationGap => entry.code.isEmpty
  | .coverageGap => !entry.code.isEmpty && entry.tests.isEmpty
  | .incidentCorrelation => !entry.incidents.isEmpty

theorem countP_risks (entry : TraceEntry) (requirement : NodeId) (kind : RiskKind) :
    (entry.risks requirement).countP (·.kind = kind) = if entry.atRisk kind then 1 else 0 := by
  unfold risks
  cases hcode : entry.code.isEmpty with
  | true =>
    -- Nothing is said about tests here.
    cases hincidents : entry.incidents.isEmpty <;> cases kind <;>
      simp [atRisk, hcode, hincidents]
  | false =>
    cases htests : entry.tests.isEmpty <;> cases hincidents : entry.incidents.isEmpty <;>
      cases kind <;> simp [atRisk, hcode, htests, hincidents]

/-- Every risk names its requirement, and an incident is critical where nothing tests the code. -/
theorem of_mem_risks {risk : TraceRisk} (h : risk ∈ entry.risks requirement) :
    risk.requirement = requirement ∧ (risk.kind = .incidentCorrelation →
      (risk.severity = .critical ↔ entry.tests.isEmpty = true)) := by
  unfold risks at h
  rcases List.mem_append.mp h with h | h
  · split at h
    next =>
      obtain rfl := List.mem_singleton.mp h
      exact ⟨rfl, fun hkind => by cases hkind⟩
    next =>
      split at h
      next =>
        obtain rfl := List.mem_singleton.mp h
        exact ⟨rfl, fun hkind => by cases hkind⟩
      next => cases h
  · split at h
    next => cases h
    next =>
      obtain rfl := List.mem_singleton.mp h
      refine ⟨rfl, fun _ => ?_⟩
      cases entry.tests.isEmpty <;> simp

/-- Asked about one requirement, a chain gives the risks of its own or none. -/
theorem filter_risks (entry : TraceEntry) (id requirement : NodeId) :
    (entry.risks id).filter (·.requirement = requirement) =
      if id = requirement then entry.risks id else [] := by
  split
  next hid =>
    refine List.filter_eq_self.mpr fun risk hrisk => ?_
    exact decide_eq_true ((of_mem_risks hrisk).1.trans hid)
  next hid =>
    refine List.filter_eq_nil_iff.mpr fun risk hrisk he => ?_
    exact hid ((of_mem_risks hrisk).1.symm.trans (of_decide_eq_true he))

end TraceEntry

/-! ## Reports -/

namespace TraceReport

variable {g : PropertyGraph} {ids : List NodeId} {report : TraceReport} {requirement : NodeId}

/-- The risks of one requirement. -/
def risksOf (report : TraceReport) (requirement : NodeId) : List TraceRisk :=
  report.risks.filter (·.requirement = requirement)

/-- How many risks of a kind a report has. -/
def count (report : TraceReport) (kind : RiskKind) : Nat := report.risks.countP (·.kind = kind)

/-- A report with the chains of some more requirements. -/
def addAll (g : PropertyGraph) (report : TraceReport) (ids : List NodeId) : TraceReport :=
  ids.foldl (fun report id => report.add id (g.chain id)) report

theorem truncated_addAll : (report.addAll g ids).truncated = report.truncated := by
  induction ids generalizing report with
  | nil => rfl
  | cons id rest ih => exact ih

theorem risks_addAll :
    (report.addAll g ids).risks = report.risks ++ ids.flatMap fun id => (g.chain id).risks id := by
  induction ids generalizing report with
  | nil => simp [addAll]
  | cons id rest ih =>
    show ((report.add id (g.chain id)).addAll g rest).risks = _
    rw [ih, List.flatMap_cons, ← List.append_assoc]
    rfl

theorem get_addAll : (report.addAll g ids).matrix[requirement]? =
    if requirement ∈ ids then some (g.chain requirement) else report.matrix[requirement]? := by
  induction ids generalizing report with
  | nil => simp [addAll]
  | cons id rest ih =>
    show ((report.add id (g.chain id)).addAll g rest).matrix[requirement]? = _
    rw [ih]
    by_cases hrest : requirement ∈ rest
    · simp [hrest]
    · rw [if_neg hrest, add, ExtTreeMap.getElem?_insert]
      by_cases hid : id = requirement
      · simp [hid]
      · have hnot : ¬ requirement = id := fun h => hid h.symm
        simp [hid, hrest, hnot]

/-- The chains stand in the order of their requirements. -/
theorem values_addAll (strict : ids.Pairwise fun a b => compare a b = .lt) :
    (addAll g {} ids).matrix.values = ids.map g.chain := by
  have hkeys : (addAll g {} ids).matrix.keys = ids := by
    refine Maps.eq_of_strict ExtTreeMap.ordered_keys strict fun id => ?_
    rw [ExtTreeMap.mem_keys, ← ExtTreeMap.isSome_getElem?_iff_mem, get_addAll]
    by_cases hid : id ∈ ids <;> simp [hid]
  rw [Maps.values_eq_map_keys, hkeys]
  intro id entry h
  rw [get_addAll] at h
  split at h
  next => exact Option.some.inj h
  next => simp at h

/-- The risks of a requirement are those of its chain, wherever it stands. -/
theorem risksOf_addAll (nodup : ids.Nodup) (h : requirement ∈ ids) :
    (addAll g {} ids).risksOf requirement = (g.chain requirement).risks requirement := by
  rw [risksOf, risks_addAll, List.nil_append, List.filter_flatMap]
  simp only [TraceEntry.filter_risks]
  induction ids with
  | nil => cases h
  | cons id rest ih =>
    obtain ⟨hfresh, hnodup⟩ := List.nodup_cons.mp nodup
    rw [List.flatMap_cons]
    by_cases hid : id = requirement
    · subst hid
      have hbehind : (rest.flatMap fun other =>
          if other = id then (g.chain other).risks other else []) = [] := by
        refine List.flatMap_eq_nil_iff.mpr fun other hother => if_neg fun he => ?_
        exact hfresh (he ▸ hother)
      rw [if_pos rfl, hbehind, List.append_nil]
    · have hmem : requirement ∈ rest := (List.mem_cons.mp h).resolve_left fun he => hid he.symm
      rw [if_neg hid, List.nil_append, ih hnodup hmem]

/-- As many risks of a kind are listed as there are chains at that risk. -/
theorem count_addAll (kind : RiskKind) :
    (addAll g {} ids).count kind = (ids.map g.chain).countP (·.atRisk kind) := by
  rw [count, risks_addAll, List.nil_append]
  induction ids with
  | nil => rfl
  | cons id rest ih =>
    rw [List.flatMap_cons, List.countP_append, ih, TraceEntry.countP_risks, List.map_cons,
      List.countP_cons, Nat.add_comm]

section Numbers

variable (strict : ids.Pairwise fun a b => compare a b = .lt)
include strict

theorem total_addAll : (addAll g {} ids).total =
    (addAll g {} ids).implemented + (addAll g {} ids).count .implementationGap := by
  have htotal : (addAll g {} ids).total = (ids.map g.chain).countP fun _ => true := by
    rw [List.countP_true, ← values_addAll strict, total, Maps.values_eq_map_toList, List.length_map,
      ExtTreeMap.length_toList]
  rw [htotal, implemented, values_addAll strict, count_addAll]
  refine countP_eq_add (fun entry _ => ?_) fun entry _ => ?_
  · show true = (!entry.code.isEmpty || entry.code.isEmpty)
    cases entry.code.isEmpty <;> rfl
  · show (!entry.code.isEmpty && entry.code.isEmpty) = false
    cases entry.code.isEmpty <;> rfl

theorem implemented_addAll (keyed : g.Keyed) (closed : g.Closed) :
    (addAll g {} ids).implemented =
      (addAll g {} ids).tested + (addAll g {} ids).count .coverageGap := by
  rw [implemented, tested, values_addAll strict, count_addAll]
  refine countP_eq_add (fun entry h => ?_) fun entry _ => ?_
  · show (!entry.code.isEmpty) = (!entry.tests.isEmpty || (!entry.code.isEmpty && entry.tests.isEmpty))
    obtain ⟨id, -, rfl⟩ := List.mem_map.mp h
    have htests := (TraceEntry.exact_chain keyed closed id).isEmpty_tests
    cases hcode : (g.chain id).code.isEmpty with
    | true => simp [htests hcode]
    | false => cases (g.chain id).tests.isEmpty <;> rfl
  · show (!entry.tests.isEmpty && (!entry.code.isEmpty && entry.tests.isEmpty)) = false
    cases entry.tests.isEmpty <;> simp

theorem withIncidents_addAll :
    (addAll g {} ids).withIncidents = (addAll g {} ids).count .incidentCorrelation := by
  rw [withIncidents, values_addAll strict, count_addAll]
  rfl

end Numbers

end TraceReport

/-! ## Over a store -/

namespace Query

variable {σ : Type} [Backend σ] {s : σ} {g : PropertyGraph}

theorem trace_run (tells : TellsNeighbors s g) (requirement : NodeId) :
    trace requirement s = (.ok (g.chain requirement), s) := by
  have hcode : ∀ code : ExtTreeSet NodeId, (code.toList.mapM fun id => do
        let tests ← related id .testedBy .outgoing
        return (tests, ← related id .triggersIncident .outgoing) :
          Session σ (List (List NodeSummary × List NodeSummary))) s =
      (.ok (code.toList.map fun id =>
        (g.adjacent id [.testedBy] .outgoing, g.adjacent id [.triggersIncident] .outgoing)), s) := by
    intro code
    refine Session.mapM_run fun id _ => ?_
    rw [Session.bind_ok (related_run tells _ _ _), Session.bind_ok (related_run tells _ _ _)]
    rfl
  have htests : ∀ tests : ExtTreeSet NodeId,
      (tests.toList.mapM fun id => related id .triggersIncident .outgoing :
        Session σ (List (List NodeSummary))) s =
      (.ok (tests.toList.map fun id => g.adjacent id [.triggersIncident] .outgoing), s) := by
    intro tests
    exact Session.mapM_run fun id _ => related_run tells _ _ _
  unfold trace
  rw [Session.bind_ok (related_run tells _ _ _)]
  dsimp only
  rw [Session.bind_ok (hcode _), Session.bind_ok (htests _)]
  simp only [List.flatMap_map, ← List.flatMap_def]
  rfl

theorem traceAll_run (tells : TellsNeighbors s g) {ids : List NodeId} {report : TraceReport} :
    traceAll ids .never report s = (.ok (report.addAll g ids), s) := by
  induction ids generalizing report with
  | nil => rfl
  | cons id rest ih =>
    show (trace id >>= fun entry => traceAll rest .never (report.add id entry)) s = _
    rw [Session.bind_ok (trace_run tells id), ih]
    rfl

/-- The matrix of all requirements is exact if there is time enough: it has one chain for each of them, and
every chain is what the edges tell. A requirement has a risk of a kind if its chain is at that risk, and then
one, and the numbers of the report are the numbers of its risks. -/
theorem traceability_exact (made : g.Made) (reads : ReadsAs s g) :
    ∃ report, traceability .never s = (.ok report, s) ∧ report.truncated = false ∧
      (∀ requirement, (∃ entry, report.matrix[requirement]? = some entry) ↔
        ∃ node, g.get? requirement = some node ∧ node.kind = .requirement) ∧
      (∀ requirement entry, report.matrix[requirement]? = some entry →
        entry.Exact g requirement ∧
        (∀ ids ∈ [entry.code, entry.tests, entry.incidents],
          ids.toList.Pairwise fun a b => compare a b = .lt) ∧
        (∀ kind, (report.risksOf requirement).countP (·.kind = kind) =
          if entry.atRisk kind then 1 else 0) ∧
        ∀ risk ∈ report.risksOf requirement, risk.kind = .incidentCorrelation →
          (risk.severity = .critical ↔ entry.tests.isEmpty = true)) ∧
      (∀ risk ∈ report.risks, ∃ entry, report.matrix[risk.requirement]? = some entry) ∧
      report.total = report.implemented + report.count .implementationGap ∧
      report.implemented = report.tested + report.count .coverageGap ∧
      report.withIncidents = report.count .incidentCorrelation := by
  have strict := PropertyGraph.strict_find made.keyed (some .requirement) {}
  have hmatrix : ∀ requirement entry, (TraceReport.addAll g {}
      ((g.find (some .requirement) {}).map (·.id))).matrix[requirement]? = some entry →
        requirement ∈ (g.find (some .requirement) {}).map (·.id) ∧ g.chain requirement = entry := by
    intro requirement entry h
    rw [TraceReport.get_addAll] at h
    split at h
    next hmem => exact ⟨hmem, Option.some.inj h⟩
    next => simp at h
  refine ⟨TraceReport.addAll g {} ((g.find (some .requirement) {}).map (·.id)), ?_, ?_, ?_, ?_, ?_,
    TraceReport.total_addAll strict, TraceReport.implemented_addAll strict made.keyed made.closed,
    TraceReport.withIncidents_addAll strict⟩
  · unfold traceability
    rw [Session.bind_ok (nodesOfKind_run reads .requirement)]
    exact traceAll_run reads.neighbors
  · exact TraceReport.truncated_addAll
  · intro requirement
    rw [← PropertyGraph.mem_map_find_iff made.keyed]
    constructor
    · intro h
      obtain ⟨entry, hentry⟩ := h
      exact (hmatrix requirement entry hentry).1
    · intro h
      exact ⟨g.chain requirement, by rw [TraceReport.get_addAll, if_pos h]⟩
  · intro requirement entry h
    obtain ⟨hmem, rfl⟩ := hmatrix requirement entry h
    rw [TraceReport.risksOf_addAll (strict.imp fun hlt he => by simp [he] at hlt) hmem]
    refine ⟨TraceEntry.exact_chain made.keyed made.closed requirement, ?_,
      TraceEntry.countP_risks _ _, fun risk hrisk => (TraceEntry.of_mem_risks hrisk).2⟩
    intro ids _
    exact ExtTreeSet.ordered_toList
  · intro risk hrisk
    rw [TraceReport.risks_addAll, List.nil_append] at hrisk
    obtain ⟨requirement, hmem, hrisk⟩ := List.mem_flatMap.mp hrisk
    rw [(TraceEntry.of_mem_risks hrisk).1]
    exact ⟨g.chain requirement, by rw [TraceReport.get_addAll, if_pos hmem]⟩

/-- Three requirements. The code of the first is tested, and its test has triggered an incident; the code of
the second has triggered the same incident and is not tested; the third has no code. -/
def sampleTraced : List Operation :=
  [.upsert [⟨⟨"r1"⟩, .requirement, "r1", ∅⟩, ⟨⟨"r2"⟩, .requirement, "r2", ∅⟩,
      ⟨⟨"r3"⟩, .requirement, "r3", ∅⟩, ⟨⟨"c"⟩, .function, "c", ∅⟩, ⟨⟨"d"⟩, .function, "d", ∅⟩,
      ⟨⟨"t"⟩, .testCase, "t", ∅⟩, ⟨⟨"i"⟩, .incident, "i", ∅⟩]
    [⟨⟨"r1"⟩, ⟨"c"⟩, .implements, ∅⟩, ⟨⟨"r2"⟩, ⟨"d"⟩, .implements, ∅⟩, ⟨⟨"c"⟩, ⟨"t"⟩, .testedBy, ∅⟩,
      ⟨⟨"t"⟩, ⟨"i"⟩, .triggersIncident, ∅⟩, ⟨⟨"d"⟩, ⟨"i"⟩, .triggersIncident, ∅⟩]]

/-- The matrix has three chains, two of them with code and one with tests. -/
theorem traceability_exact_traced :
    (Operation.after ({} : PropertyGraph) sampleTraced).Made ∧
      ReadsAs (Operation.after ({} : PropertyGraph) sampleTraced) (Operation.after {} sampleTraced) ∧
      ∃ report, traceability .never (Operation.after ({} : PropertyGraph) sampleTraced) =
          (.ok report, Operation.after {} sampleTraced) ∧
        report.risks.map (fun risk => (risk.kind, risk.requirement, risk.severity)) =
          [(.incidentCorrelation, ⟨"r1"⟩, .high), (.coverageGap, ⟨"r2"⟩, .medium),
            (.incidentCorrelation, ⟨"r2"⟩, .critical), (.implementationGap, ⟨"r3"⟩, .high)] ∧
        report.total = 3 ∧ report.implemented = 2 ∧ report.tested = 1 ∧ report.withIncidents = 2 ∧
        report.count .implementationGap = 1 ∧ report.count .coverageGap = 1 ∧
        report.count .incidentCorrelation = 2 := by
  have made : (Operation.after ({} : PropertyGraph) sampleTraced).Made := ⟨sampleTraced, rfl⟩
  have reads := readsAs_graph (Operation.after {} sampleTraced)
  obtain ⟨report, hrun, -, -, -, -, himplemented, htested, hincidents⟩ := traceability_exact made reads
  have hnodes : ((Operation.after ({} : PropertyGraph) sampleTraced).find (some .requirement) {}).map
      (·.id) = [⟨"r1"⟩, ⟨"r2"⟩, ⟨"r3"⟩] := by
    rw [PropertyGraph.find_unfiltered, sampleTraced, PropertyGraph.after_upsert]
    cbv
  have hreport : (traceability .never
      (Operation.after ({} : PropertyGraph) sampleTraced)).1.toOption.map (fun report =>
        (report.risks.map (fun risk => (risk.kind, risk.requirement, risk.severity)), report.total,
          report.implemented, report.tested, report.withIncidents)) =
      some ([(.incidentCorrelation, ⟨"r1"⟩, .high), (.coverageGap, ⟨"r2"⟩, .medium),
        (.incidentCorrelation, ⟨"r2"⟩, .critical), (.implementationGap, ⟨"r3"⟩, .high)], 3, 2, 1, 2) := by
    unfold traceability
    rw [Session.bind_ok (nodesOfKind_run reads .requirement), hnodes,
      traceAll_run reads.neighbors, sampleTraced, PropertyGraph.after_upsert]
    cbv
  rw [hrun] at hreport
  obtain ⟨hrisks, hnumbers⟩ := Prod.mk.inj (Option.some.inj hreport)
  obtain ⟨h3, hnumbers⟩ := Prod.mk.inj hnumbers
  obtain ⟨h2, hnumbers⟩ := Prod.mk.inj hnumbers
  obtain ⟨h1, hwith⟩ := Prod.mk.inj hnumbers
  exact ⟨made, reads, report, hrun, hrisks, h3, h2, h1, hwith, by omega, by omega, by omega⟩

end Query

end CodeAtlas
