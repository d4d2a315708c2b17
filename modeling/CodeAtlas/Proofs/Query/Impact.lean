import CodeAtlas.Proofs.Query.Circles
import CodeAtlas.Query.Impact

/-!
# Impact is the converse of dependency

A change to a node affects what depends on it. That is asked of the graph against its edges, from the
node that changes, whereas what a node depends on is asked along them, from the other end. Both expansions
are exact, and an edge that is followed backwards leads back; so they agree on every pair of nodes, at
every distance (`Expansion.Exact.converse`).

The tests and the placeholders are collected node by node. The tally speaks of the nodes it has been
through, whichever they are (`ImpactTally.Covers`); that these are the changed node and all that is
affected comes in at the end only. A test or a placeholder that several of them share counts once.
-/

set_option autoImplicit false

namespace CodeAtlas

open Std

/-- As many ids are in a set as it says. -/
theorem encard_eq_size (ids : ExtTreeSet NodeId) : Set.encard {id | id ∈ ids} = ids.size := by
  have hset : {id | id ∈ ids} = {id | id ∈ ids.toList} := by
    ext id
    simp
  rw [hset, encard_eq_length (Maps.nodup_toList ids), ExtTreeSet.length_toList]

/-! ## There and back -/

namespace Expansion.Exact

variable {g : PropertyGraph} {kinds : List EdgeKind} {direction : Direction} {start a b : NodeId}
  {maxDepth : Nat} {e e' : Expansion}

/-- An expansion that nothing has cut short has found what lies within its depth, and nothing else. -/
theorem reached_iff (exact : e.Exact g kinds direction start maxDepth) (whole : e.truncated = false)
    {id : NodeId} {n : Nat} : (∃ r ∈ e.reached, r.node.id = id ∧ r.depth = n) ↔
      id ≠ start ∧ n ≤ maxDepth ∧ g.Distance kinds direction start id n := by
  constructor
  · intro h
    obtain ⟨r, hr, rfl, rfl⟩ := h
    exact ⟨(exact.node r hr).1, exact.distance r hr⟩
  · intro h
    obtain ⟨hne, hle, hd⟩ := h
    have hpos : 1 ≤ n := by
      rw [Nat.one_le_iff_ne_zero]
      intro hzero
      exact hne (PropertyGraph.distance_zero_iff.mp (hzero ▸ hd))
    obtain ⟨r, hr, rfl⟩ := exact.complete whole id n hd hpos hle
    exact ⟨r, hr, rfl, (exact.distance r hr).2.unique hd⟩

theorem summary?_of_mem (exact : e.Exact g kinds direction start maxDepth) {r : Reached}
    (hr : r ∈ e.reached) : g.summary? r.node.id = some r.node := by
  obtain ⟨-, node, hnode, hsummary⟩ := exact.node r hr
  rw [PropertyGraph.summary?, hnode, Option.map_some, hsummary]

/-- One node is found from another against the edges as the other is found from it along them. -/
theorem converse (against : e.Exact g kinds .incoming a maxDepth) (hagainst : e.truncated = false)
    (along : e'.Exact g kinds .outgoing b maxDepth) (halong : e'.truncated = false) {n : Nat} :
    (∃ r ∈ e.reached, r.node.id = b ∧ r.depth = n) ↔
      b ≠ a ∧ ∃ r ∈ e'.reached, r.node.id = a ∧ r.depth = n := by
  rw [against.reached_iff hagainst, along.reached_iff halong, PropertyGraph.distance_incoming_iff]
  constructor
  · intro h
    exact ⟨h.1, h.1.symm, h.2⟩
  · intro h
    exact ⟨h.1, h.2.2⟩

end Expansion.Exact

/-! ## Tests and placeholders -/

namespace PropertyGraph

variable {g : PropertyGraph} {subject : NodeSummary} {a b : NodeId}

/-- Whether a node of the graph is a test of a node: it is that node and a test case, or an edge says
that the node is tested by it. -/
def IsTestOf (g : PropertyGraph) (subject : NodeId) (test : NodeSummary) : Prop :=
  g.summary? test.id = some test ∧
    ((test.id = subject ∧ test.kind = .testCase) ∨ g.Leads [.testedBy] .outgoing subject test.id)

/-- Whether a node depends on one that stands for a name that nothing declares. -/
def WaitsFor (g : PropertyGraph) (subject id : NodeId) : Prop :=
  g.DependsOn subject id ∧ ∃ node, g.get? id = some node ∧ node.kind = .unknown

theorem isTestOf_iff (keyed : g.Keyed) (closed : g.Closed)
    (shown : g.summary? subject.id = some subject) {test : NodeSummary} :
    g.IsTestOf subject.id test ↔ test ∈ (if subject.kind = .testCase then [subject] else []) ∨
      test ∈ g.adjacent subject.id [.testedBy] .outgoing := by
  rw [mem_adjacent_iff keyed closed, IsTestOf, and_or_left, and_comm (b := g.Leads _ _ _ _)]
  refine or_congr_left ?_
  constructor
  · intro h
    obtain ⟨htest, hid, hkind⟩ := h
    obtain rfl := eq_of_summary? htest shown hid
    simp [hkind]
  · intro h
    split at h
    next hkind =>
      obtain rfl := List.mem_singleton.mp h
      exact ⟨shown, rfl, hkind⟩
    next => cases h

theorem waitsFor_iff (keyed : g.Keyed) (closed : g.Closed) : g.WaitsFor a b ↔
    b ∈ ((g.adjacent a EdgeKind.structural .outgoing).filter (·.kind = .unknown)).map (·.id) := by
  constructor
  · intro h
    obtain ⟨depends, node, hnode, hkind⟩ := h
    have hid : node.id = b := keyed.nodes b node hnode
    refine List.mem_map.mpr ⟨node.summary, List.mem_filter.mpr ⟨?_, decide_eq_true hkind⟩, hid⟩
    refine (mem_adjacent_iff keyed closed).mpr ⟨?_, ?_⟩
    · show g.Leads _ _ a node.id
      exact hid ▸ depends
    · show g.summary? node.id = some node.summary
      rw [hid, summary?, hnode]
      rfl
  · intro h
    obtain ⟨n, hn, rfl⟩ := List.mem_map.mp h
    obtain ⟨hmem, hkind⟩ := List.mem_filter.mp hn
    obtain ⟨depends, hshown⟩ := (mem_adjacent_iff keyed closed).mp hmem
    obtain ⟨node, hnode, rfl⟩ := Option.map_eq_some_iff.mp hshown
    exact ⟨depends, node, hnode, of_decide_eq_true hkind⟩

end PropertyGraph

namespace ImpactTally

variable {g : PropertyGraph} {done : List NodeSummary} {tally : ImpactTally} {subject : NodeSummary}

/-- What a tally holds of the nodes that it has been through. -/
structure Covers (g : PropertyGraph) (done : List NodeSummary) (tally : ImpactTally) : Prop where
  tests : ∀ test, test ∈ tally.tests ↔ ∃ subject ∈ done, g.IsTestOf subject.id test
  placeholders : ∀ id, id ∈ tally.placeholders ↔ ∃ subject ∈ done, g.WaitsFor subject.id id
  whole : tally.truncated = false

theorem covers_nil (g : PropertyGraph) : Covers g [] {} := ⟨by simp, by simp, rfl⟩

/-- A tally with what is found at one more node. -/
def look (g : PropertyGraph) (tally : ImpactTally) (subject : NodeSummary) : ImpactTally :=
  { tally with
    tests := tally.tests ++ (if subject.kind = .testCase then [subject] else []) ++
      g.adjacent subject.id [.testedBy] .outgoing
    placeholders := ((g.adjacent subject.id EdgeKind.structural .outgoing).filter
      (·.kind = .unknown)).foldl (fun s n => s.insert n.id) tally.placeholders }

theorem Covers.look (covers : tally.Covers g done) (keyed : g.Keyed) (closed : g.Closed)
    (shown : g.summary? subject.id = some subject) :
    (tally.look g subject).Covers g (done ++ [subject]) := by
  constructor
  case tests =>
    intro test
    simp only [ImpactTally.look, List.append_assoc]
    rw [List.mem_append, List.mem_append, covers.tests, ← g.isTestOf_iff keyed closed shown]
    simp only [List.mem_append, List.mem_singleton, or_and_right, exists_or, exists_eq_left]
  case placeholders =>
    intro id
    simp only [ImpactTally.look]
    rw [Maps.mem_foldl_insert, covers.placeholders, ← g.waitsFor_iff keyed closed]
    simp only [List.mem_append, List.mem_singleton, or_and_right, exists_or, exists_eq_left]
  case whole => exact covers.whole

theorem Covers.foldl (covers : tally.Covers g done) (keyed : g.Keyed) (closed : g.Closed)
    {subjects : List NodeSummary}
    (shown : ∀ subject ∈ subjects, g.summary? subject.id = some subject) :
    (subjects.foldl (ImpactTally.look g) tally).Covers g (done ++ subjects) := by
  induction subjects generalizing done tally with
  | nil =>
    rw [List.append_nil]
    exact covers
  | cons subject rest ih =>
    have hlook := covers.look keyed closed (shown subject List.mem_cons_self)
    rw [List.append_cons]
    exact ih hlook fun t ht => shown t (List.mem_cons_of_mem subject ht)

end ImpactTally

/-- What a change to a node concerns, put together from all that depends on the node. -/
def PropertyGraph.impactOn (g : PropertyGraph) (changed : NodeId) (root : Node) (maxDepth : Nat) :
    ImpactReport :=
  let affected := Reached.sort
    (g.levels EdgeKind.structural .incoming maxDepth 0 [changed] {changed})
  let tally := (root.summary :: affected.map (·.node)).foldl (ImpactTally.look g) {}
  { affected, affectedTests := NodeSummary.distinctById tally.tests
    unresolved := tally.placeholders.size, truncated := tally.truncated }

/-! ## The report -/

namespace ImpactReport

/-- Whether a report speaks about a node: the one that changes, or one that is affected. -/
def Concerns (report : ImpactReport) (changed id : NodeId) : Prop :=
  id = changed ∨ ∃ r ∈ report.affected, r.node.id = id

theorem exists_concerns_iff {report : ImpactReport} {root : Node} {P : NodeId → Prop} :
    (∃ id, report.Concerns root.id id ∧ P id) ↔
      ∃ subject ∈ root.summary :: report.affected.map (·.node), P subject.id := by
  constructor
  · intro h
    obtain ⟨id, rfl | ⟨r, hr, rfl⟩, hP⟩ := h
    · exact ⟨root.summary, List.mem_cons_self, hP⟩
    · exact ⟨r.node, List.mem_cons_of_mem _ (List.mem_map_of_mem hr), hP⟩
  · intro h
    obtain ⟨subject, hs, hP⟩ := h
    rcases List.mem_cons.mp hs with rfl | hs
    · exact ⟨root.id, .inl rfl, hP⟩
    · obtain ⟨r, hr, rfl⟩ := List.mem_map.mp hs
      exact ⟨r.node.id, .inr ⟨r, hr, rfl⟩, hP⟩

end ImpactReport

namespace Query

variable {σ : Type} [Backend σ] {s : σ} {g : PropertyGraph} {changed : NodeId} {root : Node}

theorem tallyImpact_never (tells : TellsNeighbors s g) (subjects : List NodeSummary)
    {tally : ImpactTally} :
    tallyImpact subjects .never tally s = (.ok (subjects.foldl (ImpactTally.look g) tally), s) := by
  induction subjects generalizing tally with
  | nil => rfl
  | cons subject rest ih =>
    rw [List.foldl_cons, ← ih]
    show (related subject.id .testedBy .outgoing >>= _) s = _
    rw [Session.bind_ok (related_run tells _ _ _), Session.bind_ok (directDependencies_run tells _)]
    rfl

/-- The impact of a change is a function of the graph if there is time enough. -/
theorem impact_never (reads : ReadsAs s g) (hroot : g.get? changed = some root) (maxDepth : Nat) :
    impact changed maxDepth .never s = (.ok (g.impactOn changed root maxDepth), s) := by
  unfold impact
  rw [Session.bind_ok (requireNode_run reads hroot)]
  show (expand changed EdgeKind.structural .incoming maxDepth .never >>= _) s = _
  rw [Session.bind_ok (expand_never reads.neighbors _ _ _ _)]
  show (tallyImpact _ .never {} >>= _) s = _
  rw [Session.bind_ok (tallyImpact_never reads.neighbors _)]
  rfl

/-- What an impact is put together from. -/
theorem impact_run (made : g.Made) (reads : ReadsAs s g) (hroot : g.get? changed = some root)
    (maxDepth : Nat) : ∃ (dependents : Expansion) (tally : ImpactTally),
      impact changed maxDepth .never s = (.ok ⟨dependents.reached,
        NodeSummary.distinctById tally.tests, tally.placeholders.size, tally.truncated⟩, s) ∧
      dependents.Exact g EdgeKind.structural .incoming changed maxDepth ∧
      dependents.truncated = false ∧
      tally.Covers g (root.summary :: dependents.reached.map (·.node)) := by
  obtain ⟨dependents, left, hexpand, exact, -, -⟩ := expand_run made.keyed made.closed
    reads.neighbors changed EdgeKind.structural .incoming maxDepth .never
  rw [expand_never reads.neighbors] at hexpand
  cases hexpand
  refine ⟨_, _, impact_never reads hroot maxDepth, exact, rfl, ?_⟩
  refine (ImpactTally.covers_nil g).foldl made.keyed made.closed fun subject hs => ?_
  rcases List.mem_cons.mp hs with rfl | hs
  · show g.summary? root.id = some root.summary
    rw [made.keyed.nodes changed root hroot, PropertyGraph.summary?, hroot, Option.map_some]
  · obtain ⟨r, hr, rfl⟩ := List.mem_map.mp hs
    exact exact.summary?_of_mem hr

/-- The impact of a change to a node is exact if there is time enough. Affected are the nodes that depend
on it, each as far away as it is from them; the tests are those of the node and of all that is affected,
each once and by id; and as many placeholders are counted as these nodes wait for. -/
theorem impact_exact (made : g.Made) (reads : ReadsAs s g) (hroot : g.get? changed = some root)
    (maxDepth : Nat) :
    ∃ report, impact changed maxDepth .never s = (.ok report, s) ∧
      (∀ id n, (∃ r ∈ report.affected, r.node.id = id ∧ r.depth = n) ↔ id ≠ changed ∧
        ∃ dependencies left,
          transitiveDependencies id maxDepth .never s = (.ok (dependencies, left), s) ∧
            ∃ r ∈ dependencies.reached, r.node.id = changed ∧ r.depth = n) ∧
      report.affectedTests.Pairwise (fun a b => compare a.id b.id = .lt) ∧
      (∀ test, test ∈ report.affectedTests ↔
        ∃ subject, report.Concerns changed subject ∧ g.IsTestOf subject test) ∧
      (report.unresolved : ℕ∞) =
        Set.encard {id | ∃ subject, report.Concerns changed subject ∧ g.WaitsFor subject id} ∧
      report.truncated = false := by
  obtain ⟨dependents, tally, hrun, exact, hwhole, covers⟩ := impact_run made reads hroot maxDepth
  obtain rfl : root.id = changed := made.keyed.nodes changed root hroot
  refine ⟨_, hrun, ?_, NodeSummary.strict_distinctById _, ?_, ?_, covers.whole⟩
  · intro id n
    obtain ⟨dependencies, left, hexpand, exact', -, hnever⟩ := expand_run made.keyed made.closed
      reads.neighbors id EdgeKind.structural .outgoing maxDepth .never
    rw [exact.converse hwhole exact' (hnever rfl).1]
    refine and_congr_right fun _ => ?_
    constructor
    · intro h
      exact ⟨dependencies, left, hexpand, h⟩
    · intro h
      obtain ⟨found, left', hexpand', h⟩ := h
      -- Both are what the one expansion gives.
      have hruns := (Prod.mk.inj (hexpand.symm.trans hexpand')).1
      obtain rfl := (Prod.mk.inj (Except.ok.inj hruns)).1
      exact h
  · intro test
    rw [NodeSummary.mem_distinctById, covers.tests, ImpactReport.exists_concerns_iff]
    intro a ha b hb he
    -- Whichever node a test was met at, it was met as it stands in the graph.
    obtain ⟨-, -, hashown, -⟩ := (covers.tests a).mp ha
    obtain ⟨-, -, hbshown, -⟩ := (covers.tests b).mp hb
    exact PropertyGraph.eq_of_summary? hashown hbshown he
  · rw [← encard_eq_size]
    refine congrArg Set.encard (Set.ext fun id => ?_)
    show id ∈ tally.placeholders ↔ ∃ subject, _
    rw [covers.placeholders, ImpactReport.exists_concerns_iff]

/-- Two functions that call each other and wait for the same name. One is tested by a test that calls the
other. -/
def sampleTested : List Operation :=
  [.upsert [⟨⟨"f"⟩, .function, "f", ∅⟩, ⟨⟨"h"⟩, .function, "h", ∅⟩, ⟨⟨"t"⟩, .testCase, "t", ∅⟩,
      ⟨⟨"u"⟩, .unknown, "u", ∅⟩]
    [⟨⟨"f"⟩, ⟨"h"⟩, .calls, ∅⟩, ⟨⟨"h"⟩, ⟨"f"⟩, .calls, ∅⟩, ⟨⟨"t"⟩, ⟨"h"⟩, .calls, ∅⟩,
      ⟨⟨"f"⟩, ⟨"t"⟩, .testedBy, ∅⟩, ⟨⟨"f"⟩, ⟨"u"⟩, .calls, ∅⟩, ⟨⟨"h"⟩, ⟨"u"⟩, .calls, ∅⟩]]

/-- The test is affected itself and counts once, and so does the name. -/
theorem impact_exact_tested :
    (Operation.after ({} : PropertyGraph) sampleTested).Made ∧
      ReadsAs (Operation.after ({} : PropertyGraph) sampleTested) (Operation.after {} sampleTested) ∧
      (Operation.after ({} : PropertyGraph) sampleTested).get? ⟨"f"⟩ =
        some ⟨⟨"f"⟩, .function, "f", ∅⟩ ∧
      ∃ report, impact ⟨"f"⟩ 5 .never (Operation.after ({} : PropertyGraph) sampleTested) =
          (.ok report, Operation.after {} sampleTested) ∧
        report.affected.map (fun r => (r.node.id, r.depth)) = [(⟨"h"⟩, 1), (⟨"t"⟩, 2)] ∧
        report.affectedTests.map (·.id) = [⟨"t"⟩] ∧ report.unresolved = 1 ∧
        ∃ dependencies left,
          transitiveDependencies ⟨"t"⟩ 5 .never (Operation.after ({} : PropertyGraph) sampleTested) =
            (.ok (dependencies, left), Operation.after {} sampleTested) ∧
          ∃ r ∈ dependencies.reached, r.node.id = ⟨"f"⟩ ∧ r.depth = 2 := by
  have made : (Operation.after ({} : PropertyGraph) sampleTested).Made := ⟨sampleTested, rfl⟩
  have reads := readsAs_graph (Operation.after {} sampleTested)
  have hroot : (Operation.after ({} : PropertyGraph) sampleTested).get? ⟨"f"⟩ =
      some ⟨⟨"f"⟩, .function, "f", ∅⟩ := by
    rw [sampleTested, PropertyGraph.after_upsert]
    cbv
  obtain ⟨report, hrun, hconverse, -⟩ := impact_exact made reads hroot 5
  have hreport : (impact ⟨"f"⟩ 5 .never
      (Operation.after ({} : PropertyGraph) sampleTested)).1.toOption.map (fun report =>
        (report.affected.map (fun r => (r.node.id, r.depth)), report.affectedTests.map (·.id),
          report.unresolved)) = some ([(⟨"h"⟩, 1), (⟨"t"⟩, 2)], [⟨"t"⟩], 1) := by
    rw [impact_never reads hroot, sampleTested, PropertyGraph.after_upsert]
    cbv
  rw [hrun] at hreport
  obtain ⟨haffected, hrest⟩ := Prod.mk.inj (Option.some.inj hreport)
  obtain ⟨htests, hunresolved⟩ := Prod.mk.inj hrest
  have hreached : ((⟨"t"⟩ : NodeId), 2) ∈ report.affected.map fun r => (r.node.id, r.depth) := by
    rw [haffected]
    simp
  obtain ⟨r, hr, he⟩ := List.mem_map.mp hreached
  obtain ⟨-, hdependencies⟩ := (hconverse ⟨"t"⟩ 2).mp ⟨r, hr, Prod.mk.inj he⟩
  exact ⟨made, reads, hroot, report, hrun, haffected, htests, hunresolved, hdependencies⟩

end Query

end CodeAtlas
