import CodeAtlas.Proofs.Query.Circles
import CodeAtlas.Query.Coverage
import Mathlib.Algebra.Order.BigOperators.Group.List
import Mathlib.Data.Nat.Cast.Order.Ring

/-!
# Coverage counts each declaration once

The declarations that a report is about are collected level by level, and a node comes up as often as there
are ways down to it. That there is a way down of a length is all that the levels know of a node
(`PropertyGraph.mem_below_iff`), so that it does not matter how many ways there are, nor whether they go in
circles: once the nodes are told apart by their ids, they are those that some way leads to, each once.

The rest of a report is read off these declarations (`CoverageReport.Exact`). Numerator and denominator of
the branch coverage are sums over the same list, and are compared there term by term.
-/

set_option autoImplicit false

namespace CodeAtlas

open Std

/-! ## Ways down -/

namespace PropertyGraph

variable {g : PropertyGraph} {a b id : NodeId} {frontier : List NodeId} {levels : Nat} {node : Node}

/-- A node that a report on what is above it looks into. -/
def Passes (g : PropertyGraph) (id : NodeId) : Prop :=
  ∃ node, g.get? id = some node ∧ CoverageReport.isDeclaration node.kind = false

/-- A way down, from container to content, of as many edges. No node between its ends is a declaration. -/
inductive Descends (g : PropertyGraph) : Nat → NodeId → NodeId → Prop
  | child {a b : NodeId} (leads : g.Leads [.contains] .outgoing a b) : Descends g 1 a b
  | through {n : Nat} {a b c : NodeId} (leads : g.Leads [.contains] .outgoing a b) (passes : g.Passes b)
      (rest : Descends g n b c) : Descends g (n + 1) a c

/-- The functions and procedures that a report on a node is about. -/
def IsSubject (g : PropertyGraph) (root id : NodeId) : Prop :=
  (∃ node, g.get? id = some node ∧ node.kind.isCode = true) ∧ ∃ n ≤ 3, g.Descends n root id

/-- The functions and procedures that a node contains. -/
def contents (g : PropertyGraph) (id : NodeId) : List Node :=
  ((g.adjacent id [.contains] .outgoing).filter (·.kind.isCode)).filterMap fun child => g.get? child.id

/-- What a node contains that is no declaration. -/
def containers (g : PropertyGraph) (id : NodeId) : List NodeId :=
  ((g.adjacent id [.contains] .outgoing).filter (!CoverageReport.isDeclaration ·.kind)).map (·.id)

/-- The functions and procedures below some nodes, level by level. -/
def below (g : PropertyGraph) : Nat → List NodeId → List Node
  | 0, _ => []
  | levels + 1, frontier =>
    frontier.flatMap g.contents ++ g.below levels (frontier.flatMap g.containers)

theorem below_nil (g : PropertyGraph) (levels : Nat) : g.below levels [] = [] := by
  induction levels with
  | zero => rfl
  | succ levels ih => exact ih

/-- What is listed of a child is what stands in the graph. -/
theorem mem_adjacent_of_get? (keyed : g.Keyed) (closed : g.Closed) {kinds : List EdgeKind}
    {direction : Direction} (hnode : g.get? node.id = some node) :
    node.summary ∈ g.adjacent a kinds direction ↔ g.Leads kinds direction a node.id := by
  have hshown : g.summary? node.summary.id = some node.summary :=
    congrArg (Option.map Node.summary) hnode
  rw [mem_adjacent_iff keyed closed]
  exact and_iff_left hshown

theorem get?_of_summary? (keyed : g.Keyed) {s : NodeSummary} (h : g.summary? s.id = some s) :
    ∃ node, g.get? node.id = some node ∧ node.summary = s := by
  obtain ⟨node, hnode, hs⟩ := Option.map_eq_some_iff.mp h
  have hid : node.id = s.id := keyed.nodes s.id node hnode
  exact ⟨node, hid ▸ hnode, hs⟩

theorem mem_contents_iff (keyed : g.Keyed) (closed : g.Closed) :
    node ∈ g.contents a ↔ (g.get? node.id = some node ∧ node.kind.isCode = true) ∧
      g.Leads [.contains] .outgoing a node.id := by
  rw [contents, List.mem_filterMap]
  constructor
  · intro h
    obtain ⟨child, hchild, hnode⟩ := h
    obtain ⟨hadjacent, hcode⟩ := List.mem_filter.mp hchild
    obtain ⟨hleads, hshown⟩ := (mem_adjacent_iff keyed closed).mp hadjacent
    obtain ⟨found, hfound, rfl⟩ := get?_of_summary? keyed hshown
    obtain rfl : found = node := Option.some.inj (hfound.symm.trans hnode)
    exact ⟨⟨hfound, hcode⟩, hleads⟩
  · intro h
    obtain ⟨⟨hnode, hcode⟩, hleads⟩ := h
    have hadjacent := (mem_adjacent_of_get? keyed closed hnode).mpr hleads
    exact ⟨node.summary, List.mem_filter.mpr ⟨hadjacent, hcode⟩, hnode⟩

theorem mem_containers_iff (keyed : g.Keyed) (closed : g.Closed) :
    b ∈ g.containers a ↔ g.Leads [.contains] .outgoing a b ∧ g.Passes b := by
  rw [containers, List.mem_map]
  constructor
  · intro h
    obtain ⟨child, hchild, rfl⟩ := h
    obtain ⟨hadjacent, hopen⟩ := List.mem_filter.mp hchild
    obtain ⟨hleads, hshown⟩ := (mem_adjacent_iff keyed closed).mp hadjacent
    obtain ⟨node, hnode, rfl⟩ := get?_of_summary? keyed hshown
    exact ⟨hleads, node, hnode, (Bool.not_eq_true' _).mp hopen⟩
  · intro h
    obtain ⟨hleads, node, hnode, hopen⟩ := h
    obtain rfl : node.id = b := keyed.nodes b node hnode
    have hadjacent := (mem_adjacent_of_get? keyed closed hnode).mpr hleads
    exact ⟨node.summary, List.mem_filter.mpr ⟨hadjacent, (Bool.not_eq_true' _).mpr hopen⟩, rfl⟩

/-- A way down is one edge, or it begins with one to a node that is no declaration. -/
theorem descends_iff {n : Nat} : g.Descends n a b ↔
    (n = 1 ∧ g.Leads [.contains] .outgoing a b) ∨
      ∃ m c, n = m + 1 ∧ (g.Leads [.contains] .outgoing a c ∧ g.Passes c) ∧ g.Descends m c b := by
  constructor
  · intro h
    cases h with
    | child leads => exact .inl ⟨rfl, leads⟩
    | through leads passes rest => exact .inr ⟨_, _, rfl, ⟨leads, passes⟩, rest⟩
  · intro h
    rcases h with ⟨rfl, leads⟩ | ⟨m, c, rfl, ⟨leads, passes⟩, rest⟩
    · exact .child leads
    · exact .through leads passes rest

theorem Descends.pos {n : Nat} (h : g.Descends n a b) : 0 < n := by
  cases h with
  | child => exact Nat.one_pos
  | through => exact Nat.succ_pos _

/-- A node is met below others exactly if a way down leads to it from one of them. -/
theorem mem_below_iff (keyed : g.Keyed) (closed : g.Closed) :
    node ∈ g.below levels frontier ↔ (g.get? node.id = some node ∧ node.kind.isCode = true) ∧
      ∃ start ∈ frontier, ∃ n ≤ levels, g.Descends n start node.id := by
  induction levels generalizing frontier with
  | zero =>
    refine iff_of_false List.not_mem_nil fun h => ?_
    obtain ⟨-, start, -, n, hn, way⟩ := h
    exact absurd way.pos (Nat.not_lt.mpr hn)
  | succ levels ih =>
    rw [below, List.mem_append, List.mem_flatMap, ih]
    constructor
    · intro h
      rcases h with ⟨start, hstart, hnode⟩ | ⟨hcode, via, hvia, n, hn, way⟩
      · obtain ⟨hcode, hleads⟩ := (mem_contents_iff keyed closed).mp hnode
        exact ⟨hcode, start, hstart, 1, Nat.le_add_left 1 levels, .child hleads⟩
      · obtain ⟨start, hstart, hvia⟩ := List.mem_flatMap.mp hvia
        obtain ⟨hleads, hpasses⟩ := (mem_containers_iff keyed closed).mp hvia
        exact ⟨hcode, start, hstart, n + 1, Nat.succ_le_succ hn, .through hleads hpasses way⟩
    · intro h
      obtain ⟨hcode, start, hstart, n, hn, way⟩ := h
      rcases descends_iff.mp way with ⟨rfl, hleads⟩ | ⟨m, via, rfl, hvia, rest⟩
      · exact .inl ⟨start, hstart, (mem_contents_iff keyed closed).mpr ⟨hcode, hleads⟩⟩
      · have hmem : via ∈ frontier.flatMap g.containers :=
          List.mem_flatMap.mpr ⟨start, hstart, (mem_containers_iff keyed closed).mpr hvia⟩
        exact .inr ⟨hcode, via, hmem, m, Nat.le_of_succ_le_succ hn, rest⟩

/-! ## The subjects of a report -/

/-- The declarations that a report on a node is about, each once and by id. -/
def declared (g : PropertyGraph) (root : NodeId) : List Node :=
  ((g.below 3 [root]).foldl (fun m node => m.insertIfNew node.id node)
    (∅ : ExtTreeMap NodeId Node)).values

theorem strict_declared (g : PropertyGraph) (root : NodeId) :
    ((g.declared root).map (·.id)).Pairwise fun a b => compare a b = .lt := by
  rw [declared, Maps.map_values_foldl_insertIfNew]
  exact ExtTreeMap.ordered_keys

theorem mem_declared_iff (keyed : g.Keyed) (closed : g.Closed) {root : NodeId} :
    node ∈ g.declared root ↔ g.get? node.id = some node ∧ g.IsSubject root node.id := by
  rw [declared, Maps.mem_values_foldl_insertIfNew, mem_below_iff keyed closed]
  · constructor
    · intro h
      obtain ⟨⟨hnode, hcode⟩, start, hstart, hway⟩ := h
      obtain rfl := List.mem_singleton.mp hstart
      exact ⟨hnode, ⟨node, hnode, hcode⟩, hway⟩
    · intro h
      obtain ⟨hnode, ⟨found, hfound, hcode⟩, hway⟩ := h
      obtain rfl : node = found := Option.some.inj (hnode.symm.trans hfound)
      exact ⟨⟨hnode, hcode⟩, root, List.mem_singleton_self root, hway⟩
  · -- Whichever way a node was met on, it was met as it stands in the graph.
    intro a ha b hb hid
    obtain ⟨⟨hga, -⟩, -⟩ := (mem_below_iff keyed closed).mp ha
    obtain ⟨⟨hgb, -⟩, -⟩ := (mem_below_iff keyed closed).mp hb
    rw [hid] at hga
    exact Option.some.inj (hga.symm.trans hgb)

theorem mem_map_declared_iff (keyed : g.Keyed) (closed : g.Closed) {root : NodeId} :
    id ∈ (g.declared root).map (·.id) ↔ g.IsSubject root id := by
  rw [List.mem_map]
  constructor
  · intro h
    obtain ⟨node, hnode, rfl⟩ := h
    exact ((mem_declared_iff keyed closed).mp hnode).2
  · intro h
    obtain ⟨node, hnode, -⟩ := h.1
    obtain rfl : node.id = id := keyed.nodes id node hnode
    exact ⟨node, (mem_declared_iff keyed closed).mpr ⟨hnode, h⟩, rfl⟩

/-- A declaration with the number of its tests. -/
def subject (g : PropertyGraph) (node : Node) : CoverageSubject :=
  .ofNode node (g.adjacent node.id [.testedBy] .outgoing).length

/-- What a report on a node is about. -/
def subjects (g : PropertyGraph) (root : NodeId) : List CoverageSubject :=
  (g.declared root).map g.subject

/-- A hop counts every node that it leads to once. -/
theorem encard_leads (keyed : g.Keyed) (closed : g.Closed) (kinds : List EdgeKind)
    (direction : Direction) :
    Set.encard {b | g.Leads kinds direction a b} = (g.adjacent a kinds direction).length := by
  have hset : {b | g.Leads kinds direction a b} = {b | b ∈ (g.adjacent a kinds direction).map (·.id)} :=
    Set.ext fun b => (mem_map_adjacent_iff keyed closed).symm
  rw [hset, encard_eq_length (g.nodup_map_adjacent a kinds direction), List.length_map]

end PropertyGraph

/-! ## What a report says of its subjects -/

namespace CoverageSubject

/-- Whether there is a complaint of a kind about a declaration. -/
def hasGap (settings : CoverageSettings) (x : CoverageSubject) : GapKind → Bool
  | .highComplexityLowTests => settings.effectiveHighComplexity ≤ x.complexity &&
      x.tests < settings.effectiveMinTestsForComplex
  | .untestedExport => x.isExport && x.tests = 0
  | .lowModuleCoverage => false

/-- The kinds of complaint that a declaration can give rise to, as they are listed. -/
def gapKinds (settings : CoverageSettings) (x : CoverageSubject) : List GapKind :=
  [.highComplexityLowTests, .untestedExport].filter (x.hasGap settings)

theorem map_gaps (settings : CoverageSettings) (x : CoverageSubject) :
    (x.gaps settings).map (fun gap => (gap.node, gap.kind)) =
      (x.gapKinds settings).map fun kind => (x.id, kind) := by
  unfold gaps gapKinds
  cases hcomplex : x.hasGap settings .highComplexityLowTests <;>
    cases huntested : x.hasGap settings .untestedExport <;>
    simp_all [hasGap]

end CoverageSubject

namespace CoverageReport

variable {subjects : List CoverageSubject}

theorem foldl_add_eq_sum (f : CoverageSubject → Nat) (n : Nat) :
    subjects.foldl (fun n x => n + f x) n = n + (subjects.map f).sum := by
  induction subjects generalizing n with
  | nil => rfl
  | cons x rest ih => rw [List.foldl_cons, ih, List.map_cons, List.sum_cons, Nat.add_assoc]

/-- Tests reach no more branches than there are. -/
theorem sum_coveredBranches_le :
    (subjects.map (·.coveredBranches)).sum ≤ (subjects.map (·.complexity)).sum :=
  List.sum_le_sum fun x _ => Nat.min_le_right x.tests x.complexity

/-- They reach all of them only if they do so in every declaration. -/
theorem sum_coveredBranches_eq_iff :
    (subjects.map (·.coveredBranches)).sum = (subjects.map (·.complexity)).sum ↔
      ∀ x ∈ subjects, x.complexity ≤ x.tests := by
  induction subjects with
  | nil => simp
  | cons x rest ih =>
    have hrest : (rest.map (·.coveredBranches)).sum ≤ (rest.map (·.complexity)).sum :=
      sum_coveredBranches_le
    have hx : x.coveredBranches ≤ x.complexity := Nat.min_le_right x.tests x.complexity
    rw [List.map_cons, List.map_cons, List.sum_cons, List.sum_cons, List.forall_mem_cons, ← ih]
    have hmin : x.coveredBranches = x.complexity ↔ x.complexity ≤ x.tests := min_eq_right_iff
    rw [← hmin]
    omega

/-- What a report on a node that is no declaration says of its subjects. -/
structure Exact (g : PropertyGraph) (settings : CoverageSettings) (root : NodeId)
    (subjects : List CoverageSubject) (report : CoverageReport) : Prop where
  ordered : (subjects.map (·.id)).Pairwise fun a b => compare a b = .lt
  /-- Functions and procedures count, each once, if some way down leads to them. -/
  subject_iff : ∀ id, id ∈ subjects.map (·.id) ↔ g.IsSubject root id
  /-- What counts of a declaration is what its node records, and the number of its tests. -/
  recorded : ∀ x ∈ subjects, ∃ node, g.get? x.id = some node ∧ x = .ofNode node x.tests
  tests : ∀ x ∈ subjects, (x.tests : ℕ∞) = Set.encard {test | g.Leads [.testedBy] .outgoing x.id test}
  tested_iff : ∀ x ∈ subjects, 0 < x.tests ↔ ∃ test, g.Leads [.testedBy] .outgoing x.id test
  code : report.codeCoverage = Metrics.ratio (subjects.countP (0 < ·.tests)) subjects.length 1.0
  branches : report.branchCoverage = Metrics.ratio (subjects.map fun x => min x.tests x.complexity).sum
    (subjects.map (·.complexity)).sum 1.0
  covered_le : (subjects.map fun x => min x.tests x.complexity).sum ≤ (subjects.map (·.complexity)).sum
  covered_eq_iff : (subjects.map fun x => min x.tests x.complexity).sum =
    (subjects.map (·.complexity)).sum ↔ ∀ x ∈ subjects, x.complexity ≤ x.tests
  /-- The complaints about the subjects come first, and one about the whole may follow. -/
  gaps : report.gaps.map (fun gap => (gap.node, gap.kind)) =
    (subjects.flatMap fun x => (x.gapKinds settings).map fun kind => (x.id, kind)) ++
      if subjects ≠ [] ∧ report.codeCoverage < settings.effectiveLowCoverage then
        [(root, .lowModuleCoverage)] else []

theorem gaps_ofSubjects (settings : CoverageSettings) {root : Node}
    (whole : isDeclaration root.kind = false) (subjects : List CoverageSubject) :
    (ofSubjects settings root subjects).gaps.map (fun gap => (gap.node, gap.kind)) =
      (subjects.flatMap fun x => (x.gapKinds settings).map fun kind => (x.id, kind)) ++
        if subjects ≠ [] ∧
            (ofSubjects settings root subjects).codeCoverage < settings.effectiveLowCoverage then
          [(root.id, .lowModuleCoverage)] else [] := by
  have hsubjects : (subjects.flatMap (·.gaps settings)).map (fun gap => (gap.node, gap.kind)) =
      subjects.flatMap fun x => (x.gapKinds settings).map fun kind => (x.id, kind) := by
    rw [List.map_flatMap]
    exact congrArg (subjects.flatMap ·) (funext (CoverageSubject.map_gaps settings))
  unfold ofSubjects
  dsimp only
  rw [List.map_append, hsubjects, whole]
  congr 1
  cases subjects with
  | nil => rfl
  | cons x rest =>
    simp only [List.isEmpty_cons, Bool.not_false, Bool.true_and, decide_eq_true_eq, ne_eq,
      reduceCtorEq, not_false_eq_true, true_and]
    split <;> rfl

theorem exact_ofSubjects {g : PropertyGraph} (keyed : g.Keyed) (closed : g.Closed)
    (settings : CoverageSettings) {root : Node} (whole : isDeclaration root.kind = false) :
    (ofSubjects settings root (g.subjects root.id)).Exact g settings root.id
      (g.subjects root.id) := by
  have hsubject : ∀ x ∈ g.subjects root.id, ∃ node ∈ g.declared root.id, g.subject node = x :=
    fun x hx => List.mem_map.mp hx
  have htests : ∀ x ∈ g.subjects root.id,
      (x.tests : ℕ∞) = Set.encard {test | g.Leads [.testedBy] .outgoing x.id test} := by
    intro x hx
    obtain ⟨node, -, rfl⟩ := hsubject x hx
    exact (PropertyGraph.encard_leads keyed closed [.testedBy] .outgoing).symm
  have hids : (g.subjects root.id).map (·.id) = (g.declared root.id).map (·.id) := List.map_map
  constructor
  case ordered =>
    rw [hids]
    exact g.strict_declared root.id
  case subject_iff =>
    intro id
    rw [hids]
    exact PropertyGraph.mem_map_declared_iff keyed closed
  case recorded =>
    intro x hx
    obtain ⟨node, hnode, rfl⟩ := hsubject x hx
    exact ⟨node, ((PropertyGraph.mem_declared_iff keyed closed).mp hnode).1, rfl⟩
  case tests => exact htests
  case tested_iff =>
    intro x hx
    have hpos : 0 < x.tests ↔ (0 : ℕ∞) < x.tests := Nat.cast_pos.symm
    rw [hpos, htests x hx, Set.encard_pos]
    rfl
  case code => rfl
  case branches =>
    unfold ofSubjects
    dsimp only
    rw [foldl_add_eq_sum, foldl_add_eq_sum, Nat.zero_add, Nat.zero_add]
    rfl
  case covered_le => exact sum_coveredBranches_le
  case covered_eq_iff => exact sum_coveredBranches_eq_iff
  case gaps => exact gaps_ofSubjects settings whole _

end CoverageReport

/-! ## Over a store -/

namespace Query

variable {σ : Type} [Backend σ] {s : σ} {g : PropertyGraph} {id : NodeId}

/-- Nodes that are there are fetched one by one. -/
theorem requireNodes_run (reads : ReadsAs s g) {nodes : List NodeSummary}
    (h : ∀ node ∈ nodes, ∃ found, g.get? node.id = some found) :
    (nodes.mapM fun node => requireNode node.id : Session σ (List Node)) s =
      (.ok (nodes.filterMap fun node => g.get? node.id), s) := by
  induction nodes with
  | nil => rfl
  | cons node rest ih =>
    obtain ⟨found, hfound⟩ := h node List.mem_cons_self
    rw [List.mapM_cons, Session.bind_ok (requireNode_run reads hfound),
      Session.bind_ok (ih fun other hother => h other (List.mem_cons_of_mem node hother)),
      List.filterMap_cons_some (f := fun node : NodeSummary => g.get? node.id) hfound]
    rfl

theorem declarationsBelow_run (made : g.Made) (reads : ReadsAs s g) (levels : Nat)
    (frontier : List NodeId) :
    declarationsBelow levels frontier s = (.ok (g.below levels frontier), s) := by
  induction levels generalizing frontier with
  | zero => rfl
  | succ levels ih =>
    -- One node of the frontier: its declarations are fetched, the rest of its content is passed on.
    have hstep : ∀ a ∈ frontier, (do
          let children ← related a .contains .outgoing
          let declarations ← (children.filter (·.kind.isCode)).mapM fun child => requireNode child.id
          return (declarations,
            (children.filter (!CoverageReport.isDeclaration ·.kind)).map (·.id)) :
              Session σ (List Node × List NodeId)) s =
        (.ok (g.contents a, g.containers a), s) := by
      intro a _
      rw [Session.bind_ok (related_run reads.neighbors a .contains .outgoing),
        Session.bind_ok (requireNodes_run reads fun child hchild => ?_)]
      · rfl
      · obtain ⟨-, hshown⟩ := (PropertyGraph.mem_adjacent_iff made.keyed made.closed).mp
          (List.mem_filter.mp hchild).1
        obtain ⟨found, hfound, -⟩ := Option.map_eq_some_iff.mp hshown
        exact ⟨found, hfound⟩
    unfold declarationsBelow
    rw [Session.bind_ok (Session.mapM_run hstep)]
    simp only [List.flatMap_map]
    split
    next hnone =>
      -- Nothing is left to look into.
      rw [PropertyGraph.below, List.isEmpty_iff.mp hnone, PropertyGraph.below_nil]
      rfl
    next =>
      rw [Session.bind_ok (ih _)]
      rfl

theorem coverageNodes_run (made : g.Made) (reads : ReadsAs s g) {root : Node}
    (whole : CoverageReport.isDeclaration root.kind = false) :
    coverageNodes root s = (.ok (g.declared root.id), s) := by
  unfold coverageNodes
  rw [whole]
  show (declarationsBelow 3 [root.id] >>= _) s = _
  rw [Session.bind_ok (declarationsBelow_run made reads 3 [root.id])]
  rfl

theorem coverage_run (made : g.Made) (reads : ReadsAs s g) (settings : CoverageSettings) {root : Node}
    (hroot : g.get? id = some root) (whole : CoverageReport.isDeclaration root.kind = false) :
    coverage settings id s = (.ok (.ofSubjects settings root (g.subjects root.id)), s) := by
  have htests : ∀ node ∈ g.declared root.id, (do
        return CoverageSubject.ofNode node (← related node.id .testedBy .outgoing).length :
          Session σ CoverageSubject) s = (.ok (g.subject node), s) := by
    intro node _
    rw [Session.bind_ok (related_run reads.neighbors node.id .testedBy .outgoing)]
    rfl
  unfold coverage
  rw [Session.bind_ok (requireNode_run reads hroot),
    Session.bind_ok (coverageNodes_run made reads whole), Session.bind_ok (Session.mapM_run htests)]
  rfl

/-- The report on a node that is no declaration is about the functions and procedures that a way down of
three edges at most leads to, each once and by id; its numbers and its complaints are theirs. -/
theorem coverage_exact (made : g.Made) (reads : ReadsAs s g) (settings : CoverageSettings) {root : Node}
    (hroot : g.get? id = some root) (whole : CoverageReport.isDeclaration root.kind = false) :
    ∃ report subjects, coverage settings id s = (.ok report, s) ∧
      report.Exact g settings id subjects := by
  obtain rfl : root.id = id := made.keyed.nodes id root hroot
  exact ⟨_, _, coverage_run made reads settings hroot whole,
    CoverageReport.exact_ofSubjects made.keyed made.closed settings whole⟩

/-- A configuration that contains a module directly and through an object, and is contained in it. The
module has an exported function without tests, which has another function inside it, a tested procedure,
and its test. -/
def sampleCovered : List Operation :=
  [.upsert [⟨⟨"c"⟩, .configuration, "c", ∅⟩, ⟨⟨"o"⟩, .metadataObject .catalog, "o", ∅⟩,
      ⟨⟨"m"⟩, .module, "m", ∅⟩, ⟨⟨"f"⟩, .function, "f", .ofList [("is_export", .bool true)]⟩,
      ⟨⟨"h"⟩, .function, "h", ∅⟩, ⟨⟨"p"⟩, .procedure, "p", ∅⟩, ⟨⟨"t"⟩, .testCase, "t", ∅⟩]
    [⟨⟨"c"⟩, ⟨"m"⟩, .contains, ∅⟩, ⟨⟨"c"⟩, ⟨"o"⟩, .contains, ∅⟩, ⟨⟨"o"⟩, ⟨"m"⟩, .contains, ∅⟩,
      ⟨⟨"m"⟩, ⟨"c"⟩, .contains, ∅⟩, ⟨⟨"m"⟩, ⟨"f"⟩, .contains, ∅⟩, ⟨⟨"m"⟩, ⟨"p"⟩, .contains, ∅⟩,
      ⟨⟨"m"⟩, ⟨"t"⟩, .contains, ∅⟩, ⟨⟨"f"⟩, ⟨"h"⟩, .contains, ∅⟩, ⟨⟨"p"⟩, ⟨"t"⟩, .testedBy, ∅⟩]]

/-- The function and the procedure count once, and the export is complained about. -/
theorem coverage_exact_covered :
    (Operation.after ({} : PropertyGraph) sampleCovered).Made ∧
      ReadsAs (Operation.after ({} : PropertyGraph) sampleCovered) (Operation.after {} sampleCovered) ∧
      (Operation.after ({} : PropertyGraph) sampleCovered).get? ⟨"c"⟩ =
        some ⟨⟨"c"⟩, .configuration, "c", ∅⟩ ∧
      CoverageReport.isDeclaration .configuration = false ∧
      ∃ (report : CoverageReport) (subjects : List CoverageSubject),
        coverage {} ⟨"c"⟩ (Operation.after ({} : PropertyGraph) sampleCovered) =
          (.ok report, Operation.after {} sampleCovered) ∧
        subjects.map (·.id) = [⟨"f"⟩, ⟨"p"⟩] ∧
        report.codeCoverage = Metrics.ratio (subjects.countP (0 < ·.tests)) 2 1.0 ∧
        (⟨"f"⟩, .untestedExport) ∈ report.gaps.map fun gap => (gap.node, gap.kind) := by
  have made : (Operation.after ({} : PropertyGraph) sampleCovered).Made := ⟨sampleCovered, rfl⟩
  have reads := readsAs_graph (Operation.after {} sampleCovered)
  have hgraph : ((Operation.after ({} : PropertyGraph) sampleCovered).get? ⟨"c"⟩,
      (Operation.after ({} : PropertyGraph) sampleCovered).get? ⟨"f"⟩,
      ((Operation.after ({} : PropertyGraph) sampleCovered).declared ⟨"c"⟩).map (·.id),
      ((Operation.after ({} : PropertyGraph) sampleCovered).adjacent ⟨"f"⟩ [.testedBy] .outgoing).map
        (·.id)) =
      (some ⟨⟨"c"⟩, .configuration, "c", ∅⟩,
        some ⟨⟨"f"⟩, .function, "f", .ofList [("is_export", .bool true)]⟩, [⟨"f"⟩, ⟨"p"⟩], []) := by
    rw [sampleCovered, PropertyGraph.after_upsert]
    cbv
  simp only [Prod.mk.injEq] at hgraph
  obtain ⟨hroot, hf, hdeclared, hnone⟩ := hgraph
  obtain ⟨report, subjects, hrun, exact⟩ := coverage_exact made reads {} hroot rfl
  have hids : subjects.map (·.id) = [⟨"f"⟩, ⟨"p"⟩] := by
    rw [← hdeclared]
    refine Maps.eq_of_strict exact.ordered (PropertyGraph.strict_declared _ _) fun id => ?_
    rw [exact.subject_iff, PropertyGraph.mem_map_declared_iff made.keyed made.closed]
  refine ⟨made, reads, hroot, rfl, report, subjects, hrun, hids, ?_, ?_⟩
  · rw [exact.code, ← List.length_map (f := CoverageSubject.id), hids]
    rfl
  · obtain ⟨x, hx, hid⟩ : ∃ x ∈ subjects, x.id = ⟨"f"⟩ :=
      List.mem_map.mp (hids ▸ List.mem_cons_self)
    obtain ⟨node, hnode, hrecorded⟩ := exact.recorded x hx
    have hexported : node.props["is_export"]? = some (.bool true) := by
      rw [hid, hf] at hnode
      rw [← Option.some.inj hnode]
      cbv
    have huntested : x.tests = 0 := by
      refine Nat.eq_zero_of_not_pos fun hpos => ?_
      obtain ⟨test, hleads⟩ := (exact.tested_iff x hx).mp hpos
      rw [hid, ← PropertyGraph.mem_map_adjacent_iff made.keyed made.closed, hnone] at hleads
      cases hleads
    rw [exact.gaps]
    refine List.mem_append_left _ (List.mem_flatMap.mpr ⟨x, hx, List.mem_map.mpr ⟨_, ?_, by rw [hid]⟩⟩)
    have hexport : x.isExport = true := by
      rw [hrecorded]
      simp [CoverageSubject.ofNode, hexported, PropValue.asBool?]
    have hgap : x.hasGap {} .untestedExport = true := by
      simp [CoverageSubject.hasGap, hexport, huntested]
    simp [CoverageSubject.gapKinds, hgap]

end Query

end CodeAtlas
