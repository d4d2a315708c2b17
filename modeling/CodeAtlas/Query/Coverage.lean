import CodeAtlas.Decimal.Rounded
import CodeAtlas.Query.Metrics
import CodeAtlas.Query.Severity

/-!
# Test coverage

A declaration is covered if a test is linked to it. Branches are estimated: each distinct test of a
declaration is taken to cover one more of its branches, up to its complexity. A report on a module, a
metadata object or a configuration is a report on the declarations inside it, at most three levels
down, each counted once.
-/

set_option autoImplicit false

namespace CodeAtlas

/-- What a coverage report complains about. -/
inductive GapKind where
  | highComplexityLowTests
  | untestedExport
  | lowModuleCoverage
deriving DecidableEq, Repr

namespace GapKind

def name : GapKind → String
  | highComplexityLowTests => "high_complexity_low_tests"
  | untestedExport => "untested_export"
  | lowModuleCoverage => "low_module_coverage"

end GapKind

/-- One complaint of a coverage report. -/
structure CoverageGap where
  kind : GapKind
  severity : Severity
  message : String
  node : NodeId
deriving DecidableEq, Repr

/-- How well a node is covered by tests. -/
structure CoverageReport where
  codeCoverage : Float
  branchCoverage : Float
  gaps : List CoverageGap
deriving DecidableEq

/-- A declaration with the facts that a coverage report needs. -/
structure CoverageSubject where
  id : NodeId
  name : String
  complexity : Nat
  isExport : Bool
  /-- How many distinct tests it has. -/
  tests : Nat
deriving DecidableEq, Repr

namespace CoverageSubject

/-- The complexity that a node records: at least one, and one if the record does not fit 32 bits. -/
def complexityOf (node : Node) : Nat :=
  match node.props["complexity"]? >>= PropValue.asInt? with
  | some c => if 0 ≤ c ∧ c.toNat < UInt32.size then max c.toNat 1 else 1
  | none => 1

def ofNode (node : Node) (tests : Nat) : CoverageSubject where
  id := node.id
  name := node.displayName
  complexity := complexityOf node
  isExport := (node.props["is_export"]? >>= PropValue.asBool?).getD false
  tests := tests

/-- The estimated number of branches that tests reach. -/
def coveredBranches (s : CoverageSubject) : Nat := min s.tests s.complexity

/-- What there is to complain about a declaration. -/
def gaps (settings : CoverageSettings) (s : CoverageSubject) : List CoverageGap :=
  let complex :=
    if settings.effectiveHighComplexity ≤ s.complexity
        && s.tests < settings.effectiveMinTestsForComplex then
      [{ kind := .highComplexityLowTests
         severity := if settings.effectiveCriticalComplexity ≤ s.complexity then .critical else .high
         message := s!"{s.name} has complexity {s.complexity} but only {s.tests} test(s)"
         node := s.id }]
    else []
  let untested :=
    if s.isExport && s.tests == 0 then
      [{ kind := .untestedExport, severity := .medium
         message := s!"exported {s.name} has no tests", node := s.id }]
    else []
  complex ++ untested

end CoverageSubject

namespace CoverageReport

/-- Whether a kind of node is a declaration, tests included. -/
def isDeclaration (kind : NodeKind) : Bool := kind.isCode || kind = .testCase

/-- The report on a node, given its declarations. -/
def ofSubjects (settings : CoverageSettings) (root : Node) (subjects : List CoverageSubject) :
    CoverageReport :=
  let tested := subjects.countP (0 < ·.tests)
  let codeCoverage := Metrics.ratio tested subjects.length 1.0
  let threshold := settings.effectiveLowCoverage
  let lowCoverage :=
    if !subjects.isEmpty && !isDeclaration root.kind && codeCoverage < threshold then
      let covered := Decimal.wholeText (codeCoverage * 100.0)
      let wanted := Decimal.wholeText (threshold * 100.0)
      [{ kind := .lowModuleCoverage
         severity := if tested = 0 then .high else .medium
         message := s!"{root.displayName} covers {covered}% of declarations, below {wanted}%"
         node := root.id }]
    else []
  { codeCoverage
    branchCoverage := Metrics.ratio (subjects.foldl (fun n s => n + s.coveredBranches) 0)
      (subjects.foldl (fun n s => n + s.complexity) 0) 1.0
    gaps := subjects.flatMap (·.gaps settings) ++ lowCoverage }

end CoverageReport

namespace Query

variable {σ : Type} [Backend σ]

/-- The declarations inside some nodes, as many levels down as are given. Tests are passed over, and
what is inside a declaration is not looked at. -/
def declarationsBelow : (levels : Nat) → List NodeId → Session σ (List Node)
  | 0, _ => return []
  | levels + 1, frontier => do
    let children ← frontier.mapM fun id => do
      let children ← related id .contains .outgoing
      let declarations ← (children.filter (·.kind.isCode)).mapM fun child => requireNode child.id
      return (declarations, (children.filter (!CoverageReport.isDeclaration ·.kind)).map (·.id))
    let next := children.flatMap (·.2)
    let deeper ← if next.isEmpty then pure [] else declarationsBelow levels next
    return children.flatMap (·.1) ++ deeper

/-- The declarations that a coverage report on a node is about, by id. -/
def coverageNodes (root : Node) : Session σ (List Node) := do
  if CoverageReport.isDeclaration root.kind then return [root]
  let found ← declarationsBelow 3 [root.id]
  return (found.foldl (fun m node => m.insertIfNew node.id node)
    (∅ : Std.ExtTreeMap NodeId Node)).values

/-- How well a node is covered by tests. -/
def coverage (settings : CoverageSettings) (id : NodeId) : Session σ CoverageReport := do
  let root ← requireNode id
  let subjects ← (← coverageNodes root).mapM fun node => do
    return CoverageSubject.ofNode node (← related node.id .testedBy .outgoing).length
  return .ofSubjects settings root subjects

end Query

end CodeAtlas
