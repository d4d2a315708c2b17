import CodeAtlas.Deadline
import CodeAtlas.Query.Metrics
import CodeAtlas.Query.Severity

/-!
# Traceability

For each requirement: the code that implements it, the tests of that code, and the incidents that the
code or its tests have triggered. What is missing in this chain is a risk. The deadline is asked
before each requirement.
-/

set_option autoImplicit false

namespace CodeAtlas

/-- The chain of one requirement; each set is sorted by id. -/
structure TraceEntry where
  code : Std.ExtTreeSet NodeId := ∅
  tests : Std.ExtTreeSet NodeId := ∅
  incidents : Std.ExtTreeSet NodeId := ∅

/-- What can be wrong with the chain of a requirement. -/
inductive RiskKind where
  | implementationGap
  | coverageGap
  | incidentCorrelation
deriving DecidableEq, Repr

namespace RiskKind

def name : RiskKind → String
  | implementationGap => "implementation_gap"
  | coverageGap => "coverage_gap"
  | incidentCorrelation => "incident_correlation"

end RiskKind

/-- Something wrong with the chain of a requirement. -/
structure TraceRisk where
  kind : RiskKind
  requirement : NodeId
  severity : Severity
  message : String
deriving DecidableEq, Repr

namespace TraceEntry

/-- What is wrong with a chain. A requirement without code is not blamed for missing tests. -/
def risks (requirement : NodeId) (entry : TraceEntry) : List TraceRisk :=
  let missing : List TraceRisk :=
    if entry.code.isEmpty then
      [⟨.implementationGap, requirement, .high, s!"{requirement} has no implementing code"⟩]
    else if entry.tests.isEmpty then
      [⟨.coverageGap, requirement, .medium,
        s!"{requirement} is implemented by {entry.code.size} declaration(s) with no tests"⟩]
    else []
  let incidents : List TraceRisk :=
    if entry.incidents.isEmpty then []
    else [⟨.incidentCorrelation, requirement, if entry.tests.isEmpty then .critical else .high,
      s!"{requirement} is linked to {entry.incidents.size} incident(s)"⟩]
  missing ++ incidents

end TraceEntry

/-- The chains of all requirements. -/
structure TraceReport where
  matrix : Std.ExtTreeMap NodeId TraceEntry := ∅
  risks : List TraceRisk := []
  truncated : Bool := false

namespace TraceReport

def total (r : TraceReport) : Nat := r.matrix.size

def implemented (r : TraceReport) : Nat := r.matrix.values.countP (!·.code.isEmpty)

def tested (r : TraceReport) : Nat := r.matrix.values.countP (!·.tests.isEmpty)

def withIncidents (r : TraceReport) : Nat := r.matrix.values.countP (!·.incidents.isEmpty)

def implementationRate (r : TraceReport) : Float := Metrics.ratio r.implemented r.total 0.0

def testRate (r : TraceReport) : Float := Metrics.ratio r.tested r.total 0.0

def add (r : TraceReport) (requirement : NodeId) (entry : TraceEntry) : TraceReport :=
  { r with matrix := r.matrix.insert requirement entry
           risks := r.risks ++ entry.risks requirement }

end TraceReport

namespace Query

variable {σ : Type} [Backend σ]

/-- The ids of some nodes. -/
def idSet (nodes : List NodeSummary) : Std.ExtTreeSet NodeId :=
  nodes.foldl (fun ids node => ids.insert node.id) ∅

/-- The chain of a requirement. -/
def trace (requirement : NodeId) : Session σ TraceEntry := do
  let code := idSet (← related requirement .implements .outgoing)
  let ofCode ← code.toList.mapM fun id => do
    let tests ← related id .testedBy .outgoing
    return (tests, ← related id .triggersIncident .outgoing)
  let tests := idSet (ofCode.flatMap (·.1))
  let ofTests ← tests.toList.mapM fun id => related id .triggersIncident .outgoing
  return { code, tests, incidents := idSet (ofCode.flatMap (·.2) ++ ofTests.flatten) }

/-- Adds the chains of some requirements to a report. -/
def traceAll : List NodeId → Deadline → TraceReport → Session σ TraceReport
  | [], _, report => return report
  | requirement :: rest, deadline, report => do
    match deadline.check with
    | (true, _) => return { report with truncated := true }
    | (false, deadline) =>
      let entry ← trace requirement
      traceAll rest deadline (report.add requirement entry)

/-- The chains of all requirements in the graph. -/
def traceability (deadline : Deadline) : Session σ TraceReport := do
  let requirements ← nodesOfKind .requirement
  traceAll (requirements.map (·.id)) deadline {}

end Query

end CodeAtlas
