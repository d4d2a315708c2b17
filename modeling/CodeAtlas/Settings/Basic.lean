import CodeAtlas.Graph.Node

/-!
# Settings

Every setting is optional. A value that is not set anywhere is taken from the defaults at the moment
it is needed, so that layers of settings can be laid over each other: what the upper layer sets
counts, and what it leaves open is what lies below. A list is set when it is not empty.
-/

set_option autoImplicit false

namespace CodeAtlas

/-- The upper value where it is set, else the lower one. -/
def overlayList {α : Type} (upper lower : List α) : List α := if upper.isEmpty then lower else upper

/-! ## Sections -/

/-- Settings of the walk through a source tree. -/
structure ScanSettings where
  /-- Larger files are passed over. -/
  maxFileSize : Option Nat := none
  threads : Option Nat := none
  /-- Patterns of paths that are left out. -/
  extraIgnore : List String := []
  followSymlinks : Option Bool := none
deriving DecidableEq, Repr

/-- Settings of the parsers. -/
structure ParserSettings where
  parallelism : Option Nat := none
  /-- Whether declarations are also measured by the flow analyzer, if there is one. -/
  deepParse : Option Bool := none
  deepTimeoutMs : Option Nat := none
  deepWorkers : Option Nat := none
  cacheCapacity : Option Nat := none
deriving DecidableEq, Repr

/-- Settings of the builder and of walks through the graph. -/
structure GraphSettings where
  /-- Path segments and name beginnings that mark tests. -/
  testMarkers : List String := []
  maxDepth : Option Nat := none
  cycleStepBudget : Option Nat := none
deriving DecidableEq, Repr

/-- Weights of the scores. -/
structure MetricsSettings where
  couplingNormalization : Option Float := none
  directWeight : Option Float := none
  transitiveWeight : Option Float := none
  cycleWeight : Option Float := none
  couplingWeight : Option Float := none
deriving DecidableEq

/-- Thresholds of the coverage report. -/
structure CoverageSettings where
  highComplexity : Option Nat := none
  criticalComplexity : Option Nat := none
  minTestsForComplex : Option Nat := none
  lowCoverage : Option Float := none
deriving DecidableEq

/-- All settings. -/
structure Settings where
  scan : ScanSettings := {}
  parser : ParserSettings := {}
  graph : GraphSettings := {}
  metrics : MetricsSettings := {}
  coverage : CoverageSettings := {}
deriving DecidableEq

/-! ## Defaults

The number of threads and workers falls back on the number of cores of the machine. -/

namespace ScanSettings

def effectiveMaxFileSize (s : ScanSettings) : Nat := s.maxFileSize.getD (4 * 1024 * 1024)

def effectiveThreads (s : ScanSettings) (cores : Nat) : Nat := s.threads.getD cores

def effectiveFollowSymlinks (s : ScanSettings) : Bool := s.followSymlinks.getD false

def overlay (upper lower : ScanSettings) : ScanSettings where
  maxFileSize := upper.maxFileSize.or lower.maxFileSize
  threads := upper.threads.or lower.threads
  extraIgnore := overlayList upper.extraIgnore lower.extraIgnore
  followSymlinks := upper.followSymlinks.or lower.followSymlinks

end ScanSettings

namespace ParserSettings

def effectiveParallelism (s : ParserSettings) (cores : Nat) : Nat := max (s.parallelism.getD cores) 1

def effectiveDeepParse (s : ParserSettings) : Bool := s.deepParse.getD false

def effectiveDeepTimeoutMs (s : ParserSettings) : Nat := s.deepTimeoutMs.getD 2000

def effectiveDeepWorkers (s : ParserSettings) (cores : Nat) : Nat :=
  max (s.deepWorkers.getD (min (s.effectiveParallelism cores) 4)) 1

def effectiveCacheCapacity (s : ParserSettings) : Nat := s.cacheCapacity.getD 50000

def overlay (upper lower : ParserSettings) : ParserSettings where
  parallelism := upper.parallelism.or lower.parallelism
  deepParse := upper.deepParse.or lower.deepParse
  deepTimeoutMs := upper.deepTimeoutMs.or lower.deepTimeoutMs
  deepWorkers := upper.deepWorkers.or lower.deepWorkers
  cacheCapacity := upper.cacheCapacity.or lower.cacheCapacity

end ParserSettings

namespace GraphSettings

def effectiveTestMarkers (s : GraphSettings) : List String :=
  overlayList s.testMarkers ["Tests", "Тесты"]

def effectiveMaxDepth (s : GraphSettings) : Nat := s.maxDepth.getD 10

def effectiveCycleStepBudget (s : GraphSettings) : Nat := s.cycleStepBudget.getD 100000

def overlay (upper lower : GraphSettings) : GraphSettings where
  testMarkers := overlayList upper.testMarkers lower.testMarkers
  maxDepth := upper.maxDepth.or lower.maxDepth
  cycleStepBudget := upper.cycleStepBudget.or lower.cycleStepBudget

end GraphSettings

namespace MetricsSettings

def effectiveCouplingNormalization (s : MetricsSettings) : Float := s.couplingNormalization.getD 10.0

def effectiveDirectWeight (s : MetricsSettings) : Float := s.directWeight.getD 0.3

def effectiveTransitiveWeight (s : MetricsSettings) : Float := s.transitiveWeight.getD 0.2

def effectiveCycleWeight (s : MetricsSettings) : Float := s.cycleWeight.getD 10.0

def effectiveCouplingWeight (s : MetricsSettings) : Float := s.couplingWeight.getD 0.5

def overlay (upper lower : MetricsSettings) : MetricsSettings where
  couplingNormalization := upper.couplingNormalization.or lower.couplingNormalization
  directWeight := upper.directWeight.or lower.directWeight
  transitiveWeight := upper.transitiveWeight.or lower.transitiveWeight
  cycleWeight := upper.cycleWeight.or lower.cycleWeight
  couplingWeight := upper.couplingWeight.or lower.couplingWeight

end MetricsSettings

namespace CoverageSettings

def effectiveHighComplexity (s : CoverageSettings) : Nat := s.highComplexity.getD 10

def effectiveCriticalComplexity (s : CoverageSettings) : Nat := s.criticalComplexity.getD 20

def effectiveMinTestsForComplex (s : CoverageSettings) : Nat := s.minTestsForComplex.getD 2

def effectiveLowCoverage (s : CoverageSettings) : Float := s.lowCoverage.getD 0.5

def overlay (upper lower : CoverageSettings) : CoverageSettings where
  highComplexity := upper.highComplexity.or lower.highComplexity
  criticalComplexity := upper.criticalComplexity.or lower.criticalComplexity
  minTestsForComplex := upper.minTestsForComplex.or lower.minTestsForComplex
  lowCoverage := upper.lowCoverage.or lower.lowCoverage

end CoverageSettings

/-! ## Errors and validity -/

/-- Why settings cannot be used. -/
inductive SettingsError where
  | fileNotFound (path : String)
  | malformed (path message : String)
  | invalid (field message : String)
deriving DecidableEq, Repr

namespace SettingsError

def message : SettingsError → String
  | fileNotFound path => s!"Config file not found: {path}"
  | malformed path message => s!"Failed to parse {path}: {message}"
  | invalid field message => s!"Invalid value for {field}: {message}"

def code (_ : SettingsError) : String := "CONFIG_ERROR"

end SettingsError

namespace Settings

/-- Lays one set of settings over another. -/
def overlay (upper lower : Settings) : Settings where
  scan := upper.scan.overlay lower.scan
  parser := upper.parser.overlay lower.parser
  graph := upper.graph.overlay lower.graph
  metrics := upper.metrics.overlay lower.metrics
  coverage := upper.coverage.overlay lower.coverage

/-- The checks that settings have to pass, each with the field and the words that refuse it. A value
that is not a number passes none of the checks on floats. -/
def checks (s : Settings) : List (Bool × String × String) :=
  [(s.scan.maxFileSize != some 0, "scan.max_file_size", "must be greater than 0"),
   (s.parser.parallelism != some 0, "parser.parallelism", "must be at least 1"),
   (s.parser.deepWorkers != some 0, "parser.deep_workers", "must be at least 1"),
   (s.graph.maxDepth != some 0, "graph.max_depth", "must be at least 1"),
   (s.metrics.couplingNormalization.all (0.0 < ·), "metrics.coupling_normalization",
    "must be positive"),
   (s.coverage.lowCoverage.all fun x => 0.0 ≤ x && x ≤ 1.0, "coverage.low_coverage",
    "must be between 0.0 and 1.0")]

/-- Refuses settings at the first check that fails. -/
def validate (s : Settings) : Except SettingsError Unit :=
  match s.checks.find? fun (passes, _) => !passes with
  | some (_, field, message) => .error (.invalid field message)
  | none => .ok ()

end Settings

end CodeAtlas
