import CodeAtlas.Settings.Basic
import CodeAtlas.Toml.Reader
import CodeAtlas.Toml.Writer

/-!
# Settings files

A settings file has one table for each section. Names that are not known are passed over, so that a
file may be newer than the program. In place of a table an array with the first few settings of the
section in their order will do, and so will a point in time, which sets nothing. Every section is
written, also an empty one, but only the settings that are set.
-/

set_option autoImplicit false

namespace CodeAtlas

/-! ## Reading -/

namespace Toml

/-- How the settings of a section are found by their names. -/
abbrev Fields := String → Option Toml

/-- The settings of a section, if the value can be one with these names. -/
def fields? (names : List String) : Toml → Option Fields
  | table members => some fun name => members.lookup name
  | arr items => some fun name => (names.zip items).lookup name
  | moment => some fun _ => none
  | _ => none

/-- A setting that may be missing. -/
def optional {α : Type} (read : Toml → Option α) (fields : Fields) (name : String) :
    Option (Option α) :=
  match fields name with
  | none => some none
  | some value => (read value).map some

/-- A list that is empty where it is missing. -/
def strings (fields : Fields) (name : String) : Option (List String) :=
  match fields name with
  | none => some []
  | some (arr items) => items.mapM fun
    | str s => some s
    | _ => none
  | some _ => none

/-- A natural number below a bound. -/
def asNat? (bound : Nat) : Toml → Option Nat
  | int (.ofNat n) => if n < bound then some n else none
  | _ => none

def asWord? : Toml → Option Nat := asNat? UInt32.size

def asSize? : Toml → Option Nat := asNat? UInt64.size

def asBool? : Toml → Option Bool
  | bool b => some b
  | _ => none

/-- A float, or the float nearest to an integer. -/
def asFloat? : Toml → Option Float
  | float x => some x
  | int n => some (Decimal.mk (n < 0) n.natAbs 0).toFloat
  | _ => none

/-- A section, which has all defaults where it is missing. -/
def readSection {α : Type} [Inhabited α] (names : List String) (read : Fields → Option α)
    (root : Fields) (name : String) : Option α :=
  match root name with
  | none => some default
  | some value => value.fields? names >>= read

end Toml

instance : Inhabited ScanSettings := ⟨{}⟩
instance : Inhabited ParserSettings := ⟨{}⟩
instance : Inhabited GraphSettings := ⟨{}⟩
instance : Inhabited MetricsSettings := ⟨{}⟩
instance : Inhabited CoverageSettings := ⟨{}⟩

open Toml

namespace ScanSettings

def names : List String := ["max_file_size", "threads", "extra_ignore", "follow_symlinks"]

def ofFields? (fs : Fields) : Option ScanSettings := do
  return { maxFileSize := ← optional asSize? fs "max_file_size"
           threads := ← optional asSize? fs "threads"
           extraIgnore := ← strings fs "extra_ignore"
           followSymlinks := ← optional asBool? fs "follow_symlinks" }

end ScanSettings

namespace ParserSettings

def names : List String :=
  ["parallelism", "deep_parse", "deep_timeout_ms", "deep_workers", "cache_capacity"]

def ofFields? (fs : Fields) : Option ParserSettings := do
  return { parallelism := ← optional asSize? fs "parallelism"
           deepParse := ← optional asBool? fs "deep_parse"
           deepTimeoutMs := ← optional asSize? fs "deep_timeout_ms"
           deepWorkers := ← optional asSize? fs "deep_workers"
           cacheCapacity := ← optional asSize? fs "cache_capacity" }

end ParserSettings

namespace GraphSettings

def names : List String := ["test_markers", "max_depth", "cycle_step_budget"]

def ofFields? (fs : Fields) : Option GraphSettings := do
  return { testMarkers := ← strings fs "test_markers"
           maxDepth := ← optional asWord? fs "max_depth"
           cycleStepBudget := ← optional asSize? fs "cycle_step_budget" }

end GraphSettings

namespace MetricsSettings

def names : List String :=
  ["coupling_normalization", "direct_weight", "transitive_weight", "cycle_weight",
   "coupling_weight"]

def ofFields? (fs : Fields) : Option MetricsSettings := do
  return { couplingNormalization := ← optional asFloat? fs "coupling_normalization"
           directWeight := ← optional asFloat? fs "direct_weight"
           transitiveWeight := ← optional asFloat? fs "transitive_weight"
           cycleWeight := ← optional asFloat? fs "cycle_weight"
           couplingWeight := ← optional asFloat? fs "coupling_weight" }

end MetricsSettings

namespace CoverageSettings

def names : List String :=
  ["high_complexity", "critical_complexity", "min_tests_for_complex", "low_coverage"]

def ofFields? (fs : Fields) : Option CoverageSettings := do
  return { highComplexity := ← optional asWord? fs "high_complexity"
           criticalComplexity := ← optional asWord? fs "critical_complexity"
           minTestsForComplex := ← optional asWord? fs "min_tests_for_complex"
           lowCoverage := ← optional asFloat? fs "low_coverage" }

end CoverageSettings

namespace Settings

/-- The settings that a document holds. -/
def ofToml? (document : Toml) : Option Settings := do
  let root ← document.fields? ["scan", "parser", "graph", "metrics", "coverage"]
  return { scan := ← readSection ScanSettings.names ScanSettings.ofFields? root "scan"
           parser := ← readSection ParserSettings.names ParserSettings.ofFields? root "parser"
           graph := ← readSection GraphSettings.names GraphSettings.ofFields? root "graph"
           metrics := ← readSection MetricsSettings.names MetricsSettings.ofFields? root "metrics"
           coverage :=
             ← readSection CoverageSettings.names CoverageSettings.ofFields? root "coverage" }

/-- Reads the text of a settings file without judging the values. -/
def read (path text : String) : Except SettingsError Settings :=
  match Toml.parse? text >>= ofToml? with
  | some settings => .ok settings
  | none => .error (.malformed path "not a settings document")

/-- Reads settings from a text and refuses values that cannot be used. -/
def parse (text : String) : Except SettingsError Settings := do
  let settings ← read "<string>" text
  settings.validate
  return settings

/-! ## Writing -/

/-- The lines of one section: its header and the settings that are set. -/
def sectionText (name : String) (lines : List (String × Option String)) : String :=
  s!"[{name}]\n" ++ String.join (lines.filterMap fun (field, value) =>
    value.map fun text => s!"{field} = {text}\n")

/-- A truth value as it is written. -/
def boolText (b : Bool) : String := if b then "true" else "false"

/-- The text of a settings file. -/
def render (s : Settings) : String :=
  "\n".intercalate
    [sectionText "scan"
       [("max_file_size", s.scan.maxFileSize.map toString),
        ("threads", s.scan.threads.map toString),
        ("extra_ignore", some (stringsText s.scan.extraIgnore)),
        ("follow_symlinks", s.scan.followSymlinks.map boolText)],
     sectionText "parser"
       [("parallelism", s.parser.parallelism.map toString),
        ("deep_parse", s.parser.deepParse.map boolText),
        ("deep_timeout_ms", s.parser.deepTimeoutMs.map toString),
        ("deep_workers", s.parser.deepWorkers.map toString),
        ("cache_capacity", s.parser.cacheCapacity.map toString)],
     sectionText "graph"
       [("test_markers", some (stringsText s.graph.testMarkers)),
        ("max_depth", s.graph.maxDepth.map toString),
        ("cycle_step_budget", s.graph.cycleStepBudget.map toString)],
     sectionText "metrics"
       [("coupling_normalization", s.metrics.couplingNormalization.map floatText),
        ("direct_weight", s.metrics.directWeight.map floatText),
        ("transitive_weight", s.metrics.transitiveWeight.map floatText),
        ("cycle_weight", s.metrics.cycleWeight.map floatText),
        ("coupling_weight", s.metrics.couplingWeight.map floatText)],
     sectionText "coverage"
       [("high_complexity", s.coverage.highComplexity.map toString),
        ("critical_complexity", s.coverage.criticalComplexity.map toString),
        ("min_tests_for_complex", s.coverage.minTestsForComplex.map toString),
        ("low_coverage", s.coverage.lowCoverage.map floatText)]]

end Settings

end CodeAtlas
