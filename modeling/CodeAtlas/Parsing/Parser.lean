import CodeAtlas.Descriptor
import CodeAtlas.Parsing.Analyzer
import CodeAtlas.Parsing.Cache
import CodeAtlas.Settings.Basic
import CodeAtlas.Source.ModuleReader
import CodeAtlas.SourceUnit.Basic

/-!
# Parsers

A parser reads the outline of a unit, or finds it in its cache. A module with declarations is also
given to the analyzer of control flow, if there is one and the settings ask for it. An analysis that
fails leaves the outline without its measures and marked as degraded, and that outline is kept in the
cache like any other: it is what this content gives until the content changes.
-/

set_option autoImplicit false

namespace CodeAtlas

/-- What reading the text of a unit gives, before any analysis. -/
def Outline.ofContent (kind : UnitKind) (content : String) : Outline :=
  if kind.isDescriptor then .ofDescriptor content else .ofModule content

/-- An outline with the measures of an analysis. -/
def Outline.withFlows (outline : Outline) (flows : List FlowMetrics) : Outline :=
  { outline with
    declarations := List.zipWith (fun decl flow => { decl with flow := some flow })
      outline.declarations flows
    flags := { outline.flags with deepApplied := true } }

/-- An outline whose analysis has failed. -/
def Outline.degraded (outline : Outline) : Outline :=
  { outline with flags := { outline.flags with deepDegraded := true } }

/-- A parser: its settings and the analyzer it was given. -/
structure Parser where
  settings : ParserSettings := {}
  analyzer : Option Analyzer := none

/-- What a parser works on: its cache, the workers of its analyzer, and the store below the cache. -/
structure ParserState where
  cache : ParseCache := {}
  pool : WorkerPool := .ofSize 1
  store : CacheStore := .absent

/-- What came of parsing one unit. -/
structure ParseOutcome where
  path : String
  outline : Outline
  cacheHit : Bool := false
  /-- Why the analysis failed. -/
  degraded : Option String := none
  /-- Whether the run was cancelled by the analyzer. -/
  cancelsRun : Bool := false

namespace Parser

/-- The state in which a parser starts, over a store. A cache of no capacity keeps nothing. -/
def start (p : Parser) (cores : Nat) (store : CacheStore) : ParserState :=
  { cache := { hasRoom := p.settings.effectiveCacheCapacity ≠ 0 }
    pool := .ofSize (p.settings.effectiveDeepWorkers cores), store }

/-- The analyzer, if the settings ask for one. -/
def activeAnalyzer? (p : Parser) : Option Analyzer :=
  if p.settings.effectiveDeepParse then p.analyzer else none

def deepEnabled (p : Parser) : Bool := p.activeAnalyzer?.isSome

/-- The key of a unit. Outlines of modules that were read with an analyzer and without one never stand
for each other. -/
def cacheKey (p : Parser) (unit : SourceUnit) : CacheKey where
  hash := .ofText unit.content
  tag := if unit.kind = .sourceModule ∧ p.deepEnabled then "source_module+deep" else unit.kind.tag

/-- The analyzer that a unit is given to: only modules with declarations are. -/
def analyzerFor? (p : Parser) (unit : SourceUnit) (outline : Outline) : Option Analyzer :=
  if unit.kind = .sourceModule ∧ outline.declarations ≠ [] then p.activeAnalyzer? else none

/-- Reads a unit without looking at the cache. -/
def read (p : Parser) (pool : WorkerPool) (unit : SourceUnit) : ParseOutcome × WorkerPool :=
  let outline := Outline.ofContent unit.kind unit.content
  match p.analyzerFor? unit outline with
  | none => ({ path := unit.path, outline }, pool)
  | some analyzer =>
    let (answer, pool) := pool.run analyzer unit.path unit.content outline.declarations
      p.settings.effectiveDeepTimeoutMs
    let outcome : ParseOutcome := match answer with
      | .ok flows => { path := unit.path, outline := outline.withFlows flows }
      | .error e => { path := unit.path, outline := outline.degraded, degraded := some e.message }
    ({ outcome with cancelsRun := analyzer.cancelsRun }, pool)

/-- Parses a unit: what the cache has is not read again, and what is read is kept. -/
def parse (p : Parser) (unit : SourceUnit) (s : ParserState) : ParseOutcome × ParserState :=
  let key := p.cacheKey unit
  match s.cache.get s.store key with
  | (some outline, cache) => ({ path := unit.path, outline, cacheHit := true }, { s with cache })
  | (none, cache) =>
    let (outcome, pool) := p.read s.pool unit
    (outcome,
      { cache := cache.put key outcome.outline, pool, store := s.store.keep key outcome.outline })

/-- Parses units one after the other. -/
def parseAll (p : Parser) : List SourceUnit → ParserState → List ParseOutcome × ParserState
  | [], s => ([], s)
  | unit :: rest, s =>
    let (outcome, s) := p.parse unit s
    let (outcomes, s) := p.parseAll rest s
    (outcome :: outcomes, s)

end Parser

end CodeAtlas
