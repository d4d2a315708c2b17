import CodeAtlas.Builder.Resume
import CodeAtlas.Event
import CodeAtlas.Parsing.Parser
import CodeAtlas.Pipeline.Error
import CodeAtlas.SourceUnit.Diff
import CodeAtlas.Tree.Scan

/-!
# The pipeline

A pipeline brings a graph up to date with a tree of files, one run at a time: it scans the tree, finds
out what has changed since the last run, parses what is new or different, and lets the builder fold it
into the graph. Units that have vanished are removed last.

A run can be cancelled until the builder begins to write. After that it goes on to its end, so that the
graph never holds half of a run. Only a run that comes to its end counts: it raises the generation by
one and tells so with its last event, at which time the pipeline is idle again.

A run works on a state of its own, made of the pipeline, the graph, what is left of the time before a
cancellation, and the events noted so far. All of it but the cancellation outlives the run.
-/

set_option autoImplicit false

namespace CodeAtlas

/-- Whether a run is going on, and how many have come to their end. -/
structure RunStatus where
  running : Bool := false
  generation : Nat := 0
deriving DecidableEq, Repr

/-- A pipeline between two runs. -/
structure Pipeline where
  settings : Settings
  parser : Parser
  parsing : ParserState
  builder : Builder
  handlers : List Handler := []
  status : RunStatus := {}

/-- An event as a handler has noted it, with the status at that time. -/
structure Emission where
  handler : String
  event : Event
  status : RunStatus
deriving DecidableEq, Repr

/-- What one run did. -/
structure RunSummary where
  generation : Nat := 0
  units : Nat := 0
  added : Nat := 0
  modified : Nat := 0
  unchanged : Nat := 0
  removed : Nat := 0
  cacheHits : Nat := 0
  skippedUnits : List SkippedUnit := []
  degradedUnits : List String := []
  failedUnits : List String := []
  unresolved : List Unresolved := []
  upsertedNodes : Nat := 0
  upsertedEdges : Nat := 0
  removedIds : Nat := 0
deriving DecidableEq, Repr

namespace RunSummary

/-- What a scan says about a run, compared with what was known before. -/
def ofScan (scan : ScanOutput) (diff : ScanDiff) : RunSummary where
  units := scan.units.length
  added := diff.added.length
  modified := diff.modified.length
  unchanged := diff.unchanged.length
  removed := diff.removed.length
  skippedUnits := scan.skipped

/-- Adds what came of parsing. -/
def addOutcomes (s : RunSummary) (outcomes : List ParseOutcome) : RunSummary :=
  { s with
    cacheHits := outcomes.countP (·.cacheHit)
    degradedUnits := (outcomes.filter (·.degraded.isSome)).map (·.path)
    failedUnits := (outcomes.filter (·.outline.flags.parseFailed)).map (·.path) }

/-- Adds what was written. -/
def addDelta (s : RunSummary) (delta : Delta) : RunSummary :=
  { s with
    upsertedNodes := delta.upsertedNodes.length
    upsertedEdges := delta.upsertedEdges.length
    removedIds := delta.removedIds.length }

/-- The event that ends a run. -/
def completion (s : RunSummary) : Event :=
  .ingestionComplete s.generation s.upsertedNodes s.upsertedEdges s.removedIds s.unresolved.length

end RunSummary

/-! ## Steps of a run -/

/-- What a run works on, over a graph in a store of type `σ`. -/
structure RunState (σ : Type) where
  pipeline : Pipeline
  graph : σ
  cancel : Deadline := .never
  noted : List Emission := []

/-- A step of a run: it ends in an answer or in the failure that ends the run, and leaves a state in
both cases. -/
abbrev RunStep (σ α : Type) := ExceptT PipelineError (StateM (RunState σ)) α

namespace RunStep

variable {σ α : Type}

/-- Tells an event to the handlers, any of which may cancel the run. -/
def emit (event : Event) : RunStep σ Unit :=
  modify fun s =>
    let handlers := s.pipeline.handlers
    { s with
      noted := s.noted ++ (event.notedBy handlers).map fun name => ⟨name, event, s.pipeline.status⟩
      cancel := if event.cancelledBy handlers then .passed else s.cancel }

/-- Ends the run if it was cancelled. -/
def checkCancelled : RunStep σ Unit := do
  let (cancelled, cancel) := (← get).cancel.check
  modify fun s => { s with cancel }
  if cancelled then throw .cancelled

/-- Works on the graph. -/
def onGraph (run : Session σ α) : RunStep σ α := fun s =>
  let (answer, graph) := run s.graph
  (answer.mapError .graph, { s with graph })

/-- Lets the builder work on the graph. It is replaced only if it succeeds. -/
def build (call : Builder → Session σ (Delta × Builder)) : RunStep σ Delta := do
  let (delta, builder) ← onGraph (call (← get).pipeline.builder)
  modify fun s => { s with pipeline := { s.pipeline with builder } }
  return delta

/-- Scans a tree. -/
def scan (tree : Tree) (root : String) : RunStep σ ScanOutput := do
  let s ← get
  match tree.scan s.pipeline.settings.scan root s.cancel with
  | .ok (output, cancel) => do
    set { s with cancel }
    return output
  | .error e => throw (.scan e)

/-- Parses units. An analyzer may cancel the run. -/
def parse (units : List SourceUnit) : RunStep σ (List ParseOutcome) :=
  modifyGet fun s =>
    let (outcomes, parsing) := s.pipeline.parser.parseAll units s.pipeline.parsing
    (outcomes,
      { s with
        pipeline := { s.pipeline with parsing }
        cancel := if outcomes.any (·.cancelsRun) then .passed else s.cancel })

/-- Tells about an analysis that has failed. -/
def reportDegraded (outcome : ParseOutcome) : RunStep σ Unit :=
  match outcome.degraded with
  | some reason => emit (.parseDegraded outcome.path reason)
  | none => pure ()

/-- Marks the run as finished and gives its number. -/
def finish : RunStep σ Nat :=
  modifyGet fun s =>
    let generation := s.pipeline.status.generation + 1
    (generation, { s with pipeline := { s.pipeline with status := { running := false, generation } } })

end RunStep

/-! ## Runs -/

namespace Pipeline

open RunStep

variable {σ α : Type} [Backend σ]

/-- Parses units and folds them into the graph. This is the last moment for a cancellation. -/
def fold (units : List SourceUnit) (summary : RunSummary) : RunStep σ (RunSummary × Delta) := do
  let outcomes ← parse units
  checkCancelled
  outcomes.forM reportDegraded
  let parsed := List.zipWith (fun unit outcome => ⟨.ofUnit unit, outcome.outline⟩) units outcomes
  let delta ← build (·.ingest parsed)
  return (summary.addOutcomes outcomes, delta)

/-- Removes units one after the other. -/
def removeAll : List String → Delta → RunStep σ Delta
  | [], delta => return delta
  | path :: rest, delta => do
    let removed ← build (·.removeUnit path)
    removeAll rest (delta ++ removed)

/-- Ends a run that has come to its end. -/
def conclude (summary : RunSummary) (delta : Delta) : RunStep σ (Collected RunSummary) := do
  let unresolved := (← get).pipeline.builder.unresolved
  let generation ← finish
  let summary := { summary.addDelta delta with unresolved, generation }
  emit summary.completion
  return { data := summary }

/-- Brings the graph up to date with what a scan has found. -/
def foldScan (scan : ScanOutput) : RunStep σ (Collected RunSummary) := do
  let diff := ScanDiff.compute scan.units (← get).pipeline.builder.unitHashes
  let wanted := diff.added ++ diff.modified
  let changed := scan.units.filter fun unit => wanted.contains unit.path
  let (summary, delta) ← fold changed (.ofScan scan diff)
  conclude summary (← removeAll diff.removed delta)

/-- Scans a tree and tells what was found. -/
def scanTree (tree : Tree) (root : String) : RunStep σ ScanOutput := do
  emit (.scanStarted (shownPath root))
  let scan ← scan tree root
  scan.skipped.forM fun skipped =>
    emit (.unitSkipped (shownPath (joinPath root skipped.path)) skipped.reason)
  emit (.scanComplete scan.units.length scan.skipped.length)
  checkCancelled
  return scan

/-! ## Calls -/

/-- What a call leaves behind. -/
structure Report (σ α : Type) where
  outcome : Except PipelineError α
  noted : List Emission
  pipeline : Pipeline
  graph : σ

/-- Makes a run of some steps. It starts uncancelled and is over afterwards, whatever its outcome. -/
def run (p : Pipeline) (cancel : Deadline) (graph : σ) (steps : RunStep σ α) : Report σ α :=
  let pipeline := { p with status := { p.status with running := true } }
  let (outcome, s) := steps { pipeline, graph, cancel }
  { outcome
    noted := s.noted
    pipeline := { s.pipeline with status := { s.pipeline.status with running := false } }
    graph := s.graph }

/-- Brings the graph up to date with the tree below a root. -/
def ingestTree (p : Pipeline) (tree : Tree) (root : String) (cancel : Deadline) (graph : σ) :
    Report σ (Collected RunSummary) :=
  p.run cancel graph do foldScan (← scanTree tree root)

/-- Folds units into the graph; nothing is removed. -/
def ingestUnits (p : Pipeline) (units : List SourceUnit) (cancel : Deadline) (graph : σ) :
    Report σ (Collected RunSummary) :=
  p.run cancel graph do
    let (summary, delta) ← fold units { units := units.length }
    conclude summary delta

/-- Removes a unit from the graph. -/
def removeUnit (p : Pipeline) (path : String) (graph : σ) : Report σ Delta :=
  p.run .never graph (build (·.removeUnit path))

/-! ## Beginning -/

/-- A pipeline around a builder, with a fresh cache over a store. -/
def ofBuilder (settings : Settings) (analyzer : Option Analyzer) (store : CacheStore) (cores : Nat)
    (handlers : List Handler) (builder : Builder) : Pipeline :=
  let parser : Parser := ⟨settings.parser, analyzer⟩
  { settings, parser, parsing := parser.start cores store, builder, handlers }

/-- A pipeline for a graph in which there is nothing yet. -/
def fresh (settings : Settings) (analyzer : Option Analyzer) (store : CacheStore) (cores : Nat)
    (handlers : List Handler) : Pipeline :=
  ofBuilder settings analyzer store cores handlers { markers := settings.graph.effectiveTestMarkers }

/-- The pipeline that another process would continue with: what it knows of the graph it reads from the
graph, and only the store of its cache is kept. -/
def resume (p : Pipeline) (cores : Nat) : Session σ Pipeline := do
  let builder ← Builder.resume p.settings.graph.effectiveTestMarkers {}
  return ofBuilder p.settings p.parser.analyzer p.parsing.store cores p.handlers builder

end Pipeline

end CodeAtlas
