import CodeAtlas.Builder.Basic
import CodeAtlas.Builder.Fragment
import CodeAtlas.Builder.NameIndex
import CodeAtlas.Builder.PendingQueue
import CodeAtlas.Builder.Plan
import CodeAtlas.Builder.Reference
import CodeAtlas.Builder.Resume
import CodeAtlas.ContentHash
import CodeAtlas.Deadline
import CodeAtlas.Decimal.Nearest
import CodeAtlas.Decimal.Rounded
import CodeAtlas.Decimal.Shortest
import CodeAtlas.Descriptor
import CodeAtlas.Event
import CodeAtlas.Graph.Delta
import CodeAtlas.Graph.Edge
import CodeAtlas.Graph.Error
import CodeAtlas.Graph.Kind
import CodeAtlas.Graph.Node
import CodeAtlas.Graph.PropertyGraph
import CodeAtlas.Graph.Schema
import CodeAtlas.Graph.StableGraph
import CodeAtlas.Json.Basic
import CodeAtlas.Json.Literal
import CodeAtlas.Json.Number
import CodeAtlas.Json.Reader
import CodeAtlas.Json.Skip
import CodeAtlas.Json.Writer
import CodeAtlas.Outline
import CodeAtlas.Outline.Record
import CodeAtlas.Parsing.Analyzer
import CodeAtlas.Parsing.Cache
import CodeAtlas.Parsing.Error
import CodeAtlas.Parsing.Parser
import CodeAtlas.Pipeline.Basic
import CodeAtlas.Pipeline.Error
import CodeAtlas.Proofs.Attempts
import CodeAtlas.Proofs.Books
import CodeAtlas.Proofs.Caching
import CodeAtlas.Proofs.Closure
import CodeAtlas.Proofs.Collections
import CodeAtlas.Proofs.Contents
import CodeAtlas.Proofs.Convergence
import CodeAtlas.Proofs.EdgeSchema
import CodeAtlas.Proofs.Forgetting
import CodeAtlas.Proofs.Fragment
import CodeAtlas.Proofs.History
import CodeAtlas.Proofs.Json.Numbers
import CodeAtlas.Proofs.Json.RoundTrip
import CodeAtlas.Proofs.Layers
import CodeAtlas.Proofs.Links
import CodeAtlas.Proofs.ListRuns
import CodeAtlas.Proofs.Mirror
import CodeAtlas.Proofs.NameIndex
import CodeAtlas.Proofs.Neighbors
import CodeAtlas.Proofs.ObjectIdentity
import CodeAtlas.Proofs.Order
import CodeAtlas.Proofs.Outcome
import CodeAtlas.Proofs.PendingQueue
import CodeAtlas.Proofs.Planning.Add
import CodeAtlas.Proofs.Planning.Hashes
import CodeAtlas.Proofs.Planning.Resolve
import CodeAtlas.Proofs.Planning.Retract
import CodeAtlas.Proofs.Planning.Track
import CodeAtlas.Proofs.Planning.Vanish
import CodeAtlas.Proofs.Preservation
import CodeAtlas.Proofs.Query.Circles
import CodeAtlas.Proofs.Query.Coverage
import CodeAtlas.Proofs.Query.Cycles
import CodeAtlas.Proofs.Query.Distance
import CodeAtlas.Proofs.Query.Expansion
import CodeAtlas.Proofs.Query.Hop
import CodeAtlas.Proofs.Query.Impact
import CodeAtlas.Proofs.Query.Looks
import CodeAtlas.Proofs.Query.Loops
import CodeAtlas.Proofs.Query.Traceability
import CodeAtlas.Proofs.Queue.Calls
import CodeAtlas.Proofs.Queue.Shelves
import CodeAtlas.Proofs.Record
import CodeAtlas.Proofs.Recovery
import CodeAtlas.Proofs.Reference
import CodeAtlas.Proofs.Removal
import CodeAtlas.Proofs.Repair
import CodeAtlas.Proofs.Replay
import CodeAtlas.Proofs.Resume
import CodeAtlas.Proofs.Retry
import CodeAtlas.Proofs.Rivals
import CodeAtlas.Proofs.Runs
import CodeAtlas.Proofs.Safety
import CodeAtlas.Proofs.Scans
import CodeAtlas.Proofs.Sessions
import CodeAtlas.Proofs.Source.Annotations
import CodeAtlas.Proofs.Source.Decisions
import CodeAtlas.Proofs.Source.Directives
import CodeAtlas.Proofs.Source.Headings
import CodeAtlas.Proofs.Source.Lexemes
import CodeAtlas.Proofs.Source.Mentions
import CodeAtlas.Proofs.Source.OpenNames
import CodeAtlas.Proofs.Source.Ranges
import CodeAtlas.Proofs.Source.Rendering
import CodeAtlas.Proofs.Source.Spellings
import CodeAtlas.Proofs.Store.Agreement
import CodeAtlas.Proofs.Store.Encoding
import CodeAtlas.Proofs.Store.InMemory
import CodeAtlas.Proofs.Store.Indexed
import CodeAtlas.Proofs.Store.Laws
import CodeAtlas.Proofs.Store.Operations
import CodeAtlas.Proofs.Store.ReadBack
import CodeAtlas.Proofs.Store.Rows
import CodeAtlas.Proofs.Store.Slots
import CodeAtlas.Proofs.Text.Cuts
import CodeAtlas.Proofs.Text.Matching
import CodeAtlas.Proofs.TypeReferences
import CodeAtlas.Proofs.Waiting
import CodeAtlas.Proofs.WordSize
import CodeAtlas.Proofs.Writing
import CodeAtlas.Query.Coverage
import CodeAtlas.Query.Cycles
import CodeAtlas.Query.Expansion
import CodeAtlas.Query.Hop
import CodeAtlas.Query.Impact
import CodeAtlas.Query.Loops
import CodeAtlas.Query.Metrics
import CodeAtlas.Query.Severity
import CodeAtlas.Query.Traceability
import CodeAtlas.Retry
import CodeAtlas.Settings.Basic
import CodeAtlas.Settings.File
import CodeAtlas.Settings.Layers
import CodeAtlas.Source.Annotation
import CodeAtlas.Source.Flow
import CodeAtlas.Source.Header
import CodeAtlas.Source.Keyword
import CodeAtlas.Source.ModuleReader
import CodeAtlas.Source.QueryText
import CodeAtlas.Source.Token
import CodeAtlas.SourceUnit.Basic
import CodeAtlas.SourceUnit.Diff
import CodeAtlas.SourceUnit.Location
import CodeAtlas.Store.Backend
import CodeAtlas.Store.Database
import CodeAtlas.Store.Either
import CodeAtlas.Store.Faulty
import CodeAtlas.Store.Indexed
import CodeAtlas.Store.Props
import CodeAtlas.Store.Rows
import CodeAtlas.Text.Affix
import CodeAtlas.Text.Alphabetic
import CodeAtlas.Text.Blank
import CodeAtlas.Text.Case
import CodeAtlas.Text.CaseTable
import CodeAtlas.Text.CodeRanges
import CodeAtlas.Text.Numeric
import CodeAtlas.Text.Pattern
import CodeAtlas.Text.Reads
import CodeAtlas.Text.Word
import CodeAtlas.Toml.Basic
import CodeAtlas.Toml.Number
import CodeAtlas.Toml.Reader
import CodeAtlas.Toml.Table
import CodeAtlas.Toml.Text
import CodeAtlas.Toml.Writer
import CodeAtlas.Tree.Basic
import CodeAtlas.Tree.Error
import CodeAtlas.Tree.Glob
import CodeAtlas.Tree.Ignore
import CodeAtlas.Tree.Scan
import CodeAtlas.Xml.Event
