import CodeAtlas.Builder.Basic
import CodeAtlas.Text.Reads

/-!
# Resuming

The bookkeeping of a builder can be read back from the graph it has written: units from the
properties of nodes and edges, the queue from the edges to placeholders.
-/

set_option autoImplicit false

namespace CodeAtlas

namespace Bookkeeping

/-- Reads a hash: hexadecimal digits, with a plus sign before them or not, within 64 bits. -/
def hashOfHex? (text : String) : Option ContentHash := do
  let digits := match text.toList with
    | '+' :: rest => rest
    | cs => cs
  if digits.isEmpty then none
  else
    let value := Text.ofDigits 16 (← digits.mapM Text.hexValue?)
    if value < UInt64.size then return ⟨value.toUInt64⟩ else none

/-- What a node says about the unit that owns it. -/
def recallNode (book : Bookkeeping) (node : Node) : Bookkeeping :=
  if node.kind = .unknown then book
  else
    let book := { book with index := book.index.add node }
    match node.unit? with
    | none => book
    | some path =>
      let unit := book.units[path]?.getD {}
      let hash := (node.props.text? "content_hash" >>= hashOfHex?).getD unit.hash
      { book with
        units := book.units.insert path { unit with nodes := unit.nodes.insert node.id, hash }
        nodeUnit := book.nodeUnit.insert node.id path }

/-- The end of an edge that is a placeholder, and the other end. -/
def placeholderEnd? (edge : Edge) : Option (NodeId × NodeId) :=
  if edge.target.isPlaceholder then some (edge.target, edge.source)
  else if edge.source.isPlaceholder then some (edge.source, edge.target)
  else none

/-- What an edge says about the unit that owns it, and about the queue. -/
def recallEdge (kinds : NodeId → Option NodeKind) (book : Bookkeeping) (edge : Edge) :
    Bookkeeping :=
  match edge.unit? with
  | none => book
  | some path =>
    let book := book.addEdge path edge.key
    let waiting := do
      let (gone, owner) ← placeholderEnd? edge
      Reference.ofEdge? edge gone (kinds owner) gone.text book.index.moduleOf?
    waiting.elim book fun r => { book with pending := book.pending.insert r }

/-- The bookkeeping that a graph stands for. -/
def ofGraph (nodes : List Node) (edges : List Edge) : Bookkeeping :=
  let kinds := nodes.foldl (fun m node => m.insert node.id node.kind)
    (∅ : Std.ExtTreeMap NodeId NodeKind)
  edges.foldl (recallEdge fun id => kinds[id]?) (nodes.foldl recallNode {})

end Bookkeeping

/-- A builder that goes on where an earlier one stopped. The graph is read without trying again. -/
def Builder.resume {σ : Type} [Backend σ] (markers : List String) (policy : RetryPolicy) :
    Session σ Builder := do
  let nodes ← Backend.findNodes none {}
  let edges ← Backend.allEdges
  return { markers, policy, book := .ofGraph nodes edges }

end CodeAtlas
