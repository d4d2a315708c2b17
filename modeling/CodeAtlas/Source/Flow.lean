import CodeAtlas.Outline
import CodeAtlas.Source.Header

/-!
# Control flow by blocks

The deeper measurement of a declaration walks the tokens between its first and last line and counts
blocks, decisions and nesting from the structured statements alone. The number of edges follows from
the other two by the formula for cyclomatic complexity. In a text that `IsShort` admits, all these counts
are 32-bit words.
-/

set_option autoImplicit false

namespace CodeAtlas.Source

/-- What has been counted so far. A body is one block to begin with. -/
structure FlowCount where
  nesting : Nat := 0
  maxNesting : Nat := 0
  blocks : Nat := 1
  decisions : Nat := 0
deriving DecidableEq, Repr

namespace FlowCount

def addBlocks (n : Nat) (f : FlowCount) : FlowCount := { f with blocks := f.blocks + n }

def addDecision (f : FlowCount) : FlowCount := { f with decisions := f.decisions + 1 }

/-- Goes one level deeper. -/
def enter (f : FlowCount) : FlowCount :=
  { f with nesting := f.nesting + 1, maxNesting := max f.maxNesting (f.nesting + 1) }

/-- Comes back one level; at the outermost there is none. -/
def leave (f : FlowCount) : FlowCount := { f with nesting := f.nesting - 1 }

def keyword (f : FlowCount) : Keyword → FlowCount
  | .if | .while | .for => f.enter.addBlocks 1 |>.addDecision
  | .try => f.enter.addBlocks 1
  | .elsIf | .except => f.addBlocks 1 |>.addDecision
  | .else => f.addBlocks 1
  | .endIf | .endDo | .endTry => f.leave.addBlocks 1
  | .and | .or => f.addDecision
  | _ => f

/-- Counts the tokens of a body. -/
def count : FlowCount → List Token → FlowCount
  | f, [] => f
  | f, token :: rest =>
    let f := match token.kind with
      | .ident => token.keyword?.elim f f.keyword
      | .punct '?' => if rest.head?.any (Token.isPunct · '(') then f.addBlocks 2 |>.addDecision else f
      | _ => f
    f.count rest

def metrics (f : FlowCount) : FlowMetrics where
  cyclomatic := f.decisions + 1
  blocks := f.blocks
  edges := f.blocks + f.decisions - 1
  maxNesting := f.maxNesting

end FlowCount

/-- The tokens recorded under the lines of a declaration. -/
def bodyTokens (tokens : List Token) (decl : Declaration) : List Token :=
  tokens.filter fun t => decl.firstLine ≤ t.line && t.line ≤ decl.lastLine

/-- The flow of every declaration of a text, in order. -/
def measureFlow (text : String) (decls : List Declaration) : List FlowMetrics :=
  let tokens := (lex text).tokens
  decls.map fun decl => (FlowCount.count {} (bodyTokens tokens decl)).metrics

end CodeAtlas.Source
