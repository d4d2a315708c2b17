import CodeAtlas.Graph.Kind

/-!
# What can go wrong with a graph

Each failure is a cause with the facts that belong to it; the wording is derived. Only an
unavailable backend is worth trying again: every other failure would come back unchanged.
-/

set_option autoImplicit false

namespace CodeAtlas

/-- Failures of the stored rows themselves. -/
inductive StorageError where
  | engine (message : String)
  | migration (version : Nat) (message : String)
  | corruptRow (table message : String)
deriving DecidableEq, Repr

namespace StorageError

def message : StorageError → String
  | engine message => s!"SQLite error: {message}"
  | migration version message => s!"Migration to v{version} failed: {message}"
  | corruptRow table message => s!"Corrupt row in {table}: {message}"

def code (_ : StorageError) : String := "STORAGE_ERROR"

end StorageError

/-- Failures of a graph backend and of what is built on it. -/
inductive GraphError where
  | unavailable (message : String)
  | kindConflict (id existing requested : String)
  | danglingEdge (source target kind : String)
  | invalidProps (id message : String)
  | nodeNotFound (id : String)
deriving DecidableEq, Repr

namespace GraphError

def message : GraphError → String
  | unavailable message => s!"Graph backend unavailable: {message}"
  | kindConflict id existing requested =>
    s!"Node {id} already exists with kind {existing}, refusing kind {requested}"
  | danglingEdge source target kind =>
    s!"Edge {source} -[{kind}]-> {target} references a missing node"
  | invalidProps id message => s!"Invalid properties for {id}: {message}"
  | nodeNotFound id => s!"Node not found: {id}"

def code : GraphError → String
  | unavailable _ => "BACKEND_UNAVAILABLE"
  | kindConflict .. | danglingEdge .. | invalidProps .. => "GRAPH_INVARIANT"
  | nodeNotFound _ => "NODE_NOT_FOUND"

/-- Whether the same call may succeed later. -/
def isRetryable : GraphError → Bool
  | unavailable _ => true
  | _ => false

/-- A failure of the rows makes the backend unavailable. -/
def ofStorage (error : StorageError) : GraphError := unavailable error.message

end GraphError

end CodeAtlas
