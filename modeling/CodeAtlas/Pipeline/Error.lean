import CodeAtlas.Graph.Error
import CodeAtlas.Parsing.Error
import CodeAtlas.Settings.Basic
import CodeAtlas.Tree.Error

/-!
# What can end a run

A run ends with the failure of one of its parts or because it was cancelled. Failures that do not end
it are collected beside its result.
-/

set_option autoImplicit false

namespace CodeAtlas

/-- Why a run ended without a result. -/
inductive PipelineError where
  | scan (error : ScanError)
  | parse (error : ParseError)
  | graph (error : GraphError)
  | storage (error : StorageError)
  | settings (error : SettingsError)
  | cancelled
deriving DecidableEq, Repr

namespace PipelineError

/-- The failure of a part is told in that part's words, with the part named before them. -/
def message : PipelineError → String
  | scan error => s!"Scan error: {error.message}"
  | parse error => s!"Parse error: {error.message}"
  | graph error => s!"Graph error: {error.message}"
  | storage error => s!"Storage error: {error.message}"
  | settings error => s!"Configuration error: {error.message}"
  | cancelled => "Pipeline cancelled"

/-- The failure of a part keeps that part's code. -/
def code : PipelineError → String
  | scan error => error.code
  | parse error => error.code
  | graph error => error.code
  | storage error => error.code
  | settings error => error.code
  | cancelled => "CANCELLED"

/-- The failure as the graph's callers see it, if it is one of the graph or of its rows. -/
def graphView? : PipelineError → Option GraphError
  | graph error => some error
  | storage error => some (.ofStorage error)
  | _ => none

end PipelineError

/-- A result together with the failures that did not prevent it, in the order they came. -/
structure Collected (α : Type) where
  data : α
  errors : List PipelineError := []

namespace Collected

variable {α : Type}

def addError (c : Collected α) (error : PipelineError) : Collected α :=
  { c with errors := c.errors ++ [error] }

def isClean (c : Collected α) : Bool := c.errors.isEmpty

end Collected

end CodeAtlas
