import CodeAtlas.Parsing.Error
import CodeAtlas.Source.Flow

/-!
# Analyzers and their workers

An analyzer measures the control flow of the declarations of a module, one measure for each. It runs
on a worker of a pool, because it may hang or take its worker down with it. The pool turns whatever
happens into measures or a failure. It asks one thing of the measures themselves: that there are as
many of them as there are declarations.
-/

set_option autoImplicit false

namespace CodeAtlas

/-- How an analysis ends. -/
inductive Verdict where
  | measured (flows : List FlowMetrics)
  | failed (error : ParseError)
  /-- It goes on until it is cancelled. -/
  | hangs
  /-- It ends its worker. -/
  | dies

/-- An analyzer of control flow. -/
structure Analyzer where
  name : String
  analyze : (source : String) → List Declaration → Verdict
  /-- Whether it cancels the run that it works for. -/
  cancelsRun : Bool := false

/-- The analyzer that counts blocks and decisions. -/
def Analyzer.blockStructure : Analyzer where
  name := "block-structure"
  analyze source decls := .measured (Source.measureFlow source decls)

/-- A pool of workers: how many were started and how many are still there. -/
structure WorkerPool where
  workers : Nat
  alive : Nat
deriving DecidableEq, Repr

namespace WorkerPool

/-- A fresh pool. It has at least one worker. -/
def ofSize (workers : Nat) : WorkerPool := ⟨max workers 1, max workers 1⟩

/-- The answer to a finished analysis. -/
def accept (analyzer : Analyzer) (unit : String) (decls : List Declaration)
    (flows : List FlowMetrics) : Except ParseError (List FlowMetrics) :=
  if flows.length = decls.length then .ok flows
  else .error (.deepUnavailable unit
    s!"{analyzer.name} returned {flows.length} results for {decls.length} declarations")

/-- Runs an analyzer on a worker and waits for it no longer than the timeout. -/
def run (pool : WorkerPool) (analyzer : Analyzer) (unit source : String) (decls : List Declaration)
    (timeoutMs : Nat) : Except ParseError (List FlowMetrics) × WorkerPool :=
  if pool.alive = 0 then (.error (.deepUnavailable unit "deep workers have exited"), pool)
  else match analyzer.analyze source decls with
    | .measured flows => (accept analyzer unit decls flows, pool)
    | .failed error => (.error error, pool)
    | .hangs => (.error (.deepTimeout unit timeoutMs), pool)
    | .dies =>
      (.error (.deepUnavailable unit s!"{analyzer.name} worker exited without a result"),
        { pool with alive := pool.alive - 1 })

end WorkerPool

end CodeAtlas
