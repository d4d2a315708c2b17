import CodeAtlas.Store.Backend

/-!
# Trying again

A call that fails because the backend is unavailable is made again, up to a number of attempts. Every
other failure is final, and so is the failure of the last attempt. There is always one attempt. The
pauses between attempts do not show in the outcome and are left to whoever runs the calls.
-/

set_option autoImplicit false

namespace CodeAtlas

/-- How often a call is made at most. -/
structure RetryPolicy where
  maxAttempts : Nat := 4
deriving DecidableEq, Repr

/-- Makes a call, and again after each retryable failure as long as further attempts are left. -/
def retryCall {m : Type → Type} [Monad m] {α : Type} (call : m (Except GraphError α)) :
    (further : Nat) → m (Except GraphError α)
  | 0 => call
  | further + 1 => do
    match ← call with
    | .ok answer => return .ok answer
    | .error e => if e.isRetryable then retryCall call further else return .error e

namespace RetryPolicy

/-- Makes a call as often as the policy allows. -/
def apply {m : Type → Type} [Monad m] {α : Type} (policy : RetryPolicy)
    (call : m (Except GraphError α)) : m (Except GraphError α) :=
  retryCall call (policy.maxAttempts - 1)

/-- Makes a call to a backend as often as the policy allows. -/
def session {σ α : Type} (policy : RetryPolicy) (call : Session σ α) : Session σ α :=
  ExceptT.mk (policy.apply call.run)

end RetryPolicy

end CodeAtlas
