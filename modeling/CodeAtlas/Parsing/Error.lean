/-!
# What can go wrong with reading a unit

Malformed content is no failure: it gives an outline with a flag. The failures here are those of the
machinery around the readers, and a failed flow analysis leaves the outline without its measures.
-/

set_option autoImplicit false

namespace CodeAtlas

/-- Failures of analyzers, of their workers and of the cache. -/
inductive ParseError where
  | failure (unit message : String)
  | deepUnavailable (unit reason : String)
  | deepTimeout (unit : String) (timeoutMs : Nat)
  | cache (message : String)
  | pool (message : String)
deriving DecidableEq, Repr

namespace ParseError

def message : ParseError → String
  | failure unit message => s!"Parse failure in {unit}: {message}"
  | deepUnavailable unit reason => s!"Deep analysis unavailable for {unit}: {reason}"
  | deepTimeout unit timeoutMs => s!"Deep analysis of {unit} timed out after {timeoutMs}ms"
  | cache message => s!"Parse cache error: {message}"
  | pool message => s!"Parser pool error: {message}"

def code : ParseError → String
  | failure .. => "PARSE_FAILURE"
  | deepUnavailable .. | deepTimeout .. => "DEEP_PARSE_UNAVAILABLE"
  | cache _ | pool _ => "CACHE_ERROR"

end ParseError

end CodeAtlas
