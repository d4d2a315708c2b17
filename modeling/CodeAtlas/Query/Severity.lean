/-!
# Severities

How much a finding of a report matters.
-/

set_option autoImplicit false

namespace CodeAtlas

/-- How much a finding matters. -/
inductive Severity where
  | low
  | medium
  | high
  | critical
deriving DecidableEq, Repr

namespace Severity

def name : Severity → String
  | low => "low"
  | medium => "medium"
  | high => "high"
  | critical => "critical"

end Severity

end CodeAtlas
