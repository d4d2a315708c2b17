/-!
# What can go wrong with a scan

Only the root of a scan, the patterns it is given and a cancellation can make it fail. A single file
that cannot be used is left out of the result and named there.
-/

set_option autoImplicit false

namespace CodeAtlas

/-- Failures of a scan. -/
inductive ScanError where
  /-- The root is missing or no directory. -/
  | invalidRoot (path reason : String)
  | unreadableSource (path message : String)
  /-- The walk through the tree could not be set up. -/
  | walk (message : String)
  | cancelled
deriving DecidableEq, Repr

namespace ScanError

def message : ScanError → String
  | invalidRoot path reason => s!"Invalid ingestion root {path}: {reason}"
  | unreadableSource path message => s!"Unreadable source {path}: {message}"
  | walk message => s!"Walker error: {message}"
  | cancelled => "Scan cancelled"

def code : ScanError → String
  | invalidRoot .. => "INVALID_ROOT"
  | unreadableSource .. => "UNREADABLE_SOURCE"
  | walk _ => "SCAN_ERROR"
  | cancelled => "CANCELLED"

end ScanError

end CodeAtlas
