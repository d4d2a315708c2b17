import CodeAtlas.SourceUnit.Basic
import Std.Data.ExtTreeMap

/-!
# Changes between two scans

The paths of a scan are compared with the hashes remembered from before. Every list is sorted.
-/

set_option autoImplicit false

namespace CodeAtlas

/-- The content hash of every known unit, by path. -/
abbrev Snapshot := Std.ExtTreeMap String ContentHash

/-- The hashes of a list of units; of two units with one path the later counts. -/
def Snapshot.ofUnits (units : List SourceUnit) : Snapshot :=
  units.foldl (fun known unit => known.insert unit.path unit.hash) ∅

/-- What happened to each path since the last scan. -/
structure ScanDiff where
  added : List String := []
  modified : List String := []
  unchanged : List String := []
  removed : List String := []
deriving DecidableEq

namespace ScanDiff

/-- The texts in ascending order; repeated ones stay. -/
def sorted (paths : List String) : List String := paths.mergeSort fun a b => (compare a b).isLE

/-- Compares the scanned units with what was known before. -/
def compute (units : List SourceUnit) (previous : Snapshot) : ScanDiff :=
  let pathsWhere (holds : SourceUnit → Bool) := sorted ((units.filter holds).map (·.path))
  { added := pathsWhere fun u => previous[u.path]?.isNone
    modified := pathsWhere fun u => previous[u.path]?.any (· != u.hash)
    unchanged := pathsWhere fun u => previous[u.path]? == some u.hash
    removed := previous.keys.filter fun path => !units.any (·.path == path) }

/-- Whether nothing was added, modified or removed. -/
def isNoop (diff : ScanDiff) : Bool :=
  diff.added.isEmpty && diff.modified.isEmpty && diff.removed.isEmpty

end ScanDiff

end CodeAtlas
