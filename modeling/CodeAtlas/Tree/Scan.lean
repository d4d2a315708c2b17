import CodeAtlas.Deadline
import CodeAtlas.Settings.Basic
import CodeAtlas.Tree.Basic
import CodeAtlas.Tree.Error
import CodeAtlas.Tree.Ignore

/-!
# Scanning a tree

A scan walks through the tree below a root and reads every file that is a unit. Hidden names and what
the ignore patterns match are left out, and so are links unless the settings say otherwise. A unit that
is too large or no valid text is skipped with a reason; nothing else about a file makes a scan fail.
-/

set_option autoImplicit false

namespace CodeAtlas

/-- A unit that could not be used. -/
structure SkippedUnit where
  path : String
  reason : String
deriving DecidableEq, Repr

/-- What a scan counts. -/
structure ScanStats where
  /-- Files that were seen. -/
  discovered : Nat := 0
  units : Nat := 0
  /-- Files that are no units. -/
  ignored : Nat := 0
  skipped : Nat := 0
  /-- Bytes in the texts of the units. -/
  totalBytes : Nat := 0
deriving DecidableEq, Repr

/-- What a scan finds. Units and skipped units are in the order of their paths. -/
structure ScanOutput where
  units : List SourceUnit := []
  skipped : List SkippedUnit := []
  stats : ScanStats := {}

/-- A file that a walk has come to, with its path from the root of the walk. -/
structure FoundFile where
  path : String
  content : ByteArray

/-! ## Walking -/

/-- What a walk goes by. -/
structure WalkRules where
  ignore : List IgnorePattern := []
  followLinks : Bool := false

namespace WalkRules

/-- Whether a walk leaves something out, given by its path from the root of the walk. -/
def leavesOut (rules : WalkRules) (path : TreePath) (isDirectory : Bool) : Bool :=
  (path.getLast?.any (Text.hasPrefix ".")) ||
    rules.ignore.any (·.appliesTo ("/".intercalate path) isDirectory)

end WalkRules

namespace Tree

/-- What a walk finds under a name: what stands there, or what a link leads to. A link that leads to a
directory on the way to it is passed over. -/
def visible? (t : Tree) (rules : WalkRules) (way : List TreePath) (directory : TreePath)
    (name : String) : Option (TreePath × TreeEntry) :=
  let path := directory ++ [name]
  match t.entry? path with
  | some (.link _) =>
    if rules.followLinks then
      match t.resolve directory name with
      | .ok (_, .file content) => some (path, .file content)
      | .ok (target, entry) => if way.contains target then none else some (target, entry)
      | .error _ => none
    else none
  | entry => entry.map (path, ·)

/-- The files below a directory. `way` holds the directories on the way to it, itself included, and
`walked` its path from the root of the walk. The walk goes `depth` directories deep. -/
def walk (t : Tree) (rules : WalkRules) (depth : Nat) (way : List TreePath)
    (directory walked : TreePath) : List FoundFile :=
  match depth with
  | 0 => []
  | depth + 1 => (t.names directory).flatMap fun name =>
    let walked := walked ++ [name]
    match t.visible? rules way directory name with
    | some (_, .file content) =>
      if rules.leavesOut walked false then [] else [⟨"/".intercalate walked, content⟩]
    | some (target, .directory) =>
      if rules.leavesOut walked true then []
      else t.walk rules depth (target :: way) target walked
    | _ => []

/-- A depth that no walk exceeds. Between two links a walk goes down the tree, and no two links on its
way lead to the same directory. -/
def maxDepth (t : Tree) : Nat := (t.entries.size + 2) * (t.entries.size + 2)

end Tree

/-! ## Reading -/

namespace SourceUnit

/-- The unit in a file. Its hash is that of the bytes; its text is without a byte order mark. -/
def ofFile (path : String) (kind : UnitKind) (content : ByteArray) : Except SkippedUnit SourceUnit :=
  match String.fromUTF8? content with
  | none => .error ⟨path, "content is not valid UTF-8"⟩
  | some text =>
    .ok ⟨path, kind, (Text.stripPrefix? "\uFEFF" text).getD text, .ofBytes content⟩

end SourceUnit

namespace FoundFile

/-- The unit of a file, if it is one. -/
def unit? (file : FoundFile) (maxSize : Nat) : Option (Except SkippedUnit SourceUnit) :=
  (UnitKind.classify file.path).map fun kind =>
    if maxSize < file.content.size then
      .error ⟨file.path, s!"exceeds max file size ({file.content.size} > {maxSize})"⟩
    else SourceUnit.ofFile file.path kind file.content

end FoundFile

namespace ScanOutput

/-- The units in some files. -/
def ofFiles (files : List FoundFile) (maxSize : Nat) : ScanOutput :=
  let read := files.filterMap (·.unit? maxSize)
  let units := (read.filterMap (·.toOption)).mergeSort fun a b => (compare a.path b.path).isLE
  let skipped := (read.filterMap fun
    | .error skipped => some skipped
    | .ok _ => none).mergeSort fun a b => (compare a.path b.path).isLE
  { units, skipped
    stats :=
      { discovered := files.length, units := units.length, ignored := files.length - read.length
        skipped := skipped.length
        totalBytes := units.foldl (fun n unit => n + unit.content.utf8ByteSize) 0 } }

end ScanOutput

/-! ## Scanning -/

namespace Tree

/-- The directory at a root. -/
def rootDirectory (t : Tree) (root : String) : Except ScanError TreePath :=
  match t.resolve [] root with
  | .ok (path, .directory) => .ok path
  | .ok _ => .error (.invalidRoot root "not a directory")
  | .error e => .error (.invalidRoot root e.message)

/-- What a walk goes by under some settings. -/
def walkRules (settings : ScanSettings) : Except ScanError WalkRules := do
  let ignore ← settings.extraIgnore.mapM fun text =>
    match IgnorePattern.parse? text with
    | some pattern => .ok pattern
    | none => .error (.walk s!"invalid ignore glob {text}")
  return { ignore, followLinks := settings.effectiveFollowSymlinks }

/-- Whether a run goes on: fails if it was cancelled. -/
def checkpoint (cancel : Deadline) : Except ScanError Deadline :=
  match cancel.check with
  | (true, _) => .error .cancelled
  | (false, cancel) => .ok cancel

/-- Scans the tree below a root. A cancellation is noticed after the walk and after the reading. -/
def scan (t : Tree) (settings : ScanSettings) (root : String) (cancel : Deadline) :
    Except ScanError (ScanOutput × Deadline) := do
  let directory ← t.rootDirectory root
  let rules ← walkRules settings
  let files := t.walk rules t.maxDepth [directory] directory []
  let cancel ← checkpoint cancel
  let output := ScanOutput.ofFiles files settings.effectiveMaxFileSize
  return (output, ← checkpoint cancel)

end Tree

end CodeAtlas
