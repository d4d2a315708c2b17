import CodeAtlas.SourceUnit.Basic
import Std.Data.ExtTreeMap

/-!
# Trees of files

A tree says what stands at each path below its root: a file, a directory, or a link to another path.
The root is a directory. A link leads on from the directory in which it stands; one that leads out of
the tree leads nowhere.
-/

set_option autoImplicit false

namespace CodeAtlas

/-- The segments of a path below the root. -/
abbrev TreePath := List String

/-- What stands at a path. -/
inductive TreeEntry where
  | file (content : ByteArray)
  | directory
  | link (target : String)

/-- A tree of files. -/
structure Tree where
  entries : Std.ExtTreeMap TreePath TreeEntry := ∅

/-- Why a path leads to nothing. -/
inductive LookupError where
  | missing
  /-- The path goes on behind something that is no directory. -/
  | notDirectory
  /-- The path leads through too many links. -/
  | tooManyLinks
deriving DecidableEq, Repr

namespace LookupError

def message : LookupError → String
  | missing => "No such file or directory (os error 2)"
  | notDirectory => "Not a directory (os error 20)"
  | tooManyLinks => "Too many levels of symbolic links (os error 40)"

end LookupError

namespace Tree

open Text

/-! ## Looking up -/

/-- What stands at a path, links not followed. -/
def entry? (t : Tree) (path : TreePath) : Option TreeEntry :=
  if path.isEmpty then some .directory else t.entries[path]?

/-- Follows segments from a directory. Gives the path at which they end and what stands there, which
is no link. A link counts against `links`; a segment counts against nothing. -/
def follow (t : Tree) (links : Nat) (at_ : TreePath) (segments : List String) :
    Except LookupError (TreePath × TreeEntry) :=
  match segments with
  | [] => .ok (at_, .directory)
  | segment :: rest =>
    if segment.isEmpty || segment == "." then t.follow links at_ rest
    else if segment == ".." then
      if at_.isEmpty then .error .missing else t.follow links at_.dropLast rest
    else
      let path := at_ ++ [segment]
      match t.entry? path with
      | none => .error .missing
      | some .directory => t.follow links path rest
      | some (.file content) => if rest.isEmpty then .ok (path, .file content) else .error .notDirectory
      | some (.link target) =>
        match links with
        | 0 => .error .tooManyLinks
        | left + 1 =>
          if hasPrefix "/" target then .error .missing
          else t.follow left at_ (pathSegments target ++ rest)
termination_by (links, segments.length)

/-- The number of links that a path may lead through. -/
def maxLinks : Nat := 40

/-- What a path leads to, given from some directory. -/
def resolve (t : Tree) (from_ : TreePath) (path : String) :
    Except LookupError (TreePath × TreeEntry) :=
  t.follow maxLinks from_ (pathSegments path)

/-- The names in a directory. -/
def names (t : Tree) (directory : TreePath) : List String :=
  t.entries.keys.filterMap fun path =>
    match path.getLast? with
    | some name => if path.dropLast = directory then some name else none
    | none => none

/-! ## Changes -/

/-- The tree with something at a path. -/
def put (t : Tree) (path : TreePath) (entry : TreeEntry) : Tree := ⟨t.entries.insert path entry⟩

/-- Follows segments from a directory and makes a directory wherever nothing stands. Gives the directory
at which they end, or nothing if something other than a directory is in the way. -/
def enter (t : Tree) (at_ : TreePath) : List String → Option (TreePath × Tree)
  | [] => some (at_, t)
  | segment :: rest =>
    if segment.isEmpty || segment == "." then t.enter at_ rest
    else if segment == ".." then if at_.isEmpty then none else t.enter at_.dropLast rest
    else
      let path := at_ ++ [segment]
      match t.entry? path with
      | none => (t.put path .directory).enter path rest
      | some _ =>
        match t.follow maxLinks at_ [segment] with
        | .ok (directory, .directory) => t.enter directory rest
        | _ => none

/-- Where a file comes to stand that is written to some segments from a directory. Links lead on, also
the last one, and only what they lead to may be missing. -/
def landing? (t : Tree) (links : Nat) (at_ : TreePath) (segments : List String) : Option TreePath :=
  match segments with
  | [] => none
  | segment :: rest =>
    if segment.isEmpty || segment == "." then t.landing? links at_ rest
    else if segment == ".." then if at_.isEmpty then none else t.landing? links at_.dropLast rest
    else
      let path := at_ ++ [segment]
      match t.entry? path with
      | none | some (.file _) => if rest.isEmpty then some path else none
      | some .directory => t.landing? links path rest
      | some (.link target) =>
        match links with
        | 0 => none
        | left + 1 =>
          if hasPrefix "/" target then none else t.landing? left at_ (pathSegments target ++ rest)
termination_by (links, segments.length)

/-- The last segment of a path and those before it; segments that lead nowhere do not count. -/
def lastSegment? (path : String) : Option (List String × String) :=
  let segments := (pathSegments path).filter fun s => !s.isEmpty && s != "."
  segments.getLast?.map (segments.dropLast, ·)

/-- Writes something to a path. The directories above it are made if they are not there; links among
them are followed, and a file is written to where a link at its own place leads. If something is in the
way nothing is written. -/
def write (t : Tree) (path : String) (entry : TreeEntry) : Tree :=
  match lastSegment? path with
  | none => t
  | some (above, name) =>
    match t.enter [] above with
    | none => t
    | some (directory, t) =>
      match entry with
      | .file content =>
        match t.landing? maxLinks directory [name] with
        | some place => t.put place (.file content)
        | none => t
      | .directory =>
        match t.enter directory [name] with
        | some (_, t) => t
        | none => t
      | .link target => t.put (directory ++ [name]) (.link target)

/-- Removes what stands at a path together with everything below it. Links above it are followed, and a
link at its own place is removed itself. -/
def remove (t : Tree) (path : String) : Tree :=
  match lastSegment? path with
  | none => t
  | some (above, name) =>
    match t.follow maxLinks [] above with
    | .ok (directory, .directory) =>
      ⟨t.entries.filter fun p _ => !(directory ++ [name]).isPrefixOf p⟩
    | _ => t

end Tree

/-! ## Paths as texts -/

/-- A path below a root. -/
def joinPath (root path : String) : String :=
  if root.isEmpty then path else if Text.hasSuffix "/" root then root ++ path else root ++ "/" ++ path

/-- A path as it is shown: without the segments at either end that lead nowhere. Those between others
stay. -/
def shownPath (path : String) : String :=
  let idle (segment : String) := segment.isEmpty || segment == "."
  "/".intercalate (((pathSegments path).dropWhile idle).reverse.dropWhile idle).reverse

end CodeAtlas
