import CodeAtlas.Graph.Node
import CodeAtlas.SourceUnit.Basic

/-!
# Where a unit stands in the tree

The ids of modules and metadata objects are read off paths, never off contents: a unit keeps its
identity however its text changes. The same paths also say which object a module belongs to, the
name under which other modules call it, and whether it is a test.
-/

set_option autoImplicit false

namespace CodeAtlas

open Text

/-- The id of the configuration itself. -/
def configurationId : NodeId := ⟨"Configuration"⟩

/-- What a module's path says about it. -/
structure ModuleLocation where
  id : NodeId
  /-- The object whose folder holds the module. -/
  owner : Option NodeId := none
  /-- The name that qualified calls use; only common modules have one. -/
  commonModule : Option String := none
  shortName : String
deriving DecidableEq

namespace ModuleLocation

/-- A path segment without the extension of a source module. -/
def stripExtension (segment : String) : String :=
  if hasSuffixAscii ".bsl" segment then dropLastChars 4 segment else segment

/-- The list with its last member changed. -/
def mapLast {α : Type} (f : α → α) : List α → List α
  | [] => []
  | [a] => [f a]
  | a :: b :: rest => a :: mapLast f (b :: rest)

/-- What follows the object in a module's id: the form or command it belongs to, and otherwise the
remaining segments without the folder `Ext`. -/
def tail : List String → String
  | "Forms" :: form :: _ => s!"Form.{form}"
  | "Commands" :: command :: _ => s!"Command.{command}"
  | rest => ".".intercalate (rest.filter (!sameAscii · "Ext"))

/-- The location of a module inside the folder of a metadata object. -/
def inObject (kind : MetadataKind) (name : String) (rest : List String) : ModuleLocation :=
  let owner := NodeId.metadataObject kind name
  let end_ := tail rest
  let id : NodeId := if end_.isEmpty then owner else ⟨s!"{owner.text}.{end_}"⟩
  if kind = .commonModule then
    { id, owner := some owner, commonModule := some name, shortName := name }
  else { id, owner := some owner, shortName := afterLast '.' id.text }

/-- The location of a module at the root of the configuration or at no known place. -/
def elsewhere (segments : List String) : ModuleLocation :=
  match segments with
  | [ext, name] =>
    if sameAscii ext "Ext" then
      { id := ⟨s!"{configurationId.text}.{name}"⟩, owner := some configurationId, shortName := name }
    else { id := ⟨".".intercalate segments⟩, shortName := name }
  | _ => { id := ⟨".".intercalate segments⟩, shortName := segments.getLast?.getD "" }

/-- The location of the module at a path. -/
def ofPath (path : String) : ModuleLocation :=
  let segments := mapLast stripExtension (pathSegments path)
  match segments with
  | folder :: name :: next :: rest =>
    match MetadataKind.ofFolder? folder with
    | some kind => inObject kind name (next :: rest)
    | none => elsewhere segments
  | _ => elsewhere segments

end ModuleLocation

/-- The metadata object that the descriptor at a path describes. The extension is taken off in
either of its two uniform spellings. -/
def descriptorObject? (path : String) : Option (MetadataKind × String) := do
  let (folder, file) ← cutAt? '/' path
  let kind ← MetadataKind.ofFolder? folder
  let name ← stripSuffix? ".xml" file <|> stripSuffix? ".XML" file
  return (kind, name)

/-- Whether a module is a test: one of its path segments begins or ends with a marker, in any
case. -/
def isTestPath (path : String) (markers : List String) : Bool :=
  let markers := (markers.map lower).filter (!·.isEmpty)
  (pathSegments path).any fun segment =>
    let segment := lower (ModuleLocation.stripExtension segment)
    markers.any fun marker => hasPrefix marker segment || hasSuffix marker segment

/-! ## Relative paths -/

/-- The meaningful parts of a path: repeated slashes and inner `.` parts say nothing, a leading
slash is a part of its own, and a leading `.` counts. -/
def pathParts (path : String) : List String :=
  let segments := pathSegments path
  let named := segments.filter fun s => !s.isEmpty && s != "."
  match segments with
  | "" :: _ :: _ => "/" :: named
  | "." :: _ => "." :: named
  | _ => named

/-- The path of a file relative to a root it lies below. -/
def relativePath? (root path : String) : Option String :=
  let rootParts := pathParts root
  let parts := pathParts path
  if rootParts.isPrefixOf parts then
    match parts.drop rootParts.length with
    | [] => none
    | rest => some ("/".intercalate rest)
  else none

end CodeAtlas
