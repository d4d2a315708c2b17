import CodeAtlas.ContentHash
import CodeAtlas.Graph.Kind
import CodeAtlas.Text.Affix
import CodeAtlas.Text.Blank

/-!
# Source units

A unit is one file of an exported configuration tree: a source module, the descriptor of a metadata
object, or the descriptor of the configuration itself. What a file is depends on its path alone.
-/

set_option autoImplicit false

namespace CodeAtlas

open Text

/-- What a file of the tree is. -/
inductive UnitKind where
  | configurationRoot
  | metadataDescriptor
  | sourceModule
deriving DecidableEq, Repr, Inhabited

namespace UnitKind

def all : List UnitKind := [configurationRoot, metadataDescriptor, sourceModule]

/-- The stored spelling of a unit kind. -/
def tag : UnitKind → String
  | configurationRoot => "configuration_root"
  | metadataDescriptor => "metadata_descriptor"
  | sourceModule => "source_module"

def ofTag? (text : String) : Option UnitKind := all.find? (·.tag == text)

def isDescriptor : UnitKind → Bool
  | configurationRoot | metadataDescriptor => true
  | sourceModule => false

end UnitKind

/-- The segments of a path between its slashes. -/
def pathSegments (path : String) : List String := splitBy (· == '/') path

/-- What the file at a path relative to the tree is, or nothing if it is no unit. Modules are found
at any depth; descriptors only directly inside the folder of their category. -/
def UnitKind.classify (path : String) : Option UnitKind :=
  if path == "Configuration.xml" then some .configurationRoot
  else if hasSuffixAscii ".bsl" path then some .sourceModule
  else if hasSuffixAscii ".xml" path then
    match pathSegments path with
    | [folder, _] => (MetadataKind.ofFolder? folder).map fun _ => .metadataDescriptor
    | _ => none
  else none

/-- One file of the tree with its text and the hash of its bytes. -/
structure SourceUnit where
  path : String
  kind : UnitKind
  content : String
  hash : ContentHash
deriving DecidableEq

namespace SourceUnit

/-- The unit made of a text that was not read from a file. -/
def ofText (path : String) (kind : UnitKind) (content : String) : SourceUnit :=
  ⟨path, kind, content, .ofText content⟩

end SourceUnit

end CodeAtlas
