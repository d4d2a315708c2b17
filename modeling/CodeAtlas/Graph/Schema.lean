import CodeAtlas.Graph.Error
import CodeAtlas.Graph.Node

/-!
# Required properties

The property bag is open, but each kind of node promises a few properties of a fixed type. They are
checked in the order in which they are listed, and the emptiness of the id only after them.
-/

set_option autoImplicit false

namespace CodeAtlas

/-- The type that a required property must have. -/
inductive PropType where
  | text
  | int
  | bool
deriving DecidableEq, Repr

namespace PropType

def admits : PropType → PropValue → Bool
  | text, .text _ => true
  | int, .int _ => true
  | bool, .bool _ => true
  | _, _ => false

end PropType

namespace NodeKind

/-- The properties that every node of a kind has. -/
def requiredProps : NodeKind → List (String × PropType)
  | function | procedure | testCase => [("module", .text), ("is_export", .bool), ("loc", .int)]
  | module | testSuite | configuration => [("unit", .text), ("content_hash", .text)]
  | metadataObject _ => [("metadata_type", .text)]
  | unknown => [("awaited_name", .text)]
  | requirement | incident => []

end NodeKind

namespace Node

/-- Whether the node has a property of the given type under the given name. -/
def hasProp (node : Node) (name : String) (type : PropType) : Bool :=
  node.props[name]?.any type.admits

/-- Accepts a node whose kind's promises are kept and whose id is not empty. -/
def validate (node : Node) : Except GraphError Unit :=
  match node.kind.requiredProps.find? fun (name, type) => !node.hasProp name type with
  | some (name, _) =>
    .error (.invalidProps node.id.text
      s!"missing or mistyped property `{name}` for kind {node.kind.tag}")
  | none => if node.id.text.isEmpty then .error (.invalidProps "" "empty node id") else .ok ()

end Node

end CodeAtlas
