import CodeAtlas.Graph.Node
import CodeAtlas.Outline
import CodeAtlas.Text.Blank
import CodeAtlas.Xml.Event
import Std.Data.ExtTreeSet

/-!
# Reading a descriptor

A descriptor is a document whose root holds one object. The object's element names its category, its
properties its name, and its children attributes, forms or, for the configuration, the objects of
the configuration. Types written anywhere in the document refer to other objects.

What an element means depends on the path of elements around it, which is kept innermost first.
-/

set_option autoImplicit false

namespace CodeAtlas

open Text

/-- The id of the object that a type refers to: an optional prefix, the name of a category followed
by `Ref`, a point and a name without points. -/
def typeReference? (text : String) : Option String := do
  let body := trim text
  let body := (stripPrefix? "cfg:" body).getD body
  let (type, object) ← cutAt? '.' body
  let kind ← MetadataKind.ofName? (← stripSuffix? "Ref" type)
  if object.isEmpty || object.toList.contains '.' then none
  else return (NodeId.metadataObject kind object).text

namespace Descriptor

/-- The root element of every descriptor. -/
def rootName : String := "MetaDataObject"

/-- The element of the configuration itself. -/
def configurationName : String := "Configuration"

/-- What has been found so far. -/
structure Reading where
  /-- The elements that are open, innermost first. -/
  path : List String := []
  found : Descriptor := {}
  objectSeen : Bool := false
  typeRefs : Std.ExtTreeSet String := ∅

namespace Reading

/-- The first element inside the root is the object; after it, attributes are counted. -/
def element (r : Reading) (name : String) : Reading :=
  if r.path == [rootName] && !r.objectSeen then
    let kind := if name == configurationName then none
      else some ((MetadataKind.ofName? name).getD .other)
    { r with objectSeen := true, found := { r.found with kind } }
  else if name == "Attribute" && r.path.contains "ChildObjects" then
    { r with found := { r.found with attributeCount := r.found.attributeCount + 1 } }
  else r

/-- A type anywhere in the document. -/
def typeText (r : Reading) (content : String) : Reading :=
  match typeReference? content with
  | some id => { r with typeRefs := r.typeRefs.insert id }
  | none => r

/-- The text of a child of the object. -/
def childText (r : Reading) (object last content : String) : Reading :=
  if object == configurationName then
    match MetadataKind.ofName? last with
    | some kind =>
      let id := (NodeId.metadataObject kind content).text
      { r with found := { r.found with childObjects := r.found.childObjects ++ [id] } }
    | none => r
  else if last == "Form" then
    { r with found := { r.found with forms := r.found.forms ++ [content] } }
  else r

/-- What a text means by its place. Of several names the first counts. -/
def text (r : Reading) (content : String) : Reading :=
  match r.path with
  | [] => r
  | [last, parent, object, root] =>
    if root == rootName && parent == "Properties" && last == "Name" then
      if r.found.name.isEmpty then { r with found := { r.found with name := content } } else r
    else if root == rootName && parent == "ChildObjects" then r.childText object last content
    else if last == "Type" then r.typeText content
    else r
  | last :: _ => if last == "Type" then r.typeText content else r

def event (r : Reading) : Xml.Event → Reading
  | .openTag name => { r.element name with path := name :: r.path }
  | .emptyTag name => r.element name
  | .closeTag => { r with path := r.path.tail }
  | .text content => r.text content

/-- The descriptor, if the object and its name were found. It does not refer to itself. -/
def finish? (r : Reading) : Option Descriptor :=
  if !r.objectSeen || r.found.name.isEmpty then none
  else
    let refs := match r.found.kind with
      | some kind => r.typeRefs.erase (NodeId.metadataObject kind r.found.name).text
      | none => r.typeRefs
    some { r.found with typeRefs := refs.toList }

end Reading

/-- The descriptor in a text, if it is one. -/
def read? (text : String) : Option Descriptor := do
  ((← Xml.events? text).foldl Reading.event {}).finish?

end Descriptor

/-- The outline of a descriptor; one that cannot be read is flagged and otherwise empty. -/
def Outline.ofDescriptor (text : String) : Outline :=
  match Descriptor.read? text with
  | some descriptor => { descriptor, loc := filledLineCount text }
  | none => .failed

end CodeAtlas
