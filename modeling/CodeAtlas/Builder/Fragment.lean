import CodeAtlas.Builder.Reference
import CodeAtlas.Outline
import CodeAtlas.SourceUnit.Location

/-!
# Fragments

A fragment is what one unit contributes to the graph: the nodes it owns, nodes that outlive it, the
edges among these, and references to whatever other units declare. It depends on the unit's path,
kind, hash and outline only, never on the graph.
-/

set_option autoImplicit false

namespace CodeAtlas

open Text

/-- A unit without its text. -/
structure UnitMeta where
  path : String
  kind : UnitKind
  hash : ContentHash
deriving DecidableEq

namespace UnitMeta

def ofUnit (unit : SourceUnit) : UnitMeta := ⟨unit.path, unit.kind, unit.hash⟩

end UnitMeta

/-- A unit and what reading it found. -/
structure ParsedUnit where
  unit : UnitMeta
  outline : Outline
deriving DecidableEq

/-- What one unit contributes. -/
structure Fragment where
  /-- The nodes that the unit owns; they go when it goes. -/
  nodes : List Node := []
  /-- Requirements and incidents, which outlive every unit. -/
  shared : List Node := []
  /-- Edges between these nodes. -/
  edges : List Edge := []
  /-- References to other nodes, to be resolved. -/
  refs : List Reference := []

namespace Fragment

/-- The members of a list that are the first with their key. -/
def firstBy {α : Type} (key : α → String) (items : List α) : List α :=
  (items.foldl
    (fun (seen, kept) item =>
      if seen.contains (key item) then (seen, kept) else (key item :: seen, kept ++ [item]))
    (([], []) : List String × List α)).2

/-- An edge that belongs to a unit. -/
def ownedEdge (path : String) (source target : NodeId) (kind : EdgeKind) : Edge :=
  { source, target, kind, props := .ofList [("unit", .text path)] }

/-- The property that marks a unit which could not be read. -/
def failureProps (outline : Outline) : List (String × PropValue) :=
  if outline.flags.parseFailed then [("parse_failed", .bool true)] else []

/-- The properties of every node that stands for a whole unit. -/
def unitProps (unit : UnitMeta) : List (String × PropValue) :=
  [("unit", .text unit.path), ("content_hash", .text unit.hash.toHex)]

/-! ## The configuration -/

/-- The configuration with a reference to each object it lists. -/
def ofConfiguration (parsed : ParsedUnit) : Fragment :=
  let { unit, outline } := parsed
  let name := (outline.descriptor.map (·.name)).filter (!·.isEmpty)
  let children := outline.descriptor.elim [] (·.childObjects)
  { nodes := [{ id := configurationId, kind := .configuration
                displayName := name.getD configurationId.text
                props := .ofList (unitProps unit ++ failureProps outline) }]
    refs := (firstBy lower children).map fun child =>
      { owner := configurationId, awaited := child, kind := .child, unit := unit.path
        line := none, context := none } }

/-! ## Metadata objects -/

/-- The category and name of the object that a descriptor describes: by its path, else by its
content, else by its file name. -/
def objectIdentity (parsed : ParsedUnit) : MetadataKind × String :=
  let byContent := do
    let d ← parsed.outline.descriptor
    return (← d.kind, d.name)
  let file := afterLast '/' parsed.unit.path
  ((descriptorObject? parsed.unit.path).or byContent).getD
    (.other, (stripSuffix? ".xml" file).getD file)

/-- An object with a reference to each other object that its attributes have as types. -/
def ofMetadataObject (parsed : ParsedUnit) : Fragment :=
  let { unit, outline } := parsed
  let (kind, name) := objectIdentity parsed
  let id := NodeId.metadataObject kind name
  let described := outline.descriptor.elim [] fun d =>
    ("attribute_count", .int d.attributeCount) ::
      if d.forms.isEmpty then [] else [("forms", .list d.forms)]
  let typeRefs := outline.descriptor.elim [] (·.typeRefs)
  let others := typeRefs.filter fun ref => lower ref != lower id.text
  { nodes := [{ id, kind := .metadataObject kind, displayName := name
                props := .ofList (unitProps unit ++ ("metadata_type", .text kind.name) ::
                  described ++ failureProps outline) }]
    refs := (firstBy lower others).map fun ref =>
      { owner := id, awaited := ref, kind := .metadataType, unit := unit.path
        line := none, context := none } }

/-! ## Modules -/

/-- The kind of node that a declaration becomes. -/
def declNodeKind (isTest : Bool) : DeclKind → NodeKind
  | .function => if isTest then .testCase else .function
  | .procedure => if isTest then .testCase else .procedure

/-- The measured flow of a declaration as properties. -/
def flowProps (flow : FlowMetrics) : List (String × PropValue) :=
  [("cyclomatic", .int flow.cyclomatic), ("basic_blocks", .int flow.blocks),
   ("cf_edges", .int flow.edges), ("max_nesting", .int flow.maxNesting)]

/-- The node of a declaration. -/
def declNode (module : NodeId) (path : String) (isTest : Bool) (decl : Declaration) : Node where
  id := .declaration module decl.name
  kind := declNodeKind isTest decl.kind
  displayName := decl.name
  props := .ofList <|
    [("module", .text module.text), ("is_export", .bool decl.isExport), ("loc", .int decl.loc),
     ("line_start", .int decl.firstLine), ("line_end", .int decl.lastLine),
     ("signature", .text decl.signature), ("complexity", .int decl.effectiveComplexity),
     ("unit", .text path)] ++
    (decl.region.elim [] fun region => [("region", .text region)]) ++
    (if decl.directives.isEmpty then [] else [("directives", .list decl.directives)]) ++
    (if decl.params.isEmpty then [] else [("params", .list decl.params)]) ++
    decl.flow.elim [] flowProps

/-- The node of a module. -/
def moduleNode (parsed : ParsedUnit) (location : ModuleLocation) (isTest : Bool) : Node where
  id := location.id
  kind := if isTest then .testSuite else .module
  displayName := location.shortName
  props := .ofList <|
    unitProps parsed.unit ++ [("loc", .int parsed.outline.loc)] ++
    (location.owner.elim [] fun owner => [("owner", .text owner.text)]) ++
    (location.commonModule.elim [] fun name => [("common_module", .text name)]) ++
    failureProps parsed.outline

/-- The requirements and incidents of a declaration. -/
def sharedNodes (decl : Declaration) : List Node :=
  decl.requirements.map (fun key => { id := .requirement key, kind := .requirement, displayName := key }) ++
  decl.incidents.map fun key => { id := .incident key, kind := .incident, displayName := key }

/-- The edges of a declaration to its module, its requirements and its incidents. -/
def declEdges (path : String) (module : NodeId) (decl : Declaration) : List Edge :=
  let id := NodeId.declaration module decl.name
  ownedEdge path module id .contains ::
  decl.requirements.map (fun key => ownedEdge path (.requirement key) id .implements) ++
  decl.incidents.map fun key => ownedEdge path id (.incident key) .triggersIncident

/-- The node to which code belongs: the first declaration with the caller's name, else the
module. -/
def callerId (module : NodeId) (outline : Outline) (caller : Option String) : NodeId :=
  let decl := caller.bind fun name => outline.declarations.find? (lower ·.name == lower name)
  decl.elim module fun decl => .declaration module decl.name

/-- A call as a reference. Only calls out of test cases are test calls. -/
def callRef (module : NodeId) (path : String) (isTest : Bool) (outline : Outline)
    (call : CallSite) : Reference :=
  let owner := callerId module outline call.caller
  { owner
    awaited := call.qualifier.elim call.callee fun q => s!"{q}.{call.callee}"
    kind := if isTest && owner != module then .testCall else .call
    unit := path, line := some call.line, context := some module }

/-- A metadata mention as a reference. -/
def mentionRef (module : NodeId) (path : String) (outline : Outline) (mention : Mention) :
    Reference :=
  { owner := callerId module outline mention.caller
    awaited := (NodeId.metadataObject mention.kind mention.name).text
    kind := .metadata, unit := path, line := some mention.line, context := none }

/-- A module with its declarations. Of several declarations whose names differ in case only, the
first counts. -/
def ofModule (parsed : ParsedUnit) (isTest : Bool) : Fragment :=
  let { unit, outline } := parsed
  let path := unit.path
  let location := ModuleLocation.ofPath path
  let module := location.id
  let decls := firstBy (fun d : Declaration => lower d.name) outline.declarations
  { nodes := moduleNode parsed location isTest :: decls.map (declNode module path isTest)
    shared := decls.flatMap sharedNodes
    edges := decls.flatMap (declEdges path module)
    refs :=
      (location.owner.toList.map fun owner =>
        { owner := module, awaited := owner.text, kind := .container, unit := path
          line := none, context := none }) ++
      outline.calls.map (callRef module path isTest outline) ++
      outline.mentions.map (mentionRef module path outline) }

/-- The fragment of a unit; the markers say which modules are tests. -/
def build (markers : List String) (parsed : ParsedUnit) : Fragment :=
  match parsed.unit.kind with
  | .configurationRoot => ofConfiguration parsed
  | .metadataDescriptor => ofMetadataObject parsed
  | .sourceModule => ofModule parsed (isTestPath parsed.unit.path markers)

end Fragment

end CodeAtlas
