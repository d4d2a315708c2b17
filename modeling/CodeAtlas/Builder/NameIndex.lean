import CodeAtlas.Builder.Reference
import CodeAtlas.Text.Affix
import Std.Data.ExtTreeSet

/-!
# The name index

Finds the node that a name means. Declarations are found by name, within a module or anywhere;
common modules by the name that calls use; metadata objects by id. Names are in small letters.

An entry also says under which names its node was entered, so that forgetting the node takes these
names away again, unless another node has taken them over in the meantime. Of several declarations
of one name in a module the first holds the name; of common modules and objects the last.
-/

set_option autoImplicit false

namespace CodeAtlas

open Text

/-- A name inside a module. -/
structure LocalName where
  module : NodeId
  name : String
deriving DecidableEq, Repr, Inhabited

namespace LocalName

instance : Ord LocalName := ⟨compareLex (compareOn module) (compareOn name)⟩

instance : Std.TransOrd LocalName :=
  inferInstanceAs (Std.TransCmp (compareLex (compareOn module) (compareOn name)))

instance : Std.LawfulEqOrd LocalName where
  eq_of_compare {a b} h := by
    have h' : compareLex (compareOn module) (compareOn name) a b = .eq := h
    simp only [compareLex, compareOn, Ordering.then_eq_eq, Std.LawfulEqOrd.compare_eq_iff_eq] at h'
    cases a; cases b; simp_all

end LocalName

/-- What the index knows of a node. -/
structure IndexEntry where
  kind : NodeKind
  /-- The name under which a declaration was entered. -/
  decl : Option LocalName := none
  exported : Bool := false
  commonModule : Option String := none
  objectKey : Option String := none
deriving DecidableEq

namespace IndexEntry

/-- Whether nodes of a kind are found as declarations. -/
def isDeclaration (kind : NodeKind) : Bool := kind.isCode || kind = .testCase

/-- What there is to know of a node. -/
def ofNode (node : Node) : IndexEntry :=
  match node.kind with
  | .function | .procedure | .testCase =>
    { kind := node.kind
      decl := (node.props.text? "module").map fun m => ⟨⟨m⟩, lower node.displayName⟩
      exported := (node.props["is_export"]? >>= PropValue.asBool?).getD false }
  | .module | .testSuite =>
    { kind := node.kind, commonModule := (node.props.text? "common_module").map lower }
  | .metadataObject _ | .configuration =>
    { kind := node.kind, objectKey := some (lower node.id.text) }
  | .requirement | .incident | .unknown => { kind := node.kind }

end IndexEntry

/-- The names of all nodes that are no placeholders. -/
structure NameIndex where
  entries : Std.ExtTreeMap NodeId IndexEntry := ∅
  /-- The declarations of each name, in any module. -/
  decls : Std.ExtTreeMap String (Std.ExtTreeSet NodeId) := ∅
  moduleDecls : Std.ExtTreeMap LocalName NodeId := ∅
  commonModules : Std.ExtTreeMap String NodeId := ∅
  objects : Std.ExtTreeMap String NodeId := ∅

namespace NameIndex

/-! ## Entering and forgetting -/

def addDecl (ix : NameIndex) (id : NodeId) (name : LocalName) : NameIndex :=
  { ix with
    decls := ix.decls.alter name.name fun ids => some ((ids.getD ∅).insert id)
    moduleDecls := ix.moduleDecls.insertIfNew name id }

/-- Enters a node. Placeholders are never entered. -/
def add (ix : NameIndex) (node : Node) : NameIndex :=
  if node.kind = .unknown then ix
  else
    let entry := IndexEntry.ofNode node
    let ix := entry.decl.elim ix (ix.addDecl node.id)
    { ix with
      entries := ix.entries.insert node.id entry
      commonModules := entry.commonModule.elim ix.commonModules (ix.commonModules.insert · node.id)
      objects := entry.objectKey.elim ix.objects (ix.objects.insert · node.id) }

/-- The map without a key, if the key still leads to the given node. -/
def eraseOwn {κ : Type} [Ord κ] [Std.TransOrd κ] (m : Std.ExtTreeMap κ NodeId) (key : κ)
    (id : NodeId) : Std.ExtTreeMap κ NodeId :=
  if m[key]? = some id then m.erase key else m

def removeDecl (ix : NameIndex) (id : NodeId) (name : LocalName) : NameIndex :=
  { ix with
    decls := ix.decls.alter name.name fun ids =>
      (ids.map (·.erase id)).filter (!·.isEmpty)
    moduleDecls := eraseOwn ix.moduleDecls name id }

/-- Forgets a node. -/
def remove (ix : NameIndex) (id : NodeId) : NameIndex :=
  match ix.entries[id]? with
  | none => ix
  | some entry =>
    let ix := entry.decl.elim ix (ix.removeDecl id)
    { ix with
      entries := ix.entries.erase id
      commonModules := entry.commonModule.elim ix.commonModules (eraseOwn ix.commonModules · id)
      objects := entry.objectKey.elim ix.objects (eraseOwn ix.objects · id) }

/-! ## Questions -/

def kind? (ix : NameIndex) (id : NodeId) : Option NodeKind := ix.entries[id]?.map (·.kind)

def contains (ix : NameIndex) (id : NodeId) : Bool := ix.entries.contains id

/-- The module of a declaration; a module is its own. -/
def moduleOf? (ix : NameIndex) (id : NodeId) : Option NodeId := do
  let entry ← ix.entries[id]?
  match entry.decl, entry.kind with
  | some name, _ => return name.module
  | none, .module | none, .testSuite => return id
  | none, _ => none

/-- The only declaration of a name, or the only exported one. -/
def uniqueDecl? (ix : NameIndex) (name : String) : Option NodeId := do
  let ids := (← ix.decls[name]?).toList
  match ids with
  | [only] => return only
  | _ =>
    match ids.filter fun id => ix.entries[id]?.any (·.exported) with
    | [only] => return only
    | _ => none

/-- The declaration that a call means. A qualified name goes through the common module; any other
is looked for in the calling module first. -/
def resolveCall? (ix : NameIndex) (awaited : String) (context : Option NodeId) : Option NodeId :=
  let name := lower awaited
  match cutAt? '.' name with
  | some (qualifier, name) => do
    let module ← ix.commonModules[qualifier]?
    ix.moduleDecls[(⟨module, name⟩ : LocalName)]?
  | none =>
    (context.bind fun module => ix.moduleDecls[(⟨module, name⟩ : LocalName)]?).or
      (ix.uniqueDecl? name)

/-- The target of a reference with its kind, if it is known. -/
def resolve? (ix : NameIndex) (r : Reference) : Option (NodeId × NodeKind) := do
  let target ← if r.kind.isCall then ix.resolveCall? r.awaited r.context
    else ix.objects[lower r.awaited]?
  return (target, ← ix.kind? target)

end NameIndex

end CodeAtlas
