import CodeAtlas.Builder.Fragment
import CodeAtlas.Builder.NameIndex
import CodeAtlas.Graph.Schema
import CodeAtlas.Proofs.Reference
import Mathlib.Data.List.Nodup

/-!
# What fragments are made of

Whatever a unit holds, its fragment keeps to a fixed pattern, and this is all that planning relies
on. The ids of the nodes differ from each other and every node names its unit. Edges run between
nodes of the fragment, and the kinds at their ends are determined by the kind of the edge. References
start at nodes of the fragment whose kind fits the kind of the reference.
-/

set_option autoImplicit false

namespace CodeAtlas

open Std Text

/-! ## Which kinds go together -/

namespace NodeKind

/-- Whether nodes of this kind hold declarations. -/
def isModule : NodeKind → Bool
  | module | testSuite => true
  | _ => false

/-- Whether nodes of this kind are declarations. -/
def isDecl : NodeKind → Bool
  | function | procedure | testCase => true
  | _ => false

/-- Whether nodes of this kind are found under their ids. -/
def isObject : NodeKind → Bool
  | metadataObject _ | configuration => true
  | _ => false

/-- Whether nodes of this kind belong to a unit. -/
def isOwned (kind : NodeKind) : Bool := kind.isModule || kind.isDecl || kind.isObject

end NodeKind

namespace RefKind

/-- Whether a node of the given kind may own a reference. -/
def ownedBy : RefKind → NodeKind → Bool
  | call, kind => kind.isModule || kind.isCode
  | testCall, kind => kind = .testCase
  | metadata, kind => kind.isModule || kind.isDecl
  | metadataType, kind => kind.isObject && kind ≠ .configuration
  | container, kind => kind.isModule
  | child, kind => kind = .configuration

/-- Whether a reference may be resolved to a node of the given kind. -/
def admits : RefKind → NodeKind → Bool
  | call, kind | testCall, kind => kind.isDecl
  | metadata, kind | metadataType, kind | container, kind | child, kind => kind.isObject

end RefKind

/-- The module that a node belongs to as a declaration, or that it is. -/
def Node.module? (node : Node) : Option NodeId :=
  match (IndexEntry.ofNode node).decl, node.kind with
  | some name, _ => some name.module
  | none, .module | none, .testSuite => some node.id
  | none, _ => none

namespace NodeId

/-- What the ids of nodes that belong to no unit begin with. -/
def reservedMarks : List String := [placeholderMark, "requirement::", "incident::"]

/-- Whether an id looks like that of a placeholder, a requirement or an incident. -/
def isReserved (id : NodeId) : Bool :=
  reservedMarks.any fun mark => mark.toList.isPrefixOf id.text.toList

theorem isReserved_of_isPlaceholder {id : NodeId} (h : id.isPlaceholder = true) :
    id.isReserved = true := by
  have hmark : placeholderMark.toList.isPrefixOf id.text.toList = true := h
  simp only [isReserved, reservedMarks, List.any_cons, hmark, Bool.true_or]

theorem isPlaceholder_eq_false {id : NodeId} (h : id.isReserved = false) :
    id.isPlaceholder = false := by
  cases hp : id.isPlaceholder with
  | false => rfl
  | true => rw [isReserved_of_isPlaceholder hp] at h; simp at h

theorem requirement_text (key : String) : (requirement key).text = "requirement::" ++ key := rfl

theorem incident_text (key : String) : (incident key).text = "incident::" ++ key := rfl

@[simp] theorem isReserved_requirement (key : String) : (requirement key).isReserved = true := by
  simp [isReserved, reservedMarks, requirement_text, String.toList_append]

@[simp] theorem isReserved_incident (key : String) : (incident key).isReserved = true := by
  simp [isReserved, reservedMarks, incident_text, String.toList_append]

@[simp] theorem isPlaceholder_requirement (key : String) :
    (requirement key).isPlaceholder = false := by
  simp [isPlaceholder, placeholderMark, requirement_text, String.toList_append, List.isPrefixOf]

@[simp] theorem isPlaceholder_incident (key : String) : (incident key).isPlaceholder = false := by
  simp [isPlaceholder, placeholderMark, incident_text, String.toList_append, List.isPrefixOf]

end NodeId

/-! ## The first of each name -/

namespace Fragment

section FirstBy

variable {α : Type} (key : α → String)

/-- The members of a list that are the first with their key, and whose key is not among those seen
before. -/
def firsts : List String → List α → List α
  | _, [] => []
  | seen, item :: rest =>
    if seen.contains (key item) then firsts seen rest else item :: firsts (key item :: seen) rest

theorem firstBy_eq_firsts (items : List α) : firstBy key items = firsts key [] items := by
  have go : ∀ (items : List α) (seen : List String) (kept : List α),
      (items.foldl
        (fun (acc : List String × List α) item =>
          if acc.1.contains (key item) then acc else (key item :: acc.1, acc.2 ++ [item]))
        (seen, kept)).2 = kept ++ firsts key seen items := by
    intro items
    induction items with
    | nil => intro seen kept; simp [firsts]
    | cons item rest ih =>
      intro seen kept
      rw [List.foldl_cons, firsts]
      by_cases h : seen.contains (key item) = true
      · simp only [h, if_true]; exact ih seen kept
      · simp only [h]
        rw [ih]
        simp
  exact go items [] []

theorem mem_of_mem_firsts {items : List α} {seen : List String} {x : α}
    (h : x ∈ firsts key seen items) : x ∈ items ∧ key x ∉ seen := by
  induction items generalizing seen with
  | nil => simp [firsts] at h
  | cons item rest ih =>
    rw [firsts] at h
    split at h
    next hseen =>
      obtain ⟨hr, hn⟩ := ih h
      exact ⟨List.mem_cons_of_mem item hr, hn⟩
    next hseen =>
      rcases List.mem_cons.mp h with rfl | h
      · exact ⟨List.mem_cons_self, by simpa using hseen⟩
      · obtain ⟨hr, hn⟩ := ih h
        exact ⟨List.mem_cons_of_mem item hr, fun hs => hn (List.mem_cons_of_mem _ hs)⟩

theorem nodup_firsts (items : List α) (seen : List String) :
    ((firsts key seen items).map key).Nodup := by
  induction items generalizing seen with
  | nil => simp [firsts]
  | cons item rest ih =>
    rw [firsts]
    split
    · exact ih seen
    · refine List.nodup_cons.mpr ⟨?_, ih _⟩
      intro hm
      obtain ⟨x, hx, hk⟩ := List.mem_map.mp hm
      exact (mem_of_mem_firsts key hx).2 (hk ▸ List.mem_cons_self)

theorem mem_firsts_of_find? {items : List α} {seen : List String} {name : String} {x : α}
    (h : items.find? (key · == name) = some x) (hn : name ∉ seen) : x ∈ firsts key seen items := by
  induction items generalizing seen with
  | nil => simp at h
  | cons item rest ih =>
    rw [firsts]
    by_cases hk : key item = name
    · simp only [List.find?_cons, hk, beq_self_eq_true, Option.some.injEq] at h
      subst h
      rw [if_neg (by simpa [hk] using hn)]
      exact List.mem_cons_self
    · have hr : rest.find? (key · == name) = some x := by simpa [List.find?_cons, hk] using h
      split
      · exact ih hr hn
      · refine List.mem_cons_of_mem _ (ih hr ?_)
        intro hm
        rcases List.mem_cons.mp hm with he | hm
        · exact hk he.symm
        · exact hn hm

end FirstBy

theorem mem_of_mem_firstBy {α : Type} {key : α → String} {items : List α} {x : α}
    (h : x ∈ firstBy key items) : x ∈ items := by
  rw [firstBy_eq_firsts] at h
  exact (mem_of_mem_firsts key h).1

theorem nodup_firstBy {α : Type} (key : α → String) (items : List α) :
    ((firstBy key items).map key).Nodup := by
  rw [firstBy_eq_firsts]
  exact nodup_firsts key items []

theorem mem_firstBy_of_find? {α : Type} {key : α → String} {items : List α} {name : String} {x : α}
    (h : items.find? (key · == name) = some x) : x ∈ firstBy key items := by
  rw [firstBy_eq_firsts]
  exact mem_firsts_of_find? key h List.not_mem_nil

/-! ## Nodes -/

/-- A node that a unit owns: it names the unit, its kind is one of those that units own, and it keeps
what its kind promises, but for an id that is not empty. -/
structure Owned (path : String) (node : Node) : Prop where
  unit : node.unit? = some path
  kind : node.kind.isOwned = true
  promises : node.kind.requiredProps.find? (fun (name, type) => !node.hasProp name type) = none

theorem Owned.validate {path : String} {node : Node} (owned : Owned path node)
    (h : node.id.text ≠ "") : node.validate = .ok () := by
  have hempty : node.id.text.isEmpty = false := by simpa using h
  simp only [Node.validate, owned.promises, hempty]
  rfl

/-- The only fault that an owned node can have is an empty id. -/
theorem Owned.of_validate_error {path : String} {node : Node} (owned : Owned path node)
    {e : GraphError} (h : node.validate = .error e) :
    node.id.text = "" ∧ e = .invalidProps "" "empty node id" := by
  by_cases hid : node.id.text = ""
  · have hempty : node.id.text.isEmpty = true := by simpa using hid
    simp only [Node.validate, owned.promises, hempty] at h
    cases h
    exact ⟨hid, rfl⟩
  · rw [owned.validate hid] at h
    cases h

theorem Owned.real {path : String} {node : Node} (owned : Owned path node) :
    node.kind ≠ .unknown := by
  intro h
  have := owned.kind
  simp [h, NodeKind.isOwned, NodeKind.isModule, NodeKind.isDecl, NodeKind.isObject] at this

/-- The properties of a declaration that only some declarations have. -/
def optionalDeclProps : List String :=
  ["region", "directives", "params", "cyclomatic", "basic_blocks", "cf_edges", "max_nesting"]

theorem get_declNode_props (module : NodeId) (path : String) (isTest : Bool) (decl : Declaration)
    {name : String} (h : name ∉ optionalDeclProps) :
    (declNode module path isTest decl).props[name]? =
      (Props.ofList
        [("module", .text module.text), ("is_export", .bool decl.isExport), ("loc", .int decl.loc),
         ("line_start", .int decl.firstLine), ("line_end", .int decl.lastLine),
         ("signature", .text decl.signature), ("complexity", .int decl.effectiveComplexity),
         ("unit", .text path)])[name]? := by
  simp only [optionalDeclProps, List.mem_cons, List.not_mem_nil, or_false, not_or] at h
  obtain ⟨hregion, hdirectives, hparams, hcyclomatic, hblocks, hedges, hnesting⟩ := h
  simp only [declNode, Props.get_ofList_append]
  rw [Props.get_ofList_of_forall_ne (decl.flow.elim [] flowProps) name,
    Props.get_ofList_of_forall_ne (if decl.params.isEmpty then [] else _) name,
    Props.get_ofList_of_forall_ne (if decl.directives.isEmpty then [] else _) name,
    Props.get_ofList_of_forall_ne (decl.region.elim [] _) name]
  · simp
  · cases decl.region <;> simp [Ne.symm hregion]
  · split <;> simp [Ne.symm hdirectives]
  · split <;> simp [Ne.symm hparams]
  · cases decl.flow <;>
      simp [flowProps, Ne.symm hcyclomatic, Ne.symm hblocks, Ne.symm hedges, Ne.symm hnesting]

theorem owned_declNode (module : NodeId) (path : String) (isTest : Bool) (decl : Declaration) :
    Owned path (declNode module path isTest decl) where
  unit := by
    rw [Node.unit?, Props.text?, get_declNode_props _ _ _ _ (by decide)]
    simp [Props.get_ofList_cons, Props.get_ofList_nil, PropValue.asText?]
  kind := by
    cases isTest <;> cases hk : decl.kind <;>
      simp [declNode, declNodeKind, hk, NodeKind.isOwned, NodeKind.isModule, NodeKind.isDecl]
  promises := by
    have hmodule : (declNode module path isTest decl).hasProp "module" .text = true := by
      rw [Node.hasProp, get_declNode_props _ _ _ _ (by decide)]
      simp [Props.get_ofList_cons, Props.get_ofList_nil, PropType.admits]
    have hexport : (declNode module path isTest decl).hasProp "is_export" .bool = true := by
      rw [Node.hasProp, get_declNode_props _ _ _ _ (by decide)]
      simp [Props.get_ofList_cons, Props.get_ofList_nil, PropType.admits]
    have hloc : (declNode module path isTest decl).hasProp "loc" .int = true := by
      rw [Node.hasProp, get_declNode_props _ _ _ _ (by decide)]
      simp [Props.get_ofList_cons, Props.get_ofList_nil, PropType.admits]
    have hkind : (declNode module path isTest decl).kind.requiredProps =
        [("module", .text), ("is_export", .bool), ("loc", .int)] := by
      cases isTest <;> cases hk : decl.kind <;>
        simp [declNode, declNodeKind, hk, NodeKind.requiredProps]
    simp [hkind, hmodule, hexport, hloc]

theorem get_unitProps_append (unit : UnitMeta) {rest : List (String × PropValue)} {name : String}
    (h : ∀ p ∈ rest, p.1 ≠ name) :
    (Props.ofList (unitProps unit ++ rest))[name]? = (Props.ofList (unitProps unit))[name]? := by
  rw [Props.get_ofList_append, Props.get_ofList_of_forall_ne rest name h, Option.none_or]

/-- A node that stands for a whole unit: it also holds the hash of the unit. -/
structure Heads (head : UnitMeta) (node : Node) : Prop extends Owned head.path node where
  hash : node.props.text? "content_hash" = some head.hash.toHex

/-- Properties of a unit's node that say nothing about the unit itself. -/
def Beside (rest : List (String × PropValue)) : Prop :=
  ∀ p ∈ rest, p.1 ≠ "unit" ∧ p.1 ≠ "content_hash"

theorem admits_of_text? {props : Props} {name value : String} (h : props.text? name = some value) :
    props[name]?.any PropType.text.admits = true := by
  unfold Props.text? at h
  cases hp : props[name]? with
  | none => simp [hp] at h
  | some v => cases v <;> simp_all [PropValue.asText?, PropType.admits]

/-- A node heads its unit if it holds the properties of the unit and nothing overwrites them. -/
theorem heads_of_props {head : UnitMeta} {node : Node} (rest : List (String × PropValue))
    (hprops : node.props = Props.ofList (unitProps head ++ rest)) (beside : Beside rest)
    (kind : node.kind.isOwned = true)
    (promises : ∀ p ∈ node.kind.requiredProps, p = ("unit", .text) ∨ p = ("content_hash", .text) ∨
      node.hasProp p.1 p.2 = true) : Heads head node := by
  have hunit : node.props.text? "unit" = some head.path := by
    rw [hprops, Props.text?, get_unitProps_append head fun p hp => (beside p hp).1]
    simp [unitProps, Props.get_ofList_cons, Props.get_ofList_nil, PropValue.asText?]
  have hhash : node.props.text? "content_hash" = some head.hash.toHex := by
    rw [hprops, Props.text?, get_unitProps_append head fun p hp => (beside p hp).2]
    simp [unitProps, Props.get_ofList_cons, Props.get_ofList_nil, PropValue.asText?]
  refine ⟨⟨hunit, kind, List.find?_eq_none.mpr fun p hp => ?_⟩, hhash⟩
  rcases promises p hp with rfl | rfl | h
  · simp [Node.hasProp, admits_of_text? hunit]
  · simp [Node.hasProp, admits_of_text? hhash]
  · simp [h]

theorem beside_failureProps (outline : Outline) : Beside (failureProps outline) := by
  intro p hp
  unfold failureProps at hp
  split at hp <;> simp_all

theorem heads_moduleNode (parsed : ParsedUnit) (location : ModuleLocation) (isTest : Bool) :
    Heads parsed.unit (moduleNode parsed location isTest) := by
  refine heads_of_props ([("loc", .int parsed.outline.loc)] ++
      (location.owner.elim [] fun owner => [("owner", .text owner.text)]) ++
      (location.commonModule.elim [] fun name => [("common_module", .text name)]) ++
      failureProps parsed.outline) ?_ ?_ ?_ ?_
  · simp only [moduleNode, List.append_assoc]
  · intro p hp
    simp only [List.mem_append] at hp
    rcases hp with ((hp | hp) | hp) | hp
    · simp_all
    · cases ho : location.owner <;> simp_all
    · cases hc : location.commonModule <;> simp_all
    · exact beside_failureProps _ p hp
  · cases isTest <;> simp [moduleNode, NodeKind.isOwned, NodeKind.isModule]
  · cases isTest <;> simp [moduleNode, NodeKind.requiredProps]

/-- The only node of a configuration's fragment. -/
theorem heads_ofConfiguration (parsed : ParsedUnit) :
    ∃ node, (ofConfiguration parsed).nodes = [node] ∧ Heads parsed.unit node ∧
      node.kind = .configuration ∧ node.id = configurationId := by
  refine ⟨_, rfl, ?_, rfl, rfl⟩
  exact heads_of_props _ rfl (beside_failureProps _) rfl (by simp [NodeKind.requiredProps])

/-- What a descriptor adds to the properties of an object. -/
def describedProps (outline : Outline) : List (String × PropValue) :=
  outline.descriptor.elim [] fun d =>
    ("attribute_count", .int d.attributeCount) ::
      if d.forms.isEmpty then [] else [("forms", .list d.forms)]

theorem mem_describedProps {outline : Outline} {p : String × PropValue}
    (h : p ∈ describedProps outline) : p.1 = "attribute_count" ∨ p.1 = "forms" := by
  unfold describedProps at h
  cases hd : outline.descriptor with
  | none => simp [hd] at h
  | some d =>
    simp only [hd, Option.elim_some, List.mem_cons] at h
    rcases h with rfl | h
    · exact .inl rfl
    · split at h
      · simp at h
      · exact .inr (by simp_all)

/-- The only node of an object's fragment. -/
theorem heads_ofMetadataObject (parsed : ParsedUnit) :
    ∃ node, (ofMetadataObject parsed).nodes = [node] ∧ Heads parsed.unit node ∧
      node.kind = .metadataObject (objectIdentity parsed).1 ∧
      node.id = .metadataObject (objectIdentity parsed).1 (objectIdentity parsed).2 := by
  let kind := (objectIdentity parsed).1
  refine ⟨_, rfl, ?_, rfl, rfl⟩
  refine heads_of_props (("metadata_type", .text kind.name) :: describedProps parsed.outline ++
    failureProps parsed.outline) rfl ?_ ?_ ?_
  · intro p hp
    simp only [List.cons_append, List.mem_cons, List.mem_append] at hp
    rcases hp with rfl | hp | hp
    · simp
    · rcases mem_describedProps hp with h | h <;> simp [h]
    · exact beside_failureProps _ p hp
  · simp [NodeKind.isOwned, NodeKind.isObject]
  · intro p hp
    have htype : p = ("metadata_type", .text) := by simpa [NodeKind.requiredProps] using hp
    subst htype
    refine .inr (.inr ?_)
    have hdescribed : (Props.ofList (describedProps parsed.outline))["metadata_type"]? = none :=
      Props.get_ofList_of_forall_ne _ _ fun q hq => by
        rcases mem_describedProps hq with h | h <;> simp [h]
    have hfailure : (Props.ofList (failureProps parsed.outline))["metadata_type"]? = none :=
      Props.get_ofList_of_forall_ne _ _ fun q hq => by
        unfold failureProps at hq
        split at hq <;> simp_all
    show (Props.ofList (unitProps parsed.unit ++ (("metadata_type", .text kind.name) ::
      describedProps parsed.outline ++ failureProps parsed.outline)))["metadata_type"]?.any
        PropType.text.admits = true
    rw [Props.get_ofList_append, List.cons_append, Props.get_ofList_cons, Props.get_ofList_append,
      hdescribed, hfailure]
    simp [PropType.admits]

/-! ## Names -/

theorem declaration_text (module : NodeId) (name : String) :
    (NodeId.declaration module name).text = module.text ++ "::" ++ name := rfl

theorem declaration_ne (module : NodeId) (name : String) : NodeId.declaration module name ≠ module := by
  intro h
  have hlen := congrArg (fun id : NodeId => id.text.length) h
  rw [declaration_text, String.length_append, String.length_append] at hlen
  have htwo : "::".length = 2 := rfl
  omega

theorem declaration_inj {module : NodeId} {a b : String}
    (h : NodeId.declaration module a = NodeId.declaration module b) : a = b := by
  have htext := congrArg NodeId.text h
  rw [declaration_text, declaration_text] at htext
  exact (String.append_right_inj _).mp htext

theorem isDecl_declNode (module : NodeId) (path : String) (isTest : Bool) (decl : Declaration) :
    (declNode module path isTest decl).kind.isDecl = true := by
  cases isTest <;> cases hk : decl.kind <;> simp [declNode, declNodeKind, hk, NodeKind.isDecl]

theorem ofNode_declNode (module : NodeId) (path : String) (isTest : Bool) (decl : Declaration) :
    IndexEntry.ofNode (declNode module path isTest decl) =
      { kind := declNodeKind isTest decl.kind, decl := some ⟨module, lower decl.name⟩
        exported := decl.isExport } := by
  have hmodule : (declNode module path isTest decl).props.text? "module" = some module.text := by
    rw [Props.text?, get_declNode_props _ _ _ _ (by decide)]
    simp [Props.get_ofList_cons, Props.get_ofList_nil, PropValue.asText?]
  have hexport : (declNode module path isTest decl).props["is_export"]? =
      some (.bool decl.isExport) := by
    rw [get_declNode_props _ _ _ _ (by decide)]
    simp [Props.get_ofList_cons, Props.get_ofList_nil]
  unfold IndexEntry.ofNode
  rw [hmodule, hexport]
  cases isTest <;> cases hk : decl.kind <;>
    simp [declNode, declNodeKind, hk, PropValue.asBool?]

theorem isModule_moduleNode (parsed : ParsedUnit) (location : ModuleLocation) (isTest : Bool) :
    (moduleNode parsed location isTest).kind.isModule = true := by
  cases isTest <;> simp [moduleNode, NodeKind.isModule]

/-- The name of a common module is a matter of its path. -/
theorem ofNode_moduleNode (parsed : ParsedUnit) (location : ModuleLocation) (isTest : Bool) :
    IndexEntry.ofNode (moduleNode parsed location isTest) =
      { kind := if isTest then .testSuite else .module
        commonModule := location.commonModule.map lower } := by
  have hcommon : (moduleNode parsed location isTest).props.text? "common_module" =
      location.commonModule := by
    have hfailure : (Props.ofList (failureProps parsed.outline))["common_module"]? = none := by
      refine Props.get_ofList_of_forall_ne _ _ fun p hp => ?_
      unfold failureProps at hp
      split at hp <;> simp_all
    cases hc : location.commonModule <;> cases ho : location.owner <;>
      simp [moduleNode, Props.text?, hc, ho, hfailure, unitProps, Props.get_ofList_cons,
        PropValue.asText?]
  unfold IndexEntry.ofNode
  cases isTest <;> simp [moduleNode] at hcommon ⊢ <;> rw [hcommon]

end Fragment

namespace IndexEntry

/-- What is entered as a declaration is one. -/
theorem isDecl_of_decl {node : Node} {name : LocalName} (h : (ofNode node).decl = some name) :
    node.kind.isDecl = true := by
  unfold ofNode at h
  cases hk : node.kind <;> simp [hk, NodeKind.isDecl] at h ⊢

/-- What is entered as a common module is a module. -/
theorem isModule_of_commonModule {node : Node} {name : String}
    (h : (ofNode node).commonModule = some name) : node.kind.isModule = true := by
  unfold ofNode at h
  cases hk : node.kind <;> simp [hk, NodeKind.isModule] at h ⊢

/-- Objects are entered under their ids, and nothing else is. -/
theorem objectKey_eq_some_iff {node : Node} {name : String} :
    (ofNode node).objectKey = some name ↔ node.kind.isObject = true ∧ lower node.id.text = name := by
  unfold ofNode
  cases hk : node.kind <;> simp [NodeKind.isObject]

@[simp] theorem ofNode_kind (node : Node) : (ofNode node).kind = node.kind := by
  unfold ofNode
  cases hk : node.kind <;> simp

end IndexEntry

theorem Node.module?_eq_of_isModule {node : Node} (h : node.kind.isModule = true) :
    node.module? = some node.id := by
  unfold Node.module? IndexEntry.ofNode
  cases hk : node.kind <;> simp [hk, NodeKind.isModule] at h ⊢

theorem NodeKind.isDecl_eq_false_of_isModule {kind : NodeKind} (h : kind.isModule = true) :
    kind.isDecl = false := by
  cases kind <;> simp [isModule, isDecl] at h ⊢

theorem NodeKind.isDecl_eq_false_of_isObject {kind : NodeKind} (h : kind.isObject = true) :
    kind.isDecl = false := by
  cases kind <;> simp [isObject, isDecl] at h ⊢

namespace Fragment

/-! ## The pattern -/

/-- The node of a requirement. -/
def requirementNode (key : String) : Node :=
  { id := .requirement key, kind := .requirement, displayName := key }

/-- The node of an incident. -/
def incidentNode (key : String) : Node :=
  { id := .incident key, kind := .incident, displayName := key }

/-- Their ids tell requirements and incidents apart. -/
theorem eq_of_shared {a b : Node} {key key' : String}
    (ha : a = requirementNode key ∨ a = incidentNode key)
    (hb : b = requirementNode key' ∨ b = incidentNode key') (hid : a.id = b.id) :
    a = b := by
  have htext := congrArg NodeId.text hid
  rcases ha with rfl | rfl <;> rcases hb with rfl | rfl
  · have hkey : key = key' := by
      simpa [requirementNode, NodeId.requirement_text] using htext
    rw [hkey]
  · have hlist := congrArg String.toList htext
    simp [requirementNode, incidentNode, NodeId.requirement_text,
      NodeId.incident_text, String.toList_append] at hlist
  · have hlist := congrArg String.toList htext
    simp [requirementNode, incidentNode, NodeId.requirement_text,
      NodeId.incident_text, String.toList_append] at hlist
  · have hkey : key = key' := by
      simpa [incidentNode, NodeId.incident_text] using htext
    rw [hkey]

theorem shared_props {node : Node} {key : String}
    (h : node = requirementNode key ∨ node = incidentNode key) :
    node.unit? = none ∧ node.kind ≠ .unknown ∧ node.id.isReserved = true ∧
      node.id.isPlaceholder = false := by
  rcases h with rfl | rfl
  · simp [requirementNode, Node.unit?, Props.text?]
  · simp [incidentNode, Node.unit?, Props.text?]

/-- The three forms of an edge between nodes of one fragment. -/
inductive Inner (f : Fragment) (path : String) : Edge → Prop
  | declares (module decl : Node) (hm : module ∈ f.nodes) (hmk : module.kind.isModule = true)
      (hd : decl ∈ f.nodes) (hdk : decl.kind.isDecl = true) :
      Inner f path (ownedEdge path module.id decl.id .contains)
  | implements (key : String) (decl : Node) (hs : requirementNode key ∈ f.shared)
      (hd : decl ∈ f.nodes) (hdk : decl.kind.isDecl = true) :
      Inner f path (ownedEdge path (.requirement key) decl.id .implements)
  | triggers (key : String) (decl : Node) (hs : incidentNode key ∈ f.shared)
      (hd : decl ∈ f.nodes) (hdk : decl.kind.isDecl = true) :
      Inner f path (ownedEdge path decl.id (.incident key) .triggersIncident)

@[simp] theorem ownedEdge_unit? (path : String) (source target : NodeId) (kind : EdgeKind) :
    (ownedEdge path source target kind).unit? = some path := by
  simp [ownedEdge, Edge.unit?, Props.text?, Props.get_ofList_cons, Props.get_ofList_nil,
    PropValue.asText?]

theorem Inner.unit? {f : Fragment} {path : String} {edge : Edge} (h : Inner f path edge) :
    edge.unit? = some path := by
  cases h <;> exact ownedEdge_unit? _ _ _ _

/-- A reference that starts at a node of a fragment. -/
structure Starts (f : Fragment) (path : String) (r : Reference) (node : Node) : Prop where
  mem : node ∈ f.nodes
  owner : node.id = r.owner
  unit : r.unit = path
  kind : r.kind.ownedBy node.kind = true
  context : r.context = if r.kind.isCall then node.module? else none

/-- What planning relies on. -/
structure WellFormed (head : UnitMeta) (f : Fragment) : Prop where
  nodup : (f.nodes.map (·.id)).Nodup
  owned : ∀ node ∈ f.nodes, Owned head.path node
  headed : ∃ node ∈ f.nodes, Heads head node
  /-- No node holds a hash other than that of the unit. -/
  hashes : ∀ node ∈ f.nodes, ∀ text, node.props.text? "content_hash" = some text →
    text = head.hash.toHex
  shared : ∀ node ∈ f.shared, ∃ key, node = requirementNode key ∨ node = incidentNode key
  edges : ∀ edge ∈ f.edges, Inner f head.path edge
  refs : ∀ r ∈ f.refs, ∃ node, Starts f head.path r node
  /-- Names of declarations are told apart within the fragment and lead to a module of it. -/
  locals : ∀ a ∈ f.nodes, ∀ name, (IndexEntry.ofNode a).decl = some name →
    (∃ module ∈ f.nodes, module.id = name.module) ∧
    ∀ b ∈ f.nodes, (IndexEntry.ofNode b).decl = some name → a = b
  /-- There is one node at most that is no declaration. -/
  wholes : ∀ a ∈ f.nodes, ∀ b ∈ f.nodes, a.kind.isDecl = false → b.kind.isDecl = false → a = b

/-- A fragment of a single node. -/
theorem WellFormed.single {head : UnitMeta} {f : Fragment} {node : Node} (hnodes : f.nodes = [node])
    (heads : Heads head node) (hdecl : node.kind.isDecl = false) (hshared : f.shared = [])
    (hedges : f.edges = []) (hrefs : ∀ r ∈ f.refs, Starts f head.path r node) :
    WellFormed head f where
  nodup := by simp [hnodes]
  owned a ha := by
    rw [hnodes, List.mem_singleton] at ha
    exact ha ▸ heads.toOwned
  headed := ⟨node, by simp [hnodes], heads⟩
  hashes a ha text h := by
    rw [hnodes, List.mem_singleton] at ha
    rw [ha, heads.hash] at h
    exact (Option.some.inj h).symm
  shared a ha := by simp [hshared] at ha
  edges e he := by simp [hedges] at he
  refs r hr := ⟨node, hrefs r hr⟩
  locals a ha name hname := by
    rw [hnodes, List.mem_singleton] at ha
    rw [ha] at hname
    simp [IndexEntry.isDecl_of_decl hname] at hdecl
  wholes a ha b hb _ _ := by
    rw [hnodes, List.mem_singleton] at ha hb
    rw [ha, hb]

theorem wellFormed_ofConfiguration (parsed : ParsedUnit) :
    WellFormed parsed.unit (ofConfiguration parsed) := by
  obtain ⟨node, hnodes, heads, hkind, hid⟩ := heads_ofConfiguration parsed
  refine .single hnodes heads (by simp [hkind, NodeKind.isDecl]) rfl rfl ?_
  intro r hr
  obtain ⟨child, -, rfl⟩ := List.mem_map.mp hr
  exact ⟨by simp [hnodes], hid, rfl, by simp [RefKind.ownedBy, hkind], rfl⟩

theorem wellFormed_ofMetadataObject (parsed : ParsedUnit) :
    WellFormed parsed.unit (ofMetadataObject parsed) := by
  obtain ⟨node, hnodes, heads, hkind, hid⟩ := heads_ofMetadataObject parsed
  refine .single hnodes heads (by simp [hkind, NodeKind.isDecl]) rfl rfl ?_
  intro r hr
  obtain ⟨ref, -, rfl⟩ := List.mem_map.mp hr
  exact ⟨by simp [hnodes], hid, rfl, by simp [RefKind.ownedBy, NodeKind.isObject, hkind], rfl⟩

/-! ### Modules -/

/-- The declarations that count: the first of each name. -/
abbrev declsOf (outline : Outline) : List Declaration :=
  firstBy (fun d : Declaration => lower d.name) outline.declarations

theorem mem_nodes_ofModule {parsed : ParsedUnit} {isTest : Bool} {node : Node} :
    node ∈ (ofModule parsed isTest).nodes ↔
      node = moduleNode parsed (.ofPath parsed.unit.path) isTest ∨
      ∃ decl ∈ declsOf parsed.outline,
        node = declNode (ModuleLocation.ofPath parsed.unit.path).id parsed.unit.path isTest decl := by
  simp only [ofModule, List.mem_cons, List.mem_map]
  constructor
  · rintro (h | ⟨decl, hd, rfl⟩)
    · exact .inl h
    · exact .inr ⟨decl, hd, rfl⟩
  · rintro (h | ⟨decl, hd, rfl⟩)
    · exact .inl h
    · exact .inr ⟨decl, hd, rfl⟩

/-- Two declarations of one name are the same. -/
theorem eq_of_lower_name {outline : Outline} {a b : Declaration} (ha : a ∈ declsOf outline)
    (hb : b ∈ declsOf outline) (h : lower a.name = lower b.name) : a = b :=
  List.inj_on_of_nodup_map (nodup_firstBy _ _) ha hb h

theorem nodup_ofModule (parsed : ParsedUnit) (isTest : Bool) :
    ((ofModule parsed isTest).nodes.map (·.id)).Nodup := by
  let module := (ModuleLocation.ofPath parsed.unit.path).id
  have hids : (ofModule parsed isTest).nodes.map (·.id) =
      module :: (declsOf parsed.outline).map fun d => NodeId.declaration module d.name := by
    simp only [ofModule, List.map_cons, List.map_map]
    rfl
  rw [hids]
  refine List.nodup_cons.mpr ⟨?_, ?_⟩
  · intro h
    obtain ⟨d, -, hd⟩ := List.mem_map.mp h
    exact declaration_ne module d.name hd
  · refine List.Nodup.map_on ?_ (List.Nodup.of_map _ (nodup_firstBy _ _))
    intro a ha b hb h
    exact eq_of_lower_name ha hb (congrArg lower (declaration_inj h))

/-- Code belongs to the module or to one of the declarations that count. -/
theorem callerId_cases (module : NodeId) (outline : Outline) (caller : Option String) :
    callerId module outline caller = module ∨
      ∃ decl ∈ declsOf outline, callerId module outline caller = .declaration module decl.name := by
  unfold callerId
  cases caller with
  | none => exact .inl rfl
  | some name =>
    cases hf : outline.declarations.find? (lower ·.name == lower name) with
    | none => exact .inl (by simp [hf])
    | some decl => exact .inr ⟨decl, mem_firstBy_of_find? hf, by simp [hf]⟩

theorem isCall_callRef (module : NodeId) (path : String) (isTest : Bool) (outline : Outline)
    (call : CallSite) : (callRef module path isTest outline call).kind.isCall = true := by
  simp only [callRef]
  split <;> rfl

theorem callRef_kind_of_module {module : NodeId} {path : String} {isTest : Bool} {outline : Outline}
    {call : CallSite} (h : callerId module outline call.caller = module) :
    (callRef module path isTest outline call).kind = .call := by
  simp [callRef, h]

theorem callRef_kind_of_decl {module : NodeId} {path : String} {isTest : Bool} {outline : Outline}
    {call : CallSite} {name : String}
    (h : callerId module outline call.caller = .declaration module name) :
    (callRef module path isTest outline call).kind = if isTest then .testCall else .call := by
  simp [callRef, h, declaration_ne]

theorem starts_callRef (parsed : ParsedUnit) (isTest : Bool) (call : CallSite) :
    ∃ node, Starts (ofModule parsed isTest) parsed.unit.path
      (callRef (ModuleLocation.ofPath parsed.unit.path).id parsed.unit.path isTest parsed.outline call)
      node := by
  let location := ModuleLocation.ofPath parsed.unit.path
  rcases callerId_cases location.id parsed.outline call.caller with h | ⟨decl, hd, h⟩
  · have hmodule := isModule_moduleNode parsed location isTest
    refine ⟨moduleNode parsed location isTest, mem_nodes_ofModule.mpr (.inl rfl), h.symm, rfl, ?_, ?_⟩
    · rw [callRef_kind_of_module h]
      simp [RefKind.ownedBy, hmodule]
    · rw [callRef_kind_of_module h, Node.module?_eq_of_isModule hmodule]
      rfl
  · refine ⟨declNode location.id parsed.unit.path isTest decl,
      mem_nodes_ofModule.mpr (.inr ⟨decl, hd, rfl⟩), h.symm, rfl, ?_, ?_⟩
    · rw [callRef_kind_of_decl h]
      cases isTest <;> cases hk : decl.kind <;>
        simp [declNode, declNodeKind, hk, RefKind.ownedBy, NodeKind.isCode]
    · rw [callRef_kind_of_decl h, Node.module?, ofNode_declNode]
      cases isTest <;> rfl

theorem starts_mentionRef (parsed : ParsedUnit) (isTest : Bool) (mention : Mention) :
    ∃ node, Starts (ofModule parsed isTest) parsed.unit.path
      (mentionRef (ModuleLocation.ofPath parsed.unit.path).id parsed.unit.path parsed.outline mention)
      node := by
  let module := (ModuleLocation.ofPath parsed.unit.path).id
  rcases callerId_cases module parsed.outline mention.caller with h | ⟨decl, hd, h⟩
  · have hmodule := isModule_moduleNode parsed (.ofPath parsed.unit.path) isTest
    exact ⟨moduleNode parsed (.ofPath parsed.unit.path) isTest,
      mem_nodes_ofModule.mpr (.inl rfl), h.symm, rfl, by simp [mentionRef, RefKind.ownedBy, hmodule],
      rfl⟩
  · have hdecl := isDecl_declNode module parsed.unit.path isTest decl
    exact ⟨declNode module parsed.unit.path isTest decl,
      mem_nodes_ofModule.mpr (.inr ⟨decl, hd, rfl⟩), h.symm, rfl,
      by simp [mentionRef, RefKind.ownedBy, hdecl], rfl⟩

theorem inner_ofModule {parsed : ParsedUnit} {isTest : Bool} {edge : Edge}
    (h : edge ∈ (ofModule parsed isTest).edges) :
    Inner (ofModule parsed isTest) parsed.unit.path edge := by
  let module := (ModuleLocation.ofPath parsed.unit.path).id
  obtain ⟨decl, hd, hedge⟩ := List.mem_flatMap.mp h
  have hnode : declNode module parsed.unit.path isTest decl ∈ (ofModule parsed isTest).nodes :=
    mem_nodes_ofModule.mpr (.inr ⟨decl, hd, rfl⟩)
  have hdecl := isDecl_declNode module parsed.unit.path isTest decl
  have hshared : ∀ node ∈ sharedNodes decl, node ∈ (ofModule parsed isTest).shared :=
    fun node hn => List.mem_flatMap.mpr ⟨decl, hd, hn⟩
  simp only [declEdges, List.cons_append, List.mem_cons, List.mem_append, List.mem_map] at hedge
  rcases hedge with rfl | ⟨key, hkey, rfl⟩ | ⟨key, hkey, rfl⟩
  · exact .declares (moduleNode parsed (.ofPath parsed.unit.path) isTest) _
      (mem_nodes_ofModule.mpr (.inl rfl)) (isModule_moduleNode _ _ _) hnode hdecl
  · refine .implements key _ (hshared _ ?_) hnode hdecl
    exact List.mem_append_left _ (List.mem_map.mpr ⟨key, hkey, rfl⟩)
  · refine .triggers key _ (hshared _ ?_) hnode hdecl
    exact List.mem_append_right _ (List.mem_map.mpr ⟨key, hkey, rfl⟩)

theorem wellFormed_ofModule (parsed : ParsedUnit) (isTest : Bool) :
    WellFormed parsed.unit (ofModule parsed isTest) where
  nodup := nodup_ofModule parsed isTest
  owned node h := by
    rcases mem_nodes_ofModule.mp h with rfl | ⟨decl, -, rfl⟩
    · exact (heads_moduleNode _ _ _).toOwned
    · exact owned_declNode _ _ _ _
  headed := ⟨_, mem_nodes_ofModule.mpr (.inl rfl), heads_moduleNode _ _ _⟩
  hashes node h text htext := by
    rcases mem_nodes_ofModule.mp h with rfl | ⟨decl, -, rfl⟩
    · rw [(heads_moduleNode _ _ _).hash] at htext
      exact (Option.some.inj htext).symm
    · rw [Props.text?, get_declNode_props _ _ _ _ (by decide)] at htext
      simp [Props.get_ofList_cons, Props.get_ofList_nil] at htext
  shared node h := by
    obtain ⟨decl, -, hn⟩ := List.mem_flatMap.mp h
    rcases List.mem_append.mp hn with hn | hn
    · obtain ⟨key, -, rfl⟩ := List.mem_map.mp hn
      exact ⟨key, .inl rfl⟩
    · obtain ⟨key, -, rfl⟩ := List.mem_map.mp hn
      exact ⟨key, .inr rfl⟩
  edges edge h := inner_ofModule h
  refs r h := by
    rcases List.mem_append.mp h with h | h
    · rcases List.mem_append.mp h with h | h
      · obtain ⟨owner, -, rfl⟩ := List.mem_map.mp h
        exact ⟨_, mem_nodes_ofModule.mpr (.inl rfl), rfl, rfl,
          by simp [RefKind.ownedBy, isModule_moduleNode], rfl⟩
      · obtain ⟨call, -, rfl⟩ := List.mem_map.mp h
        exact starts_callRef parsed isTest call
    · obtain ⟨mention, -, rfl⟩ := List.mem_map.mp h
      exact starts_mentionRef parsed isTest mention
  locals a ha name hname := by
    rcases mem_nodes_ofModule.mp ha with rfl | ⟨d, hd, rfl⟩
    · have hmodule := isModule_moduleNode parsed (.ofPath parsed.unit.path) isTest
      have hdecl := IndexEntry.isDecl_of_decl hname
      simp [NodeKind.isDecl_eq_false_of_isModule hmodule] at hdecl
    · rw [ofNode_declNode] at hname
      cases hname
      refine ⟨⟨_, mem_nodes_ofModule.mpr (.inl rfl), rfl⟩, ?_⟩
      intro b hb hb'
      rcases mem_nodes_ofModule.mp hb with rfl | ⟨d', hd', rfl⟩
      · have hmodule := isModule_moduleNode parsed (.ofPath parsed.unit.path) isTest
        have hdecl := IndexEntry.isDecl_of_decl hb'
        simp [NodeKind.isDecl_eq_false_of_isModule hmodule] at hdecl
      · rw [ofNode_declNode] at hb'
        have hname : lower d'.name = lower d.name := by simpa using hb'
        rw [eq_of_lower_name hd hd' hname.symm]
  wholes a ha b hb hak hbk := by
    rcases mem_nodes_ofModule.mp ha with rfl | ⟨d, -, rfl⟩
    · rcases mem_nodes_ofModule.mp hb with rfl | ⟨d, -, rfl⟩
      · rfl
      · simp [isDecl_declNode] at hbk
    · simp [isDecl_declNode] at hak

/-- Every fragment keeps to the pattern. -/
theorem wellFormed_build (markers : List String) (parsed : ParsedUnit) :
    WellFormed parsed.unit (build markers parsed) := by
  unfold build
  cases parsed.unit.kind with
  | configurationRoot => exact wellFormed_ofConfiguration parsed
  | metadataDescriptor => exact wellFormed_ofMetadataObject parsed
  | sourceModule => exact wellFormed_ofModule parsed _

/-! ## Declarations and calls -/

/-- Whether a unit declares a name, which is given in small letters. -/
def Declares (p : ParsedUnit) (name : String) : Prop :=
  p.unit.kind = .sourceModule ∧ ∃ decl ∈ p.outline.declarations, lower decl.name = name

instance (p : ParsedUnit) (name : String) : Decidable (Declares p name) :=
  inferInstanceAs (Decidable (_ ∧ ∃ decl ∈ p.outline.declarations, lower decl.name = name))

/-- A node of a unit is that of its module, that of a declaration, or an object. -/
theorem node_cases {markers : List String} {p : ParsedUnit} {node : Node}
    (hn : node ∈ (build markers p).nodes) :
    (p.unit.kind = .sourceModule ∧
        (node = moduleNode p (.ofPath p.unit.path) (isTestPath p.unit.path markers) ∨
          ∃ decl ∈ declsOf p.outline, node = declNode (ModuleLocation.ofPath p.unit.path).id
            p.unit.path (isTestPath p.unit.path markers) decl)) ∨
      node.kind.isObject = true := by
  unfold build at hn
  cases hk : p.unit.kind with
  | configurationRoot =>
    rw [hk] at hn
    obtain ⟨only, hnodes, -, hkind, -⟩ := heads_ofConfiguration p
    rw [hnodes, List.mem_singleton] at hn
    exact .inr (by simp [hn, hkind, NodeKind.isObject])
  | metadataDescriptor =>
    rw [hk] at hn
    obtain ⟨only, hnodes, -, hkind, -⟩ := heads_ofMetadataObject p
    rw [hnodes, List.mem_singleton] at hn
    exact .inr (by simp [hn, hkind, NodeKind.isObject])
  | sourceModule =>
    rw [hk] at hn
    exact .inl ⟨rfl, mem_nodes_ofModule.mp hn⟩

/-- A node that is entered as a declaration comes from one in the outline. -/
theorem declares_of_decl {markers : List String} {p : ParsedUnit} {node : Node} {name : LocalName}
    (hn : node ∈ (build markers p).nodes) (h : (IndexEntry.ofNode node).decl = some name) :
    Declares p name.name ∧ name.module = (ModuleLocation.ofPath p.unit.path).id := by
  rcases node_cases hn with ⟨hk, rfl | ⟨decl, hd, rfl⟩⟩ | hobject
  · rw [ofNode_moduleNode] at h
    simp at h
  · rw [ofNode_declNode] at h
    cases h
    exact ⟨⟨hk, decl, mem_of_mem_firstBy hd, rfl⟩, rfl⟩
  · have hdecl := IndexEntry.isDecl_of_decl h
    rw [NodeKind.isDecl_eq_false_of_isObject hobject] at hdecl
    simp at hdecl

/-- Which declaration a node stands for is a matter of its id and its kind, as long as the path of the
unit is the same. -/
theorem decl_eq_of_id {markers : List String} {p q : ParsedUnit}
    (hpath : p.unit.path = q.unit.path) {a b : Node} (ha : a ∈ (build markers p).nodes)
    (hb : b ∈ (build markers q).nodes) (hid : a.id = b.id) (hkind : a.kind = b.kind)
    {name : LocalName} (h : (IndexEntry.ofNode a).decl = some name) :
    (IndexEntry.ofNode b).decl = some name := by
  have hdecl := IndexEntry.isDecl_of_decl h
  rcases node_cases hb with ⟨-, rfl | ⟨other, -, rfl⟩⟩ | hobject
  · rw [hkind, NodeKind.isDecl_eq_false_of_isModule (isModule_moduleNode _ _ _)] at hdecl
    simp at hdecl
  · rcases node_cases ha with ⟨-, rfl | ⟨decl, -, rfl⟩⟩ | hobject
    · rw [NodeKind.isDecl_eq_false_of_isModule (isModule_moduleNode _ _ _)] at hdecl
      simp at hdecl
    · rw [hpath] at hid h
      have hname : decl.name = other.name := declaration_inj hid
      rw [ofNode_declNode] at h ⊢
      rw [← hname]
      exact h
    · rw [NodeKind.isDecl_eq_false_of_isObject hobject] at hdecl
      simp at hdecl
  · rw [hkind, NodeKind.isDecl_eq_false_of_isObject hobject] at hdecl
    simp at hdecl

/-- A unit that declares something has a node for its module, found under the name that its path says. -/
theorem module_of_decl {markers : List String} {p : ParsedUnit} {node : Node} {name : LocalName}
    (hn : node ∈ (build markers p).nodes) (h : (IndexEntry.ofNode node).decl = some name) :
    ∃ module ∈ (build markers p).nodes, module.id = name.module ∧
      (IndexEntry.ofNode module).commonModule =
        (ModuleLocation.ofPath p.unit.path).commonModule.map lower := by
  obtain ⟨⟨hk, -⟩, hmodule⟩ := declares_of_decl hn h
  refine ⟨moduleNode p (.ofPath p.unit.path) (isTestPath p.unit.path markers), ?_, hmodule.symm, ?_⟩
  · unfold build
    rw [hk]
    exact mem_nodes_ofModule.mpr (.inl rfl)
  · rw [ofNode_moduleNode]

/-- What a unit declares has a node. -/
theorem exists_decl {p : ParsedUnit} {name : String} (markers : List String) (h : Declares p name) :
    ∃ node ∈ (build markers p).nodes,
      (IndexEntry.ofNode node).decl = some ⟨(ModuleLocation.ofPath p.unit.path).id, name⟩ := by
  obtain ⟨hk, decl, hd, hname⟩ := h
  have hfind : ∃ first, p.outline.declarations.find? (lower ·.name == name) = some first := by
    rw [← Option.isSome_iff_exists, List.find?_isSome]
    exact ⟨decl, hd, by simpa using hname⟩
  obtain ⟨first, hfirst⟩ := hfind
  have hfirstName : lower first.name = name := by simpa using List.find?_some hfirst
  unfold build
  rw [hk]
  refine ⟨_, mem_nodes_ofModule.mpr (.inr ⟨first, mem_firstBy_of_find? hfirst, rfl⟩), ?_⟩
  rw [ofNode_declNode, hfirstName]

/-- A reference that is a call comes from one in the outline. -/
theorem call_of_ref {markers : List String} {p : ParsedUnit} {r : Reference}
    (hr : r ∈ (build markers p).refs) (hcall : r.kind.isCall = true) :
    p.unit.kind = .sourceModule ∧ r.context = some (ModuleLocation.ofPath p.unit.path).id ∧
      ∃ call ∈ p.outline.calls,
        r.awaited = call.qualifier.elim call.callee fun q => s!"{q}.{call.callee}" := by
  unfold build at hr
  cases hk : p.unit.kind with
  | configurationRoot =>
    rw [hk] at hr
    obtain ⟨child, -, rfl⟩ := List.mem_map.mp hr
    simp [RefKind.isCall] at hcall
  | metadataDescriptor =>
    rw [hk] at hr
    obtain ⟨ref, -, rfl⟩ := List.mem_map.mp hr
    simp [RefKind.isCall] at hcall
  | sourceModule =>
    rw [hk] at hr
    rcases List.mem_append.mp hr with hr | hr
    · rcases List.mem_append.mp hr with hr | hr
      · obtain ⟨owner, -, rfl⟩ := List.mem_map.mp hr
        simp [RefKind.isCall] at hcall
      · obtain ⟨call, hc, rfl⟩ := List.mem_map.mp hr
        exact ⟨rfl, rfl, call, hc, rfl⟩
    · obtain ⟨mention, -, rfl⟩ := List.mem_map.mp hr
      simp [mentionRef, RefKind.isCall] at hcall

end Fragment

end CodeAtlas
