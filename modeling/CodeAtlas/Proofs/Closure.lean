import CodeAtlas.Proofs.Fragment

/-!
# Fragments are closed

A fragment stands on its own, whatever the outline it was made of says, and be it one that no text has. Its
edges end at its nodes or at the shared nodes that it brings along, its references start at its nodes, and
all that it owns names its unit (`Fragment.Closed`).

In a module two searches have to agree on what a name means: the one that drops repeated declarations, and
the one that looks for the caller of a reference. Both compare names in small letters and take the first, so
that a caller's name leads to the one node that its declarations have left (`Fragment.belongs_callerId`).
What the two spellings are does not matter, nor does a name that nothing declares.
-/

set_option autoImplicit false

namespace CodeAtlas

open Text

namespace Fragment

/-! ## What all fragments are -/

/-- A fragment that needs nothing besides itself. -/
structure Closed (path : String) (f : Fragment) : Prop where
  inhabited : f.nodes ≠ []
  nodup : (f.nodes.map (·.id)).Nodup
  ends : ∀ edge ∈ f.edges, ∀ id ∈ [edge.source, edge.target], ∃ node ∈ f.nodes ++ f.shared, node.id = id
  owners : ∀ r ∈ f.refs, ∃ node ∈ f.nodes, node.id = r.owner
  nodeUnits : ∀ node ∈ f.nodes, node.unit? = some path
  edgeUnits : ∀ edge ∈ f.edges, edge.unit? = some path
  refUnits : ∀ r ∈ f.refs, r.unit = path
  valid : ∀ node ∈ f.nodes ++ f.shared, node.id.text ≠ "" → node.validate = .ok ()

section Closed

variable {head : UnitMeta} {f : Fragment} {path : String} {edge : Edge}

theorem Inner.exists_ends (inner : Inner f path edge) :
    ∀ id ∈ [edge.source, edge.target], ∃ node ∈ f.nodes ++ f.shared, node.id = id := by
  have hown : ∀ node ∈ f.nodes, ∃ n ∈ f.nodes ++ f.shared, n.id = node.id :=
    fun node hn => ⟨node, List.mem_append_left _ hn, rfl⟩
  have hshared : ∀ node ∈ f.shared, ∃ n ∈ f.nodes ++ f.shared, n.id = node.id :=
    fun node hn => ⟨node, List.mem_append_right _ hn, rfl⟩
  intro id hid
  cases inner with
  | declares module decl hm _ hd _ =>
    rcases List.mem_pair.mp hid with rfl | rfl
    · exact hown module hm
    · exact hown decl hd
  | implements key decl hs hd _ =>
    rcases List.mem_pair.mp hid with rfl | rfl
    · exact hshared _ hs
    · exact hown decl hd
  | triggers key decl hs hd _ =>
    rcases List.mem_pair.mp hid with rfl | rfl
    · exact hown decl hd
    · exact hshared _ hs

/-- Nothing is required of requirements and incidents, and their ids are not empty. -/
theorem validate_shared {node : Node} {key : String}
    (h : node = requirementNode key ∨ node = incidentNode key) (hid : node.id.text ≠ "") :
    node.validate = .ok () := by
  have hempty : node.id.text.isEmpty = false := by simpa using hid
  have hkind : node.kind.requiredProps = [] := by
    rcases h with rfl | rfl <;> rfl
  simp only [Node.validate, hkind, List.find?_nil, hempty]
  rfl

theorem WellFormed.closed (wf : WellFormed head f) : Closed head.path f where
  inhabited := by
    obtain ⟨node, hn, -⟩ := wf.headed
    exact List.ne_nil_of_mem hn
  nodup := wf.nodup
  ends edge he := (wf.edges edge he).exists_ends
  owners r hr := by
    obtain ⟨node, starts⟩ := wf.refs r hr
    exact ⟨node, starts.mem, starts.owner⟩
  nodeUnits node hn := (wf.owned node hn).unit
  edgeUnits edge he := (wf.edges edge he).unit?
  refUnits r hr := by
    obtain ⟨node, starts⟩ := wf.refs r hr
    exact starts.unit
  valid node hn hid := by
    rcases List.mem_append.mp hn with hn | hn
    · exact (wf.owned node hn).validate hid
    · obtain ⟨key, hkey⟩ := wf.shared node hn
      exact validate_shared hkey hid

end Closed

/-! ## Who owns what in a module -/

/-- Where a reference belongs that its module attributes to a caller: to the node of the caller's name, and
else to the module. -/
inductive Belongs (f : Fragment) (outline : Outline) (module : NodeId) : Option String → NodeId → Prop
  | declared {name : String} (node : Node) (mem : node ∈ f.nodes) (decl : node.kind.isDecl = true)
      (names : lower node.displayName = lower name) : Belongs f outline module (some name) node.id
  | unknown {name : String} (undeclared : ∀ decl ∈ outline.declarations, lower decl.name ≠ lower name) :
      Belongs f outline module (some name) module
  | outside : Belongs f outline module none module

/-- What the fragment of a module makes of an outline. -/
structure Attributes (f : Fragment) (outline : Outline) (module : Node) : Prop where
  module_mem : module ∈ f.nodes
  isModule : module.kind.isModule = true
  /-- Whatever else has a node is a declaration of the outline. -/
  others : ∀ node ∈ f.nodes, node = module ∨ (node.kind.isDecl = true ∧
    ∃ decl ∈ outline.declarations, node.displayName = decl.name)
  declared : ∀ decl ∈ outline.declarations, ∃! node, node ∈ f.nodes ∧ node.kind.isDecl = true ∧
    lower node.displayName = lower decl.name
  contained : ∀ node ∈ f.nodes, node.kind.isDecl = true →
    ∃ edge ∈ f.edges, edge.key = ⟨module.id, node.id, .contains⟩
  /-- The references are that of the module to its object, one for each call, and one for each mention. -/
  refs : ∃ whole calls mentions, f.refs = whole ++ calls ++ mentions ∧
    (∀ r ∈ whole, r.owner = module.id) ∧
    List.Forall₂ (fun call r => r.kind.isCall = true ∧ r.line = some call.line ∧
      f.Belongs outline module.id call.caller r.owner) outline.calls calls ∧
    List.Forall₂ (fun mention r => r.kind = .metadata ∧ r.line = some mention.line ∧
      f.Belongs outline module.id mention.caller r.owner) outline.mentions mentions

section Attributes

variable {p : ParsedUnit} {isTest : Bool}

theorem isDecl_moduleNode (p : ParsedUnit) (location : ModuleLocation) (isTest : Bool) :
    (moduleNode p location isTest).kind.isDecl = false :=
  NodeKind.isDecl_eq_false_of_isModule (isModule_moduleNode p location isTest)

/-- Of the declarations of a name the first counts. -/
theorem exists_declsOf {outline : Outline} {decl : Declaration} (h : decl ∈ outline.declarations) :
    ∃ first ∈ declsOf outline, lower first.name = lower decl.name := by
  have hfind : (outline.declarations.find? (lower ·.name == lower decl.name)).isSome = true :=
    List.find?_isSome.mpr ⟨decl, h, beq_self_eq_true _⟩
  obtain ⟨first, hfirst⟩ := Option.isSome_iff_exists.mp hfind
  exact ⟨first, mem_firstBy_of_find? hfirst, eq_of_beq (List.find?_some hfirst :)⟩

theorem existsUnique_declNode (isTest : Bool) {decl : Declaration}
    (h : decl ∈ p.outline.declarations) :
    ∃! node, node ∈ (ofModule p isTest).nodes ∧ node.kind.isDecl = true ∧
      lower node.displayName = lower decl.name := by
  obtain ⟨first, hfirst, hname⟩ := exists_declsOf h
  refine ⟨declNode (ModuleLocation.ofPath p.unit.path).id p.unit.path isTest first,
    ⟨mem_nodes_ofModule.mpr (.inr ⟨first, hfirst, rfl⟩), isDecl_declNode _ _ _ _, hname⟩, ?_⟩
  intro node hnode
  obtain ⟨hmem, hdecl, hother⟩ := hnode
  rcases mem_nodes_ofModule.mp hmem with rfl | ⟨other, hin, rfl⟩
  · rw [isDecl_moduleNode] at hdecl
    cases hdecl
  · rw [eq_of_lower_name hin hfirst (hother.trans hname.symm)]

/-- The caller of a reference is looked for among all declarations, and found among those that count. -/
theorem belongs_callerId (p : ParsedUnit) (isTest : Bool) (caller : Option String) :
    (ofModule p isTest).Belongs p.outline (ModuleLocation.ofPath p.unit.path).id caller
      (callerId (ModuleLocation.ofPath p.unit.path).id p.outline caller) := by
  cases caller with
  | none => exact .outside
  | some name =>
    unfold callerId
    cases hfind : p.outline.declarations.find? (lower ·.name == lower name) with
    | none =>
      rw [Option.bind_some, hfind]
      refine .unknown fun decl hdecl he => ?_
      exact List.find?_eq_none.mp hfind decl hdecl (beq_iff_eq.mpr he)
    | some decl =>
      rw [Option.bind_some, hfind]
      have hnode : declNode (ModuleLocation.ofPath p.unit.path).id p.unit.path isTest decl ∈
          (ofModule p isTest).nodes :=
        mem_nodes_ofModule.mpr (.inr ⟨decl, mem_firstBy_of_find? hfind, rfl⟩)
      exact .declared _ hnode (isDecl_declNode _ _ _ _) (eq_of_beq (List.find?_some hfind :))

theorem attributes_ofModule (p : ParsedUnit) (isTest : Bool) :
    (ofModule p isTest).Attributes p.outline (moduleNode p (.ofPath p.unit.path) isTest) where
  module_mem := mem_nodes_ofModule.mpr (.inl rfl)
  isModule := isModule_moduleNode _ _ _
  others node hn := by
    rcases mem_nodes_ofModule.mp hn with rfl | ⟨decl, hdecl, rfl⟩
    · exact .inl rfl
    · exact .inr ⟨isDecl_declNode _ _ _ _, decl, mem_of_mem_firstBy hdecl, rfl⟩
  declared decl h := existsUnique_declNode isTest h
  contained node hn hdecl := by
    rcases mem_nodes_ofModule.mp hn with rfl | ⟨decl, hmem, rfl⟩
    · rw [isDecl_moduleNode] at hdecl
      cases hdecl
    · exact ⟨_, List.mem_flatMap.mpr ⟨decl, hmem, List.mem_cons_self⟩, rfl⟩
  refs := by
    refine ⟨_, _, _, rfl, fun r hr => ?_, ?_, ?_⟩
    · obtain ⟨owner, -, rfl⟩ := List.mem_map.mp hr
      rfl
    · refine List.forall₂_map_right_iff.mpr (List.forall₂_same.mpr fun call _ => ⟨?_, rfl, ?_⟩)
      · exact isCall_callRef _ _ _ _ _
      · exact belongs_callerId p isTest call.caller
    · refine List.forall₂_map_right_iff.mpr (List.forall₂_same.mpr fun mention _ => ⟨rfl, rfl, ?_⟩)
      exact belongs_callerId p isTest mention.caller

end Attributes

/-- Every fragment is closed, whatever it was made of; and in that of a module each name that is declared has
one node, to which all that is attributed to the name belongs. -/
theorem build_closed (markers : List String) (p : ParsedUnit) :
    (build markers p).Closed p.unit.path ∧
      (p.unit.kind = .sourceModule → ∃ module, (build markers p).Attributes p.outline module) := by
  refine ⟨(wellFormed_build markers p).closed, fun hmodule => ?_⟩
  have hbuild : build markers p = ofModule p (isTestPath p.unit.path markers) := by
    rw [build, hmodule]
  rw [hbuild]
  exact ⟨_, attributes_ofModule p _⟩

/-- A module that declares one name twice. It is called under a third spelling of the name, under a name that
nothing declares, and from outside of declarations. -/
def sampleTwice : ParsedUnit where
  unit := ⟨"CommonModules/Utils/Ext/Module.bsl", .sourceModule, ⟨7⟩⟩
  outline :=
    { declarations := [{ name := "Calc", firstLine := 1, lastLine := 2 },
        { name := "CALC", kind := .function, firstLine := 3, lastLine := 4, requirements := ["R"] }]
      calls := [⟨some "calc", "F", none, 2⟩, ⟨some "Other", "F", none, 3⟩, ⟨none, "F", none, 5⟩]
      mentions := [⟨some "cAlC", .catalog, "Products", 4⟩] }

/-- The first declaration has the node, and the reference under the third spelling belongs to it. -/
theorem build_closed_twice :
    sampleTwice.unit.kind = .sourceModule ∧
      (build [] sampleTwice).Closed "CommonModules/Utils/Ext/Module.bsl" ∧
      (∃ module, (build [] sampleTwice).Attributes sampleTwice.outline module) ∧
      (build [] sampleTwice).nodes.map (·.displayName) = ["Utils", "Calc"] ∧
      (build [] sampleTwice).refs.map (·.owner.text) =
        ["CommonModule.Utils.Module", "CommonModule.Utils.Module::Calc", "CommonModule.Utils.Module",
          "CommonModule.Utils.Module", "CommonModule.Utils.Module::Calc"] := by
  obtain ⟨closed, attributes⟩ := build_closed [] sampleTwice
  exact ⟨rfl, closed, attributes rfl, by decide +kernel, by decide +kernel⟩

end Fragment

end CodeAtlas
