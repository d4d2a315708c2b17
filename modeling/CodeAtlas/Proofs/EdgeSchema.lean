import CodeAtlas.Proofs.Rivals
import CodeAtlas.Proofs.Safety

/-!
# What edges join

Every kind of edge has its own kinds of nodes to join (`EdgeKind.Joins`), and no call leaves an edge
that joins others. Most of this is in the mirror already: an edge within a unit is made with the nodes
of the fragment, and the edge of a reference starts at an owner and ends at a target of kinds that fit
the reference, whatever kind the target had when the reference was last resolved.

What the mirror does not know is that two of the references never mean everything they could be
resolved to. The configuration is found under its id like any object, and an object is found by its own
attributes' types. But the names that a unit's text gives rise to have a dot in them, which the id of the
configuration has not, and an object does not refer to itself. So the names themselves have to be carried
along with the edges (`Bookkeeping.Named`).
-/

set_option autoImplicit false

namespace CodeAtlas

open Std Text

/-! ## The schema -/

/-- Whether nodes of this kind are metadata objects. -/
def NodeKind.isMetadata : NodeKind → Bool
  | metadataObject _ => true
  | _ => false

/-- The kinds of nodes that an edge of each kind may join. -/
inductive EdgeKind.Joins : EdgeKind → NodeKind → NodeKind → Prop
  /-- A module contains its declarations. -/
  | declares {owner decl : NodeKind} (ho : owner.isModule = true) (hd : decl.isDecl = true) :
      Joins .contains owner decl
  /-- An object contains its modules, known or not. -/
  | holds {owner part : NodeKind}
      (ho : owner.isMetadata = true ∨ owner = .configuration ∨ owner = .unknown)
      (hp : part.isModule = true) : Joins .contains owner part
  /-- The configuration contains its objects, known or not. -/
  | lists {object : NodeKind} (h : object.isMetadata = true ∨ object = .unknown) :
      Joins .contains .configuration object
  /-- Code calls declarations, known or not. -/
  | calls {caller callee : NodeKind} (hr : caller.isModule = true ∨ caller.isCode = true)
      (he : callee.isDecl = true ∨ callee = .unknown) : Joins .calls caller callee
  /-- A test case calls test cases. -/
  | callsTest : Joins .calls .testCase .testCase
  /-- All else that a test case calls is tested by it. -/
  | tested {code : NodeKind} (h : code.isCode = true ∨ code = .unknown) :
      Joins .testedBy code .testCase
  | uses {user object : NodeKind} (hu : user.isModule = true ∨ user.isDecl = true)
      (ho : object.isMetadata = true ∨ object = .unknown) : Joins .usesMetadata user object
  | depends {object type : NodeKind} (ho : object.isMetadata = true)
      (ht : type.isMetadata = true ∨ type = .unknown) : Joins .dependsOn object type
  | implements {decl : NodeKind} (h : decl.isDecl = true) : Joins .implements .requirement decl
  | triggers {decl : NodeKind} (h : decl.isDecl = true) : Joins .triggersIncident decl .incident

/-! ## The names in a descriptor -/

namespace Descriptor

theorem dot_mem_metadataObject (kind : MetadataKind) (name : String) :
    '.' ∈ (NodeId.metadataObject kind name).text.toList := by
  have hdot : '.' ∈ (toString ".").toList := by decide
  simp [NodeId.metadataObject, hdot]

theorem dot_mem_typeReference? {text id : String} (h : typeReference? text = some id) :
    '.' ∈ id.toList := by
  simp only [typeReference?, Option.bind_eq_bind, Option.bind_eq_some_iff] at h
  obtain ⟨⟨type, object⟩, -, stem, -, kind, -, h⟩ := h
  split at h
  · cases h
  · cases h
    exact dot_mem_metadataObject kind object

/-- All names of objects that a descriptor gives have a dot. -/
structure Dotted (d : Descriptor) : Prop where
  children : ∀ name ∈ d.childObjects, '.' ∈ name.toList
  types : ∀ name ∈ d.typeRefs, '.' ∈ name.toList

namespace Reading

/-- All names of objects that have been found have a dot. -/
structure Dotted (r : Reading) : Prop where
  children : ∀ name ∈ r.found.childObjects, '.' ∈ name.toList
  types : ∀ name ∈ r.typeRefs, '.' ∈ name.toList

variable {r s : Reading}

theorem Dotted.congr (h : r.Dotted) (hchildren : s.found.childObjects = r.found.childObjects)
    (htypes : s.typeRefs = r.typeRefs) : s.Dotted :=
  ⟨hchildren ▸ h.children, htypes ▸ h.types⟩

theorem Dotted.element (h : r.Dotted) (name : String) : (r.element name).Dotted := by
  unfold Reading.element
  split
  · exact h.congr rfl rfl
  · split <;> exact h.congr rfl rfl

theorem Dotted.typeText (h : r.Dotted) (content : String) : (r.typeText content).Dotted := by
  unfold Reading.typeText
  split
  · next id hid =>
    refine ⟨h.children, fun name hname => ?_⟩
    rcases ExtTreeSet.mem_insert.mp hname with heq | hname
    · obtain rfl := LawfulEqOrd.eq_of_compare heq
      exact dot_mem_typeReference? hid
    · exact h.types name hname
  · exact h

theorem Dotted.childText (h : r.Dotted) (object last content : String) :
    (r.childText object last content).Dotted := by
  unfold Reading.childText
  split
  · split
    · next kind hkind =>
      refine ⟨fun name hname => ?_, h.types⟩
      rcases List.mem_append.mp hname with hname | hname
      · exact h.children name hname
      · obtain rfl := List.mem_singleton.mp hname
        exact dot_mem_metadataObject kind content
    · exact h
  · split <;> exact h.congr rfl rfl

theorem Dotted.text (h : r.Dotted) (content : String) : (r.text content).Dotted := by
  unfold Reading.text
  split
  · exact h
  · split
    · split <;> exact h.congr rfl rfl
    · split
      · exact h.childText _ _ content
      · split
        · exact h.typeText content
        · exact h
  · split
    · exact h.typeText content
    · exact h

theorem Dotted.event (h : r.Dotted) (e : Xml.Event) : (r.event e).Dotted := by
  unfold Reading.event
  split
  · exact (h.element _).congr rfl rfl
  · exact h.element _
  · exact h.congr rfl rfl
  · exact h.text _

theorem Dotted.finish? (h : r.Dotted) {d : Descriptor} (hd : r.finish? = some d) : d.Dotted := by
  unfold Reading.finish? at hd
  split at hd
  · cases hd
  · cases hd
    refine ⟨h.children, fun name hname => h.types name ?_⟩
    replace hname := ExtTreeSet.mem_toList.mp hname
    split at hname
    · exact (ExtTreeSet.mem_erase.mp hname).2
    · exact hname

end Reading

theorem dotted_read? {text : String} {d : Descriptor} (h : read? text = some d) : d.Dotted := by
  simp only [read?, Option.bind_eq_bind, Option.bind_eq_some_iff] at h
  obtain ⟨events, -, h⟩ := h
  have start : ({} : Reading).Dotted := ⟨by simp, by simp⟩
  have reading : (events.foldl Reading.event {}).Dotted :=
    List.foldlRecOn (motive := Reading.Dotted) events _ start fun _ hr e _ => hr.event e
  exact reading.finish? h

end Descriptor

/-- A unit with an outline that comes of parsing it, or with the empty outline of a unit that could not
be parsed. -/
inductive ParsedUnit.FromText : ParsedUnit → Prop
  | read (parser : Parser) (pool : WorkerPool) (unit : SourceUnit) :
      FromText ⟨.ofUnit unit, (parser.read pool unit).1.outline⟩
  | failed (unit : SourceUnit) : FromText ⟨.ofUnit unit, .failed⟩

/-- An analysis changes nothing about a descriptor. -/
theorem Parser.descriptor_read (p : Parser) (pool : WorkerPool) (unit : SourceUnit) :
    (p.read pool unit).1.outline.descriptor = (Outline.ofContent unit.kind unit.content).descriptor := by
  rcases hanalyzer : p.analyzerFor? unit (Outline.ofContent unit.kind unit.content) with _ | a
  · simp only [read, hanalyzer]
  · simp only [read, hanalyzer]
    split <;> rfl

theorem ParsedUnit.FromText.dotted {p : ParsedUnit} (h : p.FromText) {d : Descriptor}
    (hd : p.outline.descriptor = some d) : d.Dotted := by
  cases h with
  | failed => cases hd
  | read parser pool unit =>
    rw [Parser.descriptor_read] at hd
    unfold Outline.ofContent at hd
    split at hd
    · unfold Outline.ofDescriptor at hd
      split at hd
      · next found hfound =>
        cases hd
        exact Descriptor.dotted_read? hfound
      · cases hd
    · cases hd

/-! ## The names in references -/

namespace Reference

/-- A reference to an object by a name that can only be that of another metadata object. -/
structure Named (r : Reference) : Prop where
  dot : r.kind = .child ∨ r.kind = .metadata ∨ r.kind = .metadataType → '.' ∈ (lower r.awaited).toList
  other : r.kind = .metadataType → lower r.awaited ≠ lower r.owner.text

/-- It depends on what tells references apart and on nothing else. -/
theorem Named.congr {r s : Reference} (h : r.Named)
    (hkey : PendingQueue.keyOf r = PendingQueue.keyOf s) : s.Named := by
  obtain ⟨hp, ho, hk⟩ : r.placeholderId = s.placeholderId ∧ r.owner = s.owner ∧ r.kind = s.kind := by
    simpa [PendingQueue.keyOf] using hkey
  have hname := placeholderId_eq_iff.mp hp
  exact ⟨hk ▸ hname ▸ h.dot, ho ▸ hk ▸ hname ▸ h.other⟩

end Reference

namespace Fragment

/-- The references of a unit that comes from a text are named. -/
theorem named_of_mem_refs {markers : List String} {p : ParsedUnit} (h : p.FromText) {r : Reference}
    (hr : r ∈ (build markers p).refs) : r.Named := by
  unfold build at hr
  cases hk : p.unit.kind with
  | configurationRoot =>
    rw [hk] at hr
    obtain ⟨child, hchild, rfl⟩ := List.mem_map.mp hr
    refine ⟨fun _ => dot_mem_lower ?_, by simp⟩
    replace hchild := mem_of_mem_firstBy hchild
    cases hd : p.outline.descriptor with
    | none => simp [hd] at hchild
    | some d =>
      simp only [hd, Option.elim_some] at hchild
      exact (h.dotted hd).children child hchild
  | metadataDescriptor =>
    rw [hk] at hr
    obtain ⟨ref, href, rfl⟩ := List.mem_map.mp hr
    obtain ⟨href, hother⟩ := List.mem_filter.mp (mem_of_mem_firstBy href)
    refine ⟨fun _ => dot_mem_lower ?_, fun _ => by simpa using hother⟩
    cases hd : p.outline.descriptor with
    | none => simp [hd] at href
    | some d =>
      simp only [hd, Option.elim_some] at href
      exact (h.dotted hd).types ref href
  | sourceModule =>
    rw [hk] at hr
    rcases List.mem_append.mp hr with hr | hr
    · rcases List.mem_append.mp hr with hr | hr
      · obtain ⟨owner, -, rfl⟩ := List.mem_map.mp hr
        exact ⟨by simp, by simp⟩
      · obtain ⟨call, -, rfl⟩ := List.mem_map.mp hr
        have hcall := isCall_callRef (ModuleLocation.ofPath p.unit.path).id p.unit.path
          (isTestPath p.unit.path markers) p.outline call
        constructor
        · rintro (hkind | hkind | hkind) <;> rw [hkind] at hcall <;> cases hcall
        · intro hkind
          rw [hkind] at hcall
          cases hcall
    · obtain ⟨mention, -, rfl⟩ := List.mem_map.mp hr
      exact ⟨fun _ => dot_mem_lower (Descriptor.dot_mem_metadataObject _ _), by simp [mentionRef]⟩

/-- There is one id for configurations. -/
theorem id_of_configuration {markers : List String} {p : ParsedUnit} {node : Node}
    (h : node ∈ (build markers p).nodes ∨ node ∈ (build markers p).shared)
    (hkind : node.kind = .configuration) : node.id = configurationId := by
  rcases h with h | h
  · unfold build at h
    cases hk : p.unit.kind with
    | configurationRoot =>
      rw [hk] at h
      obtain ⟨only, hnodes, -, -, hid⟩ := heads_ofConfiguration p
      rw [hnodes, List.mem_singleton] at h
      rw [h, hid]
    | metadataDescriptor =>
      rw [hk] at h
      obtain ⟨only, hnodes, -, honly, -⟩ := heads_ofMetadataObject p
      rw [hnodes, List.mem_singleton] at h
      rw [h, honly] at hkind
      cases hkind
    | sourceModule =>
      rw [hk] at h
      rcases mem_nodes_ofModule.mp h with rfl | ⟨decl, -, rfl⟩
      · have hmodule := isModule_moduleNode p (.ofPath p.unit.path) (isTestPath p.unit.path markers)
        rw [hkind] at hmodule
        cases hmodule
      · have hdecl := isDecl_declNode (ModuleLocation.ofPath p.unit.path).id p.unit.path
          (isTestPath p.unit.path markers) decl
        rw [hkind] at hdecl
        cases hdecl
  · obtain ⟨key, rfl | rfl⟩ := (wellFormed_build markers p).shared node h <;> cases hkind

end Fragment

/-! ## The names behind edges -/

namespace Bookkeeping

/-- Whether every edge that has come of a reference to an object still goes by its name: the reference
is named, and a target that is known has the name for its id. -/
structure Named (book : Bookkeeping) (g : PropertyGraph) : Prop where
  edges : ∀ (k : EdgeKey) edge, g.edges[k]? = some edge → book.OwnEdge edge ∨
    ∃ r t kind, book.RefEdge edge r t kind ∧ r.Named ∧
      (r.kind.isCall = false → book.index.kind? t = some kind → lower t.text = lower r.awaited)
  configuration : ∀ id, book.index.kind? id = some .configuration → id = configurationId

theorem named_empty : Named {} {} where
  edges k edge h := by simp at h
  configuration id h := by simp [NameIndex.kind?] at h

variable {markers : List String} {units : ParsedUnit → Prop} {book : Bookkeeping}
  {g g' : PropertyGraph} {changes : List UnitChange} {puts : List ParsedUnit}

/-- Any reference of which an edge has come is named. -/
theorem Named.of_refEdge (h : book.Named g) (m : book.Mirrors g) {k : EdgeKey} {edge : Edge}
    (he : g.edges[k]? = some edge) {r : Reference} {t : NodeId} {kind : NodeKind}
    (href : book.RefEdge edge r t kind) : r.Named := by
  rcases h.edges k edge he with hown | ⟨s, u, l, hs, hnamed, -⟩
  · exact absurd href.eq (hown.ne_edgeTo r t kind)
  · exact hnamed.congr (hs.keyOf_eq m.unreserved href)

/-- The references that get an edge in a call are named: those that waited and those that are turned
back have an edge already, and the others come from texts. -/
theorem Planned.named_atHand (c : Planned markers book g changes puts) (h : book.Named g)
    (hunits : ∀ p, .put p ∈ changes → p.FromText) {r : Reference}
    (hr : r ∈ (book.added markers changes).atHand (book.reopened g markers changes)) : r.Named := by
  rcases List.mem_append.mp hr with hr | hr
  · obtain ⟨⟨hw, -⟩, -⟩ := c.mem_settled.mp hr
    exact h.of_refEdge c.mirrors (c.mirrors.waiting _ r hw).2.1 (c.mirrors.refEdge_waiting hw)
  · rcases List.mem_append.mp hr with hr | hr
    · obtain ⟨-, p, hp, hf⟩ := c.adds.refs r hr
      exact Fragment.named_of_mem_refs (hunits p ((c.mem_puts p).mp hp)) hf
    · obtain ⟨o, ho, rfl⟩ := List.mem_map.mp hr
      obtain ⟨edge, s, t, kind, hs⟩ := c.mem_reopened.mp ho
      rw [hs.eq]
      exact (h.of_refEdge c.mirrors hs.found hs.refEdge).congr (keyOf_fitted s).symm

/-- An object is found under its id. -/
theorem lower_eq_of_objectOf? {ix : NameIndex} (real : ix.Real) {id : NodeId} {name : String}
    (h : ix.objectOf? id = some name) : lower id.text = name := by
  obtain ⟨entry, he, hkey⟩ := Option.bind_eq_some_iff.mp h
  obtain ⟨⟨node, rfl, rfl⟩, -⟩ := real id entry he
  exact (IndexEntry.objectKey_eq_some_iff.mp hkey).2

theorem Planned.configuration_added (c : Planned markers book g changes puts) (h : book.Named g)
    {id : NodeId} (hk : (book.added markers changes).book.index.kind? id = some .configuration) :
    id = configurationId := by
  rw [c.adds.kind?_eq] at hk
  rcases Option.or_eq_some_iff.mp hk with hk | ⟨-, hk⟩
  · obtain ⟨node, hn, hkind⟩ := Option.map_eq_some_iff.mp hk
    obtain ⟨p, -, hsource⟩ := c.adds.source id node hn
    rw [← c.adds.named id node hn]
    exact Fragment.id_of_configuration hsource hkind
  · exact h.configuration id (c.retracts.kind?_eq_some_iff.mp hk).1

theorem Named.written (h : book.Named g) (c : Planned markers book g changes puts)
    (hunits : ∀ p, .put p ∈ changes → p.FromText)
    (hw : (book.draftOn g markers changes).plan.written g = .ok g') :
    (book.draftOn g markers changes).book.Named g' := by
  have m' := c.mirrors_written hw
  constructor
  case configuration =>
    intro id hk
    rw [c.ends.same.index] at hk
    exact c.configuration_added h hk
  case edges =>
    intro k edge he
    rcases (c.edges_iff hw).mp he with hplan | kept
    · rcases c.planned_cases hplan with hown | ⟨r, hr, rfl, t, kind, href⟩
      · exact .inl (c.ends.same.ownEdge (c.adds.edges k edge hown).2.1)
      · refine .inr ⟨r, t, kind, href, c.named_atHand h hunits hr, fun hcall hk => ?_⟩
        rw [c.ends.same.index] at hk
        exact lower_eq_of_objectOf? c.real_added
          (c.sound_added.objectOf?_of_target? hcall (c.target?_of_standing href.eq hk))
    · have intact := kept.intact c
      rcases h.edges k edge kept.found with hown | ⟨r, t, kind, href, hnamed, hname⟩
      · exact .inl (intact.ownEdge c hown)
      · refine .inr ⟨r, t, kind, intact.refEdge c href, hnamed, fun hcall hk => ?_⟩
        rcases href.target with ⟨hold, -⟩ | ⟨rfl, -, -⟩
        · exact hname hcall hold
        · -- A node that is known is no placeholder.
          obtain ⟨entry, hentry, -⟩ := Option.map_eq_some_iff.mp hk
          have hplaceholder := (m'.real _ entry hentry).2
          rw [r.isPlaceholder_placeholderId] at hplaceholder
          cases hplaceholder

/-! ## The ends of an edge -/

/-- A requirement or an incident that is known is in the graph as itself: no unit owns its id, and no
other node without a unit has it. -/
theorem Mirrors.shared_of_contains (m : book.Mirrors g) {node : Node} {key : String}
    (hs : node = Fragment.requirementNode key ∨ node = Fragment.incidentNode key)
    (h : book.index.contains node.id = true) : g.nodes[node.id]? = some node := by
  obtain ⟨-, -, hreserved, -⟩ := Fragment.shared_props hs
  obtain ⟨entry, he⟩ := (Maps.contains_iff _ _).mp h
  obtain ⟨other, hn, hreal, -⟩ := m.node_of_entry he
  have hunit : other.unit? = none := by
    cases hu : other.unit? with
    | none => rfl
    | some path =>
      have howned : book.nodeUnit[node.id]? = some path := by rw [m.nodeUnit, hn]; exact hu
      rw [m.unreserved _ _ howned] at hreserved
      cases hreserved
  rcases m.unowned _ other hn hunit with ⟨name, rfl⟩ | ⟨key', hshared⟩
  · exact absurd rfl hreal
  · rw [hn, Fragment.eq_of_shared hshared hs (m.node_id _ other hn)]

/-- The node at the other end of the edge of a reference fits the reference, or is a placeholder. -/
theorem RefEdge.target_node {edge : Edge} {r : Reference} {t : NodeId} {kind : NodeKind}
    (m : book.Mirrors g) (h : book.RefEdge edge r t kind) :
    ∃ node, g.nodes[t]? = some node ∧ node.kind = kind ∧
      (r.kind.admits kind = true ∨ kind = .unknown) := by
  rcases h.target with ⟨hk, hadmits⟩ | ⟨rfl, rfl, hw⟩
  · obtain ⟨node, hn, hkind⟩ := m.node_of_kind? hk
    exact ⟨node, hn, hkind, .inl hadmits⟩
  · obtain ⟨node, hn, hkind⟩ := (m.placeholders _).mpr ⟨_, r, hw, rfl⟩
    exact ⟨node, hn, hkind, .inr rfl⟩

/-- A named reference to an object is not resolved to the configuration, whose id has no dot. -/
theorem Named.ne_configuration {r : Reference} {t : NodeId} {kind : NodeKind} (h : book.Named g)
    (hnamed : r.Named) (hr : r.kind = .child ∨ r.kind = .metadata ∨ r.kind = .metadataType)
    (hname : book.index.kind? t = some kind → lower t.text = lower r.awaited)
    (htarget : book.Target r t kind) : kind ≠ .configuration := by
  rintro rfl
  rcases htarget with ⟨hk, -⟩ | ⟨-, hunknown, -⟩
  · have hdot := hnamed.dot hr
    rw [← hname hk, h.configuration t hk] at hdot
    revert hdot
    decide +kernel
  · cases hunknown

end Bookkeeping

/-- Whether an edge joins nodes of the graph as the schema has it. -/
def PropertyGraph.Joined (g : PropertyGraph) (edge : Edge) : Prop :=
  ∃ source target, g.nodes[edge.source]? = some source ∧ g.nodes[edge.target]? = some target ∧
    edge.kind.Joins source.kind target.kind ∧ (edge.kind = .dependsOn → edge.source ≠ edge.target)

/-- The edge of a reference joins an owner and a target that fit it, where the configuration fits as
a container only. -/
theorem Reference.joined_edgeTo {g : PropertyGraph} {r : Reference} {t : NodeId} {owner target : Node}
    (ho : g.nodes[r.owner]? = some owner) (hown : r.kind.ownedBy owner.kind = true)
    (ht : g.nodes[t]? = some target)
    (hadmits : r.kind.admits target.kind = true ∨ target.kind = .unknown)
    (hconfiguration : r.kind = .child ∨ r.kind = .metadata ∨ r.kind = .metadataType →
      target.kind ≠ .configuration)
    (hother : r.kind = .metadataType → r.owner ≠ t) : g.Joined (r.edgeTo t target.kind) := by
  have hobject : target.kind.isObject = true ∨ target.kind = .unknown →
      target.kind ≠ .configuration → target.kind.isMetadata = true ∨ target.kind = .unknown := by
    cases target.kind <;> simp [NodeKind.isObject, NodeKind.isMetadata]
  unfold Reference.edgeTo Reference.keyTo
  cases hr : r.kind with
  | call =>
    simp only [hr, RefKind.ownedBy, RefKind.admits, Bool.or_eq_true] at hown hadmits
    exact ⟨owner, target, ho, ht, .calls hown hadmits, by simp⟩
  | testCall =>
    simp only [hr, RefKind.ownedBy, RefKind.admits, decide_eq_true_eq] at hown hadmits
    by_cases hk : target.kind = .testCase
    · simp only [hk, if_true]
      refine ⟨owner, target, ho, ht, ?_, by simp⟩
      rw [hown, hk]
      exact .callsTest
    · simp only [hk, if_false]
      refine ⟨target, owner, ht, ho, ?_, by simp⟩
      rw [hown]
      refine .tested (hadmits.imp_left fun hdecl => ?_)
      revert hdecl hk
      cases target.kind <;> simp [NodeKind.isDecl, NodeKind.isCode]
  | metadata =>
    simp only [hr, RefKind.ownedBy, RefKind.admits, Bool.or_eq_true] at hown hadmits
    exact ⟨owner, target, ho, ht, .uses hown (hobject hadmits (hconfiguration (by simp [hr]))), by simp⟩
  | metadataType =>
    simp only [hr, RefKind.ownedBy, RefKind.admits] at hown hadmits
    refine ⟨owner, target, ho, ht, .depends ?_ (hobject hadmits (hconfiguration (by simp [hr]))),
      fun _ => hother hr⟩
    revert hown
    cases owner.kind <;> simp [NodeKind.isObject, NodeKind.isMetadata]
  | container =>
    simp only [hr, RefKind.ownedBy, RefKind.admits] at hown hadmits
    refine ⟨target, owner, ht, ho, .holds ?_ hown, by simp⟩
    revert hadmits
    cases target.kind <;> simp [NodeKind.isObject, NodeKind.isMetadata]
  | child =>
    simp only [hr, RefKind.ownedBy, RefKind.admits, decide_eq_true_eq] at hown hadmits
    refine ⟨owner, target, ho, ht, ?_, by simp⟩
    rw [hown]
    exact .lists (hobject hadmits (hconfiguration (by simp [hr])))

namespace Bookkeeping

variable {book : Bookkeeping} {g : PropertyGraph}

theorem OwnEdge.joined {edge : Edge} (m : book.Mirrors g) (h : book.OwnEdge edge) :
    g.Joined edge := by
  cases h with
  | declares _ hmk module_kind _ hdk decl_kind =>
    obtain ⟨source, hs, rfl⟩ := m.node_of_kind? hmk
    obtain ⟨target, ht, rfl⟩ := m.node_of_kind? hdk
    exact ⟨source, target, hs, ht, .declares module_kind decl_kind, by simp [Fragment.ownedEdge]⟩
  | @implements _ key _ _ hs _ hdk decl_kind =>
    obtain ⟨target, ht, rfl⟩ := m.node_of_kind? hdk
    exact ⟨Fragment.requirementNode key, target, m.shared_of_contains (.inl rfl) hs, ht,
      .implements decl_kind, by simp [Fragment.ownedEdge]⟩
  | @triggers _ key _ _ hs _ hdk decl_kind =>
    obtain ⟨source, hd, rfl⟩ := m.node_of_kind? hdk
    exact ⟨source, Fragment.incidentNode key, hd, m.shared_of_contains (.inr rfl) hs,
      .triggers decl_kind, by simp [Fragment.ownedEdge]⟩

theorem Named.joined (m : book.Mirrors g) (h : book.Named g) {k : EdgeKey} {edge : Edge}
    (he : g.edges[k]? = some edge) : g.Joined edge := by
  rcases h.edges k edge he with hown | ⟨r, t, kind, href, hnamed, hname⟩
  · exact hown.joined m
  obtain ⟨ownerKind, hok, howned⟩ := href.own.kind
  obtain ⟨owner, ho, rfl⟩ := m.node_of_kind? hok
  obtain ⟨target, ht, rfl, hadmits⟩ := href.target_node m
  rw [href.eq]
  refine Reference.joined_edgeTo ho howned ht hadmits (fun hr => ?_) (fun hr => ?_)
  · refine h.ne_configuration hnamed hr (hname ?_) href.target
    rcases hr with hr | hr | hr <;> rw [hr] <;> rfl
  · -- The owner is known, so that the target, were it the owner, would have the name for its id.
    rintro rfl
    have hsame : owner.kind = target.kind := by rw [Option.some.inj (ho.symm.trans ht)]
    exact hnamed.other hr (hname (by rw [hr]; rfl) (hsame ▸ hok)).symm

end Bookkeeping

namespace Builder

variable {markers : List String} {policy : RetryPolicy} {units : ParsedUnit → Prop} {b : Builder}
  {g : PropertyGraph}

theorem Reached.named (hu : Unreserved markers units) (htext : ∀ p, units p → p.FromText)
    (h : Reached markers policy units b g) : b.book.Mirrors g ∧ b.book.Named g := by
  refine (Reached.induct (P := fun book g => book.Mirrors g ∧ book.Named g)
    ⟨Bookkeeping.mirrors_empty, Bookkeeping.named_empty⟩ ?_ h).1
  rintro book g g' changes ⟨m, named⟩ hnodup hunits hw
  obtain ⟨puts, c⟩ := m.planned (hu.changes hnodup hunits)
  exact ⟨c.mirrors_written hw, named.written c (fun p hp => htext p (hunits p hp)) hw⟩

/-- **The schema of edges.** After any successful calls over units that come from texts and claim no
reserved id, both ends of every edge are there and of kinds that the kind of the edge may join, and no
object depends on itself. -/
theorem joined_of_mem_allEdges (hu : Unreserved markers units) (htext : ∀ p, units p → p.FromText)
    (h : Reached markers policy units b g) {edge : Edge} (he : edge ∈ g.allEdges) :
    ∃ source target, g.nodes[edge.source]? = some source ∧ g.nodes[edge.target]? = some target ∧
      edge.kind.Joins source.kind target.kind ∧
      (edge.kind = .dependsOn → edge.source ≠ edge.target) := by
  obtain ⟨m, named⟩ := h.named hu htext
  exact named.joined m (m.mem_allEdges.mp he)

/-! ## An object with a type that is not there -/

/-- The descriptor of an object. -/
def sampleDescriptor : SourceUnit where
  path := "P.xml"
  kind := .metadataDescriptor
  content := "<MetaDataObject><Catalog><Properties><Name>P</Name></Properties>" ++
    "<Type><Type>CatalogRef.U</Type></Type></Catalog></MetaDataObject>"
  hash := ⟨1⟩

/-- The descriptor and what reading it finds. -/
def sampleObject : ParsedUnit where
  unit := .ofUnit sampleDescriptor
  outline :=
    { descriptor := some { kind := some .catalog, name := "P", typeRefs := ["Catalog.U"] }, loc := 1 }

theorem fromText_sampleObject : sampleObject.FromText := by
  have hread : (({} : Parser).read (.ofSize 1) sampleDescriptor).1.outline = sampleObject.outline := by
    decide +kernel
  have hunit := ParsedUnit.FromText.read {} (.ofSize 1) sampleDescriptor
  rw [hread] at hunit
  exact hunit

/-- The edge from the object to the name of the type. -/
def sampleDependency : Edge :=
  Reference.edgeTo ⟨⟨"Catalog.P"⟩, "Catalog.U", .metadataType, "P.xml", none, none⟩
    ⟨"unknown::catalog.u"⟩ .unknown

theorem joined_of_mem_allEdges_sample :
    sampleDependency ∈ (firstCall [] [sampleObject]).2.allEdges ∧ sampleDependency.kind = .dependsOn ∧
    ∃ source target, (firstCall [] [sampleObject]).2.nodes[sampleDependency.source]? = some source ∧
      (firstCall [] [sampleObject]).2.nodes[sampleDependency.target]? = some target ∧
      sampleDependency.kind.Joins source.kind target.kind ∧
      (sampleDependency.kind = .dependsOn → sampleDependency.source ≠ sampleDependency.target) := by
  have hu : ∀ p ∈ [sampleObject], ∀ node ∈ (Fragment.build [] p).nodes,
      node.id.isReserved = false := by decide +kernel
  have htext : ∀ p ∈ [sampleObject], p.FromText := by
    simpa using fromText_sampleObject
  have hreached : Reached [] {} (· ∈ [sampleObject]) (firstCall [] [sampleObject]).1
      (firstCall [] [sampleObject]).2 := reached_firstCall (by decide +kernel) fun _ hp => hp
  have hedge : sampleDependency ∈ (firstCall [] [sampleObject]).2.allEdges := by decide +kernel
  exact ⟨hedge, rfl, joined_of_mem_allEdges hu htext hreached hedge⟩

end Builder

end CodeAtlas
