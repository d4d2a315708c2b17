import CodeAtlas.Proofs.Order
import Mathlib.Data.Set.Function

/-!
# A unit that comes and goes

A unit with a new path is taken in and then removed. Is everything as it was?

Its nodes go, and with them its own edges. What has to come back are the references of other units
that it satisfied in between. While it was there, such a reference was an edge and nothing else: the
queue had given it up. When the target goes, the edge is read back into the reference it remembers.
So a reference comes back exactly if the graph in between remembers it (`Visit.contains_iff`).

An edge remembers one reference. Two references that wait under different names, say a name alone and
the same name with a qualifier, may turn out to mean one declaration. They then meet in one edge, and
the second is not remembered. This is the only thing that can go wrong: the graph and the queue are as
they were exactly if no two waiting references met (`removeUnit_restores_iff`), and
`removeUnit_loses_reference` is a case in which two did.
-/

set_option autoImplicit false

namespace CodeAtlas

open Std Text

/-- Whether no declaration of a unit names a requirement or an incident. -/
def ParsedUnit.Unannotated (p : ParsedUnit) : Prop :=
  ∀ decl ∈ p.outline.declarations, decl.requirements = [] ∧ decl.incidents = []

theorem Fragment.shared_eq_nil (markers : List String) {p : ParsedUnit} (h : p.Unannotated) :
    (build markers p).shared = [] := by
  unfold build
  cases p.unit.kind with
  | configurationRoot => rfl
  | metadataDescriptor => rfl
  | sourceModule =>
    refine List.flatMap_eq_nil_iff.mpr fun decl hd => ?_
    obtain ⟨hr, hi⟩ := h decl (mem_of_mem_firstBy hd)
    simp [sharedNodes, hr, hi]

namespace Bookkeeping

/-! ## Edges to placeholders -/

/-- The edges to placeholders are told by the keys under which references wait. -/
theorem Mirrors.contains_open_iff {book : Bookkeeping} {g : PropertyGraph} (m : book.Mirrors g)
    {k : EdgeKey} (hopen : k.isOpen = true) :
    g.edges.contains k = true ↔
      ∃ r, book.pending.waiting.contains (PendingQueue.keyOf r) = true ∧
        r.placeholderEdge.key = k := by
  rw [Maps.contains_iff]
  constructor
  · rintro ⟨edge, he⟩
    have hkey := m.edge_key k edge he
    subst hkey
    obtain ⟨r, rfl, hw⟩ := m.waiting_of_open he hopen
    exact ⟨r, (Maps.contains_iff _ _).mpr ⟨r, hw⟩, rfl⟩
  · rintro ⟨r, hw, rfl⟩
    obtain ⟨s, hs⟩ := (Maps.contains_iff _ _).mp hw
    rw [← Reference.placeholderKey_of_keyOf (m.keyed _ s hs)]
    exact ⟨_, (m.waiting _ s hs).2.1⟩

namespace Planned

variable {markers : List String} {book : Bookkeeping} {g g' : PropertyGraph}
  {changes : List UnitChange} {puts : List ParsedUnit}

/-! ## Nodes that belong to no unit -/

/-- Requirements and incidents stay, and there are no more of them than units name. -/
theorem unowned_iff (c : Planned markers book g changes puts)
    (hw : (book.draftOn g markers changes).plan.written g = .ok g') {id : NodeId} {node : Node}
    (hu : node.unit? = none) (real : node.kind ≠ .unknown)
    (hshared : ∀ p, .put p ∈ changes → node ∉ (Fragment.build markers p).shared) :
    g'.nodes[id]? = some node ↔ g.nodes[id]? = some node := by
  -- Neither before nor after the call does anything wait for such an id.
  have hawaits : ∀ {b : Bookkeeping} {h : PropertyGraph}, b.Mirrors h → h.nodes[id]? = some node →
      ∀ {q : PendingQueue}, q.Keyed → ¬ q.Awaits id := by
    intro b h m hn q keyed ha
    have hph := isPlaceholder_of_awaits keyed ha
    rw [(m.real id _ (m.entry_of_node hn real)).2] at hph
    simp at hph
  constructor
  · intro hn
    rcases (c.node_unawaited hw (hawaits (c.mirrors_written hw) hn c.ends.keyed)).mp hn with
      hacc | ⟨-, -, hg⟩
    · obtain ⟨p, hp, hf | hf⟩ := c.adds.source id node hacc
      · rw [((Fragment.wellFormed_build markers p).owned node hf).unit] at hu
        simp at hu
      · exact absurd hf (hshared p ((c.mem_puts p).mp hp))
    · exact hg
  · intro hg
    refine (c.node_unawaited hw (hawaits c.mirrors hg c.ends.keyed)).mpr
      (.inr ⟨?_, hawaits c.mirrors hg c.mirrors.keyed, hg⟩)
    rintro ⟨q, -, ho⟩
    have hq := (c.mirrors.owns q id).mp ho
    rw [c.mirrors.nodeUnit, hg, Option.bind_some, hu] at hq
    simp at hq

/-! ## Calls that only remove -/

theorem upsertNodes_of_removes (c : Planned markers book g changes puts)
    (removes : ∀ p, .put p ∉ changes) (id : NodeId) :
    (book.added markers changes).plan.upsertNodes[id]? = none := by
  cases hn : (book.added markers changes).plan.upsertNodes[id]? with
  | none => rfl
  | some node =>
    obtain ⟨p, hp, -⟩ := c.adds.source id node hn
    exact absurd ((c.mem_puts p).mp hp) (removes p)

theorem gone_iff_old (c : Planned markers book g changes puts) (removes : ∀ p, .put p ∉ changes)
    {id : NodeId} : id ∈ (book.added markers changes).goneNodes ↔ Old book changes id :=
  ⟨c.old_of_gone, fun h => c.gone_of_old h (c.upsertNodes_of_removes removes id)⟩

/-- A new reference is one that is turned back. -/
theorem fresh_of_removes (c : Planned markers book g changes puts) (removes : ∀ p, .put p ∉ changes)
    {r : Reference}
    (h : r ∈ (book.added markers changes).fresh (book.reopened g markers changes)) :
    ∃ o ∈ book.reopened g markers changes, o.ref = r := by
  rcases List.mem_append.mp h with h | h
  · obtain ⟨-, p, hp, -⟩ := c.adds.refs r h
    exact absurd ((c.mem_puts p).mp hp) (removes p)
  · exact List.mem_map.mp h

end Planned

/-! ## Calls that only take in -/

namespace Describes

variable {markers : List String} {units : ParsedUnit → Prop} {T : Contents} {book : Bookkeeping}
  {g g' : PropertyGraph} {changes : List UnitChange} {puts : List ParsedUnit}

/-- A declaration is known together with its module. -/
theorem module_known (d : Describes markers units T book g) {id : NodeId} {name : LocalName}
    (h : book.index.declOf? id = some name) :
    ∃ entry, book.index.entries[name.module]? = some entry := by
  obtain ⟨entry, he, hname⟩ := Option.bind_eq_some_iff.mp h
  rcases d.entry_source he with ⟨path, p, node, hp, -, hn, -, rfl⟩ | ⟨hnone, -⟩
  · obtain ⟨⟨m, hm, hmid⟩, -⟩ := (Fragment.wellFormed_build markers p).locals node hn name hname
    rw [← hmid]
    exact ⟨_, d.mirrors.entry_of_node (d.nodeUnit_of_put hp hm).1
      ((Fragment.wellFormed_build markers p).owned m hm).real⟩
  · rw [hnone] at hname
    simp at hname

/-- The nodes of a new unit were not there before. -/
theorem node_eq_none_of_new (hd : Distinct markers units) (d : Describes markers units T book g)
    (new : New T changes) (c : Planned markers book g changes puts)
    (hunits : ∀ p, .put p ∈ changes → units p)
    (hw : (book.draftOn g markers changes).plan.written g = .ok g') {id : NodeId} {path : String}
    (hid : (book.draftOn g markers changes).book.nodeUnit[id]? = some path)
    (hpath : path ∈ changes.map (·.path)) : g.nodes[id]? = none := by
  have d' := d.written hd c hunits hw
  rw [d'.mirrors.nodeUnit] at hid
  obtain ⟨node, hn, hu⟩ := Option.bind_eq_some_iff.mp hid
  obtain ⟨p, hp, hf, rfl⟩ := (d'.nodes id node path).mp ⟨hn, hu⟩
  rcases Contents.replace_cases hp with ⟨hput, -⟩ | ⟨hnot, -⟩
  · exact c.node_eq_none_of_accepted (d.accepted hd c hunits ((c.mem_puts p).mpr hput) hf)
      (d.not_old new _) (not_awaits d.mirrors.keyed (hd.unreserved p (hunits p hput) node hf))
  · exact absurd hpath hnot

/-- A waiting reference that is resolved now leads to a node of a new unit. -/
theorem settled_target (hd : Distinct markers units) (d : Describes markers units T book g)
    (new : New T changes) (c : Planned markers book g changes puts)
    (hunits : ∀ p, .put p ∈ changes → units p) {s : Reference}
    (hs : s ∈ (book.added markers changes).settled) :
    ∃ t kind path, (book.draftOn g markers changes).book.RefEdge
        ((book.added markers changes).book.index.standing s) s t kind ∧
      (book.draftOn g markers changes).book.nodeUnit[t]? = some path ∧
        path ∈ changes.map (·.path) := by
  have hown := c.ownRef_atHand (List.mem_append.mpr (.inl hs))
  obtain ⟨hwait, hres⟩ := (d.mem_settled new c).mp hs
  obtain ⟨⟨t, kind⟩, hfound⟩ := Option.isSome_iff_exists.mp hres
  obtain ⟨hkind, hadmits⟩ := c.real_added.admits c.sound_added hfound
  have hbefore : book.index.resolve? s = none := by
    simpa [NameIndex.resolves] using (d.mirrors.waiting _ s hwait).2.2
  have hnone : book.index.entries[t]? = none :=
    d.faithful.target_new (d.faithful_added hd c hunits)
      (fun id entry he => (c.keepsAt (d.not_old new id)).entries entry he)
      (fun _ _ hname => d.module_known hname) hfound hbefore
  -- What is in the index now and was not before is a node that the call accepts.
  have hbase : (book.base changes).book.index.entries[t]? = none := by
    cases he : (book.base changes).book.index.entries[t]? with
    | none => rfl
    | some entry =>
      rw [((c.retracts.entries t entry).mp he).1] at hnone
      simp at hnone
  obtain ⟨entry, he, hentry⟩ := Option.map_eq_some_iff.mp hkind
  rw [c.adds.entries, hbase, Option.or_none] at he
  obtain ⟨node, hn, rfl⟩ := Option.map_eq_some_iff.mp he
  rw [IndexEntry.ofNode_kind] at hentry
  refine ⟨t, kind, ?_⟩
  rcases c.accepted_cases hn with ⟨p, hp, hf, -⟩ | ⟨key, hnode⟩
  · have hid := c.adds.named t node hn
    subst hid
    refine ⟨p.unit.path, c.refEdge_of_resolve? hown hfound, ?_,
      List.mem_map.mpr ⟨.put p, (c.mem_puts p).mp hp, rfl⟩⟩
    rw [c.ends.same.nodeUnit]
    exact c.adds.nodeUnit_of_accepted hf hn
  · -- No reference is resolved to a requirement or an incident.
    rw [← hentry] at hadmits
    rcases hnode with rfl | rfl <;> cases hk : s.kind <;>
      simp [hk, RefKind.admits, Fragment.requirementNode, Fragment.incidentNode, NodeKind.isDecl,
        NodeKind.isObject] at hadmits

/-- An edge of a unit that was there already was there already, or a waiting reference has become
it. -/
theorem edge_of_others (d : Describes markers units T book g) (new : New T changes)
    (c : Planned markers book g changes puts)
    (hw : (book.draftOn g markers changes).plan.written g = .ok g') {k : EdgeKey} {edge : Edge}
    (h : g'.edges[k]? = some edge) {path : String} (hu : edge.unit? = some path)
    (hpath : path ∉ changes.map (·.path)) :
    g.edges[k]? = some edge ∨ ∃ s ∈ (book.added markers changes).settled,
      edge = (book.added markers changes).book.index.standing s := by
  rcases (c.edges_iff hw).mp h with hplan | kept
  · rcases c.upsertEdges_cases hplan with hown | ⟨r, hr, rfl, -⟩
    · exact absurd (c.unit_upsertEdges hown hu) hpath
    · rw [NameIndex.standing_unit?] at hu
      rcases d.atHand_cases new c hr with hs | ⟨p, -, -, hrefs⟩
      · exact .inr ⟨r, hs, rfl⟩
      · exact absurd (Option.some.inj hu ▸ (c.of_refs hrefs).2) hpath
  · exact .inl kept.found

/-- A reference of a unit that was there already waits if it waited and is still not resolved. -/
theorem waiting_of_others (d : Describes markers units T book g) (new : New T changes)
    (c : Planned markers book g changes puts) {key : PendingKey} {r : Reference} :
    ((book.draftOn g markers changes).book.pending.waiting[key]? = some r ∧
        r.unit ∉ changes.map (·.path)) ↔
      book.pending.waiting[key]? = some r ∧
        (book.added markers changes).book.index.resolves r = false := by
  rw [c.waiting_iff]
  constructor
  · rintro ⟨⟨hwait, -, hres⟩ | hfind, hpath⟩
    · exact ⟨hwait, hres⟩
    · have hun := List.mem_of_find?_eq_some hfind
      rcases d.atHand_cases new c (Planned.mem_atHand_of_unresolved hun) with hs | ⟨p, -, -, hrefs⟩
      · have hres := (Planned.mem_unresolved.mp hun).2
        rw [((d.mem_settled new c).mp hs).2] at hres
        simp at hres
      · exact absurd (c.of_refs hrefs).2 hpath
  · rintro ⟨hwait, hres⟩
    have hpath := d.not_mem_of_nodeUnit new (d.mirrors.waiting _ r hwait).1.unit
    exact ⟨.inl ⟨hwait, hpath, hres⟩, hpath⟩

end Describes

/-! ## Coming and going -/

/-- A unit with a new path is taken in and then removed. -/
structure Visit (markers : List String) (units : ParsedUnit → Prop) (T : Contents) (u : ParsedUnit)
    (book : Bookkeeping) (g g₁ g₂ : PropertyGraph) (puts puts' : List ParsedUnit) : Prop where
  distinct : Distinct markers units
  unit : units u
  path : T u.unit.path = none
  before : Describes markers units T book g
  comes : Planned markers book g [.put u] puts
  came : (book.draftOn g markers [.put u]).plan.written g = .ok g₁
  goes : Planned markers (book.draftOn g markers [.put u]).book g₁ [.remove u.unit.path] puts'
  went : ((book.draftOn g markers [.put u]).book.draftOn g₁ markers
    [.remove u.unit.path]).plan.written g₁ = .ok g₂

namespace Visit

variable {markers : List String} {units : ParsedUnit → Prop} {T : Contents} {u : ParsedUnit}
  {book : Bookkeeping} {g g₁ g₂ : PropertyGraph} {puts puts' : List ParsedUnit}

theorem new (v : Visit markers units T u book g g₁ g₂ puts puts') : Describes.New T [.put u] := by
  intro change hc
  exact ⟨u, List.mem_singleton.mp hc, v.path⟩

theorem units_put (v : Visit markers units T u book g g₁ g₂ puts puts') :
    ∀ p, .put p ∈ [UnitChange.put u] → units p := by
  intro p hp
  cases List.mem_singleton.mp hp
  exact v.unit

theorem removes : ∀ p, .put p ∉ [UnitChange.remove u.unit.path] := by simp

theorem between (v : Visit markers units T u book g g₁ g₂ puts puts') :
    Describes markers units (T.replace [.put u]) (book.draftOn g markers [.put u]).book g₁ :=
  v.before.written v.distinct v.comes v.units_put v.came

theorem contents_eq (v : Visit markers units T u book g g₁ g₂ puts puts') :
    (T.replace [.put u]).replace [.remove u.unit.path] = T := by
  funext path
  by_cases hpath : path = u.unit.path
  · subst hpath
    rw [Contents.replace_of_remove (by simp) (by simp), v.path]
  · rw [Contents.replace_of_not_mem (by simpa [UnitChange.path] using hpath),
      Contents.replace_of_not_mem (by simpa [UnitChange.path] using hpath)]

/-- In the end the graph is made of the units that it was made of. -/
theorem after (v : Visit markers units T u book g g₁ g₂ puts puts') :
    Describes markers units T ((book.draftOn g markers [.put u]).book.draftOn g₁ markers
      [.remove u.unit.path]).book g₂ := by
  have d := v.between.written v.distinct v.goes (by simp) v.went
  rwa [v.contents_eq] at d

theorem node_iff (v : Visit markers units T u book g g₁ g₂ puts puts') (plain : u.Unannotated)
    {id : NodeId} {node : Node} (real : node.kind ≠ .unknown) :
    g₂.nodes[id]? = some node ↔ g.nodes[id]? = some node := by
  cases hu : node.unit? with
  | some path =>
    have h := (v.after.nodes id node path).trans (v.before.nodes id node path).symm
    simpa [hu] using h
  | none =>
    rw [v.goes.unowned_iff v.went hu real (by simp), v.comes.unowned_iff v.came hu real]
    intro p hp
    cases List.mem_singleton.mp hp
    simp [Fragment.shared_eq_nil markers plain]

/-- In the end names mean what they meant. -/
theorem index_eq (v : Visit markers units T u book g g₁ g₂ puts puts') (plain : u.Unannotated) :
    ((book.draftOn g markers [.put u]).book.added markers [.remove u.unit.path]).book.index =
      book.index := by
  rw [← v.goes.ends.same.index]
  exact v.after.index_eq v.before fun _ _ real => v.node_iff plain real

/-! ### References that come back -/

theorem gone_iff (v : Visit markers units T u book g g₁ g₂ puts puts') {id : NodeId} :
    id ∈ ((book.draftOn g markers [.put u]).book.added markers [.remove u.unit.path]).goneNodes ↔
      (book.draftOn g markers [.put u]).book.nodeUnit[id]? = some u.unit.path := by
  rw [v.goes.gone_iff_old removes, ← v.between.mirrors.owns]
  simp [Planned.Old, UnitChange.path]

/-- The nodes that go were not there before. -/
theorem node_eq_none_of_gone (v : Visit markers units T u book g g₁ g₂ puts puts') {id : NodeId}
    (h : id ∈ ((book.draftOn g markers [.put u]).book.added markers
      [.remove u.unit.path]).goneNodes) : g.nodes[id]? = none :=
  v.before.node_eq_none_of_new v.distinct v.new v.comes v.units_put v.came (v.gone_iff.mp h)
    (by simp [UnitChange.path])

/-- No edge of the graph before begins or ends at a node that goes. -/
theorem not_end_of_gone (v : Visit markers units T u book g g₁ g₂ puts puts') {id : NodeId}
    (h : id ∈ ((book.draftOn g markers [.put u]).book.added markers
      [.remove u.unit.path]).goneNodes) {k : EdgeKey} {edge : Edge} (hk : g.edges[k]? = some edge) :
    ¬ (id = k.source ∨ id = k.target) := by
  intro hid
  have hkey := v.before.mirrors.edge_key k edge hk
  subst hkey
  obtain ⟨node, hn⟩ := v.before.mirrors.known_of_edge hk hid
  rw [v.node_eq_none_of_gone h] at hn
  simp at hn

/-- The edge of a waiting reference that the unit satisfies leads to a node that goes. -/
theorem settled_gone (v : Visit markers units T u book g g₁ g₂ puts puts') {s : Reference}
    (hs : s ∈ (book.added markers [.put u]).settled) :
    ∃ t kind, (book.draftOn g markers [.put u]).book.RefEdge
        ((book.added markers [.put u]).book.index.standing s) s t kind ∧
      t ∈ ((book.draftOn g markers [.put u]).book.added markers
        [.remove u.unit.path]).goneNodes := by
  obtain ⟨t, kind, path, href, hid, hpath⟩ :=
    v.before.settled_target v.distinct v.new v.comes v.units_put hs
  refine ⟨t, kind, href, v.gone_iff.mpr ?_⟩
  rw [hid, List.mem_singleton.mp hpath]
  rfl

/-- A reference is turned back if the unit satisfied it and the graph remembers it. -/
theorem reopened_iff (v : Visit markers units T u book g g₁ g₂ puts puts') (key : PendingKey) :
    (∃ o ∈ (book.draftOn g markers [.put u]).book.reopened g₁ markers [.remove u.unit.path],
        PendingQueue.keyOf o.ref = key) ↔
      ∃ s ∈ (book.added markers [.put u]).settled, PendingQueue.keyOf s = key ∧
        g₁.edges[((book.added markers [.put u]).book.index.standing s).key]? =
          some ((book.added markers [.put u]).book.index.standing s) := by
  constructor
  · rintro ⟨o, ho, rfl⟩
    obtain ⟨edge, r, t, kind, h⟩ := v.goes.mem_reopened.mp ho
    have hunit : edge.unit? = some r.unit := by rw [h.refEdge.eq, Reference.edgeTo_unit?]
    have hkey := v.between.mirrors.edge_key _ edge h.found
    rcases v.before.edge_of_others v.new v.comes v.came h.found hunit h.unit with hg | ⟨s, hs, rfl⟩
    · exact absurd (hkey ▸ h.refEdge.target_mem) (v.not_end_of_gone h.gone hg)
    · refine ⟨s, hs, ?_, by rw [hkey]; exact h.found⟩
      obtain ⟨t', kind', href, -⟩ := v.settled_gone hs
      rw [href.keyOf_eq v.between.mirrors.unreserved h.refEdge, h.eq, keyOf_fitted]
  · rintro ⟨s, hs, rfl, hfound⟩
    obtain ⟨t, kind, href, hgone⟩ := v.settled_gone hs
    have hpath := (v.comes.mem_settled.mp hs).1.2
    exact ⟨_, v.goes.mem_reopened.mpr ⟨_, s, t, kind, hfound, href, hgone, hpath, rfl⟩,
      keyOf_fitted s⟩

/-- What is turned back is not resolved in any other way. -/
theorem unresolved_again (v : Visit markers units T u book g g₁ g₂ puts puts')
    (plain : u.Unannotated) {o : Draft.Reopening}
    (ho : o ∈ (book.draftOn g markers [.put u]).book.reopened g₁ markers [.remove u.unit.path]) :
    ((book.draftOn g markers [.put u]).book.added markers
      [.remove u.unit.path]).book.index.resolves o.ref = false := by
  obtain ⟨s, hs, hkey, -⟩ := (v.reopened_iff _).mp ⟨o, ho, rfl⟩
  obtain ⟨⟨hwait, hpath⟩, -⟩ := v.comes.mem_settled.mp hs
  have hown := v.goes.ownRef_added (v.comes.ends.same.ownRef (v.comes.ownRef_waiting hwait hpath)) hpath
  rw [← (hown.standing_key_eq (v.goes.ownRef_reopened ho) hkey).1, v.index_eq plain]
  exact (v.before.mirrors.waiting _ s hwait).2.2

/-- **A reference comes back if the graph in between remembers it.** -/
theorem contains_iff (v : Visit markers units T u book g g₁ g₂ puts puts') (plain : u.Unannotated)
    (key : PendingKey) :
    ((book.draftOn g markers [.put u]).book.draftOn g₁ markers
        [.remove u.unit.path]).book.pending.waiting.contains key = true ↔
      ∃ s, book.pending.waiting[key]? = some s ∧
        g₁.edges[((book.added markers [.put u]).book.index.standing s).key]? =
          some ((book.added markers [.put u]).book.index.standing s) := by
  rw [Maps.contains_iff]
  constructor
  · rintro ⟨r, hr⟩
    -- It waited all along, or it was turned back by the removal.
    rcases v.goes.waiting_iff.mp hr with ⟨hwait, hpath, -⟩ | hfind
    · obtain ⟨hold, hres⟩ := (v.before.waiting_of_others v.new v.comes).mp ⟨hwait, hpath⟩
      refine ⟨r, hold, ?_⟩
      rw [NameIndex.standing_of_not_resolves hres]
      exact (v.between.mirrors.waiting _ r hwait).2.1
    · have hun := List.mem_of_find?_eq_some hfind
      have hkey : PendingQueue.keyOf r = key := by simpa using List.find?_some hfind
      obtain ⟨o, ho, rfl⟩ := v.goes.fresh_of_removes removes (Planned.mem_unresolved.mp hun).1
      obtain ⟨s, hs, hskey, hfound⟩ := (v.reopened_iff key).mp ⟨o, ho, hkey⟩
      rw [← hskey]
      exact ⟨s, (v.comes.mem_settled.mp hs).1.1, hfound⟩
  · rintro ⟨s, hwait, hfound⟩
    have hkey := v.before.mirrors.keyed key s hwait
    subst hkey
    cases hres : (book.added markers [.put u]).book.index.resolves s with
    | false =>
      obtain ⟨hwait₁, hpath⟩ := (v.before.waiting_of_others v.new v.comes).mpr ⟨hwait, hres⟩
      refine ⟨s, v.goes.waiting_iff.mpr (.inl ⟨hwait₁, hpath, ?_⟩)⟩
      rw [v.index_eq plain]
      exact (v.before.mirrors.waiting _ s hwait).2.2
    | true =>
      have hs := (v.before.mem_settled v.new v.comes).mpr ⟨hwait, hres⟩
      obtain ⟨o, ho, hkey⟩ := (v.reopened_iff (PendingQueue.keyOf s)).mpr ⟨s, hs, rfl, hfound⟩
      have hun : o.ref ∈ Planned.unresolved markers (book.draftOn g markers [.put u]).book g₁
          [.remove u.unit.path] :=
        Planned.mem_unresolved.mpr ⟨List.mem_append.mpr (.inr (List.mem_map.mpr ⟨o, ho, rfl⟩)),
          v.unresolved_again plain ho⟩
      obtain ⟨r, hr, -⟩ := Planned.find_unresolved hun
      rw [hkey] at hr
      exact ⟨r, v.goes.waiting_iff.mpr (.inr hr)⟩

/-- The references that wait in the end waited before. -/
theorem contains_of_contains (v : Visit markers units T u book g g₁ g₂ puts puts')
    (plain : u.Unannotated) (key : PendingKey)
    (h : ((book.draftOn g markers [.put u]).book.draftOn g₁ markers
      [.remove u.unit.path]).book.pending.waiting.contains key = true) :
    book.pending.waiting.contains key = true := by
  obtain ⟨s, hs, -⟩ := (v.contains_iff plain key).mp h
  exact (Maps.contains_iff _ _).mpr ⟨s, hs⟩

/-! ### References that meet -/

/-- Where a waiting reference has its edge in between, the graph remembers some waiting reference. -/
theorem exists_remembered (v : Visit markers units T u book g g₁ g₂ puts puts') {s : Reference}
    (hwait : book.pending.waiting[PendingQueue.keyOf s]? = some s) :
    ∃ r, book.pending.waiting[PendingQueue.keyOf r]? = some r ∧
      ((book.added markers [.put u]).book.index.standing r).key =
        ((book.added markers [.put u]).book.index.standing s).key ∧
      g₁.edges[((book.added markers [.put u]).book.index.standing s).key]? =
        some ((book.added markers [.put u]).book.index.standing r) := by
  cases hres : (book.added markers [.put u]).book.index.resolves s with
  | false =>
    obtain ⟨hwait₁, -⟩ := (v.before.waiting_of_others v.new v.comes).mpr ⟨hwait, hres⟩
    refine ⟨s, hwait, rfl, ?_⟩
    rw [NameIndex.standing_of_not_resolves hres]
    exact (v.between.mirrors.waiting _ s hwait₁).2.1
  | true =>
    have hs := (v.before.mem_settled v.new v.comes).mpr ⟨hwait, hres⟩
    have hhand : s ∈ (book.added markers [.put u]).atHand (book.reopened g markers [.put u]) :=
      List.mem_append.mpr (.inl hs)
    obtain ⟨edge, he⟩ := v.comes.exists_upsertEdges hhand
    have hfound := (v.comes.edges_iff v.came).mpr (.inl he)
    have hunit := v.comes.unit_planned hhand he
    have hkey := v.between.mirrors.edge_key _ edge hfound
    rcases v.before.edge_of_others v.new v.comes v.came hfound hunit
      (v.comes.mem_settled.mp hs).1.2 with hg | ⟨r, hr, rfl⟩
    · -- The target is a new node, so there was no such edge before.
      obtain ⟨t, kind, href, hgone⟩ := v.settled_gone hs
      exact absurd href.target_mem (v.not_end_of_gone hgone hg)
    · exact ⟨r, (v.comes.mem_settled.mp hr).1.1, hkey, hfound⟩

/-- References told apart by their edges are told apart. -/
theorem keyOf_eq_of_standing (v : Visit markers units T u book g g₁ g₂ puts puts') {r s : Reference}
    (hr : book.pending.waiting[PendingQueue.keyOf r]? = some r)
    (hs : book.pending.waiting[PendingQueue.keyOf s]? = some s)
    (h : (book.added markers [.put u]).book.index.standing r =
      (book.added markers [.put u]).book.index.standing s) :
    PendingQueue.keyOf r = PendingQueue.keyOf s := by
  have href : ∀ {r : Reference}, book.pending.waiting[PendingQueue.keyOf r]? = some r →
      ∃ t kind, (book.draftOn g markers [.put u]).book.RefEdge
        ((book.added markers [.put u]).book.index.standing r) r t kind := by
    intro r hr
    cases hres : (book.added markers [.put u]).book.index.resolves r with
    | false =>
      obtain ⟨hwait, -⟩ := (v.before.waiting_of_others v.new v.comes).mpr ⟨hr, hres⟩
      rw [NameIndex.standing_of_not_resolves hres]
      exact ⟨_, _, v.between.mirrors.refEdge_waiting hwait⟩
    | true =>
      obtain ⟨t, kind, href, -⟩ :=
        v.settled_gone ((v.before.mem_settled v.new v.comes).mpr ⟨hr, hres⟩)
      exact ⟨t, kind, href⟩
  obtain ⟨t, kind, hr⟩ := href hr
  obtain ⟨t', kind', hs⟩ := href hs
  rw [← h] at hs
  exact hr.keyOf_eq v.between.mirrors.unreserved hs

/-- **All references come back if no two of them met.** -/
theorem keys_eq_iff (v : Visit markers units T u book g g₁ g₂ puts puts') (plain : u.Unannotated) :
    (∀ key : PendingKey, ((book.draftOn g markers [.put u]).book.draftOn g₁ markers
        [.remove u.unit.path]).book.pending.waiting.contains key =
          book.pending.waiting.contains key) ↔
      Set.InjOn (fun r => ((book.added markers [.put u]).book.index.standing r).key)
        {r | r ∈ book.pending.toList} := by
  have keyed := v.before.mirrors.keyed
  constructor
  · intro h r hr s hs hkey
    replace hr := (PendingQueue.mem_toList keyed).mp hr
    replace hs := (PendingQueue.mem_toList keyed).mp hs
    have found : ∀ {r : Reference}, book.pending.waiting[PendingQueue.keyOf r]? = some r →
        g₁.edges[((book.added markers [.put u]).book.index.standing r).key]? =
          some ((book.added markers [.put u]).book.index.standing r) := by
      intro r hr
      obtain ⟨r', hr', hfound⟩ := (v.contains_iff plain _).mp
        ((h _).trans ((Maps.contains_iff _ _).mpr ⟨r, hr⟩))
      rw [hr] at hr'
      cases hr'
      exact hfound
    -- Both are remembered under one key, and an edge remembers one reference only.
    have hedge := found hr
    dsimp only at hkey
    rw [hkey, found hs] at hedge
    rw [v.keyOf_eq_of_standing hr hs (Option.some.inj hedge).symm, hs] at hr
    exact (Option.some.inj hr).symm
  · intro h key
    rw [Bool.eq_iff_iff]
    refine ⟨v.contains_of_contains plain key, fun hkey => ?_⟩
    obtain ⟨s, hs⟩ := (Maps.contains_iff _ _).mp hkey
    have hskey := keyed key s hs
    subst hskey
    -- Some reference is remembered where this one had its edge; as none met it, it is this one.
    obtain ⟨r, hr, hmeet, hfound⟩ := v.exists_remembered hs
    have hrs : r = s := h ((PendingQueue.mem_toList keyed).mpr hr)
      ((PendingQueue.mem_toList keyed).mpr hs) hmeet
    subst hrs
    exact (v.contains_iff plain _).mpr ⟨r, hs, hfound⟩

/-! ### Edges -/

/-- An edge that leads to no placeholder stays throughout. -/
theorem closed_stays (v : Visit markers units T u book g g₁ g₂ puts puts') {k : EdgeKey}
    (hclosed : k.isOpen = false) (h : g.edges.contains k = true) : g₂.edges.contains k = true := by
  obtain ⟨edge, he⟩ := (Maps.contains_iff _ _).mp h
  obtain ⟨path, -, hu, -⟩ := (v.before.mirrors.conforms k edge he).anchored
  have hpath := v.before.unit_not_mem v.new he hu
  have hdropped : ∀ s : Reference, s.placeholderEdge.key ≠ k := by
    rintro s rfl
    rw [s.isOpen_placeholderEdge] at hclosed
    simp at hclosed
  obtain ⟨edge₁, he₁, hu₁⟩ := v.comes.edge_of_remembered v.came hpath
    ((v.before.mirrors.holds path k).mpr ⟨edge, he, hu⟩)
    (by simp [v.before.reopened_eq_nil v.new v.comes]) fun s _ hs => hdropped s hs.2
  -- Both its ends were there before, so neither goes.
  have hopened : ∀ o ∈ (book.draftOn g markers [.put u]).book.reopened g₁ markers
      [.remove u.unit.path], ¬ (o.unit = path ∧ o.key = k) := by
    rintro o ho ⟨-, hok⟩
    obtain ⟨edge', r, t, kind, h⟩ := v.goes.mem_reopened.mp ho
    have hkey := v.between.mirrors.edge_key _ edge' h.found
    rw [hok] at hkey
    exact absurd (hkey ▸ h.refEdge.target_mem) (v.not_end_of_gone h.gone he)
  obtain ⟨edge₂, he₂, -⟩ := v.goes.edge_of_remembered v.went hpath
    ((v.between.mirrors.holds path k).mpr ⟨edge₁, he₁, hu₁⟩) hopened fun s _ hs => hdropped s hs.2
  exact (Maps.contains_iff _ _).mpr ⟨edge₂, he₂⟩

/-- No reference at hand when the unit goes is resolved. -/
theorem unresolved_atHand (v : Visit markers units T u book g g₁ g₂ puts puts')
    (plain : u.Unannotated) {r : Reference}
    (h : r ∈ ((book.draftOn g markers [.put u]).book.added markers [.remove u.unit.path]).atHand
      ((book.draftOn g markers [.put u]).book.reopened g₁ markers [.remove u.unit.path])) :
    ((book.draftOn g markers [.put u]).book.added markers
      [.remove u.unit.path]).book.index.resolves r = false := by
  rcases List.mem_append.mp h with hs | hf
  · obtain ⟨⟨hwait, hpath⟩, -⟩ := v.goes.mem_settled.mp hs
    obtain ⟨hold, -⟩ := (v.before.waiting_of_others v.new v.comes).mp ⟨hwait, hpath⟩
    rw [v.index_eq plain]
    exact (v.before.mirrors.waiting _ r hold).2.2
  · obtain ⟨o, ho, rfl⟩ := v.goes.fresh_of_removes removes hf
    exact v.unresolved_again plain ho

/-- An edge that leads to no placeholder in the end was there before. -/
theorem closed_was (v : Visit markers units T u book g g₁ g₂ puts puts') (plain : u.Unannotated)
    {k : EdgeKey} (hclosed : k.isOpen = false) (h : g₂.edges.contains k = true) :
    g.edges.contains k = true := by
  obtain ⟨edge, he⟩ := (Maps.contains_iff _ _).mp h
  rcases (v.goes.edges_iff v.went).mp he with hplan | kept
  · rcases v.goes.upsertEdges_cases hplan with hown | ⟨r, hr, rfl, rfl⟩
    · obtain ⟨-, -, p, hp, -⟩ := v.goes.adds.edges k edge hown
      exact absurd ((v.goes.mem_puts p).mp hp) (removes p)
    · rw [v.goes.isOpen_standing (v.goes.ownRef_atHand hr), v.unresolved_atHand plain hr] at hclosed
      simp at hclosed
  · obtain ⟨path, -, hu, -⟩ := (v.between.mirrors.conforms k edge kept.found).anchored
    have hpath := v.goes.not_mem_of_unheld kept.found hu kept.unheld
    rcases v.before.edge_of_others v.new v.comes v.came kept.found hu hpath with hg | ⟨s, hs, rfl⟩
    · exact (Maps.contains_iff _ _).mpr ⟨edge, hg⟩
    · -- The edge of a reference that the unit satisfied goes with its target.
      obtain ⟨t, kind, href, hgone⟩ := v.settled_gone hs
      have hkey := v.between.mirrors.edge_key k _ kept.found
      subst hkey
      exact absurd (v.goes.mem_deleteNodes.mpr (.inl hgone)) (kept.ends t href.target_mem)

theorem edges_eq (v : Visit markers units T u book g g₁ g₂ puts puts') (plain : u.Unannotated)
    (h : ∀ key : PendingKey, ((book.draftOn g markers [.put u]).book.draftOn g₁ markers
      [.remove u.unit.path]).book.pending.waiting.contains key =
        book.pending.waiting.contains key) (k : EdgeKey) :
    g₂.edges.contains k = g.edges.contains k := by
  rw [Bool.eq_iff_iff]
  cases hopen : k.isOpen with
  | true =>
    rw [v.after.mirrors.contains_open_iff hopen, v.before.mirrors.contains_open_iff hopen]
    simp only [h]
  | false => exact ⟨v.closed_was plain hopen, v.closed_stays hopen⟩

end Visit

end Bookkeeping

namespace Builder

variable {markers : List String} {policy : RetryPolicy} {units : ParsedUnit → Prop} {b : Builder}
  {g : PropertyGraph} {u : ParsedUnit}

theorem SameView.counts {x y : Builder × PropertyGraph} (h : SameView x y) :
    x.1.book.pending.counts = y.1.book.pending.counts := h.unresolved

/-- What is seen in the end is what was seen before, if no two references met. -/
theorem sameView_iff_injOn {T : Contents} {g₁ g₂ : PropertyGraph} {puts puts' : List ParsedUnit}
    {b₁ b₂ : Builder} (v : Bookkeeping.Visit markers units T u b.book g g₁ g₂ puts puts')
    (plain : u.Unannotated) (hbook₁ : (b.book.draftOn g markers [.put u]).book = b₁.book)
    (hbook₂ : ((b.book.draftOn g markers [.put u]).book.draftOn g₁ markers
      [.remove u.unit.path]).book = b₂.book) :
    SameView (b₂, g₂) (b, g) ↔
      Set.InjOn (fun r => (b₁.book.index.standing r).key) {r | r ∈ b.book.pending.toList} := by
  have d₂ := v.after
  have hsub := v.contains_of_contains plain
  have hedges := v.edges_eq plain
  have hiff := v.keys_eq_iff plain
  rw [hbook₂] at d₂ hsub hedges hiff
  rw [← hbook₁, v.comes.ends.same.index, ← hiff]
  constructor
  · intro same key
    rw [Bool.eq_iff_iff]
    exact ⟨hsub key, PendingQueue.keys_of_counts d₂.mirrors.keyed v.before.mirrors.keyed hsub
      same.counts key⟩
  · intro hkeys
    exact ⟨PropertyGraph.realNodes_eq fun _ _ real => v.node_iff plain real,
      Bookkeeping.Grown.placeholders_eq d₂.mirrors v.before.mirrors (PendingQueue.awaits_of_keys hkeys),
      Maps.keys_eq_iff.mpr (hedges hkeys),
      PendingQueue.counts_eq_of_keys d₂.mirrors.keyed v.before.mirrors.keyed hkeys⟩

/-- A unit with a new path can be taken in and removed again. -/
theorem exists_visit (hd : Distinct b.markers units) {T : Contents}
    (d : b.book.Describes b.markers units T g) (hu : units u)
    (hpath : b.book.units.contains u.unit.path = false)
    (hids : ∀ node ∈ (Fragment.build b.markers u).nodes, node.id.text ≠ "") :
    ∃ δ₁ b₁ g₁ δ₂ b₂ g₂ puts puts', b.book.Visit b.markers units T u g g₁ g₂ puts puts' ∧
      (b.book.draftOn g b.markers [.put u]).book = b₁.book ∧
      ((b.book.draftOn g b.markers [.put u]).book.draftOn g₁ b.markers
        [.remove u.unit.path]).book = b₂.book ∧
      b.ingest [u] g = (.ok (δ₁, b₁), g₁) ∧
      b₁.removeUnit u.unit.path g₁ = (.ok (δ₂, b₂), g₂) := by
  have hT : T u.unit.path = none := by
    have hhash := d.hashes u.unit.path
    rw [(Maps.contains_eq_false_iff _ _).mp hpath] at hhash
    simpa using hhash.symm
  have hput : Bookkeeping.Changes b.markers [.put u] :=
    hd.unreserved.changes (by simp) (by simpa using hu)
  have hremove : Bookkeeping.Changes b.markers [.remove u.unit.path] :=
    hd.unreserved.changes (by simp) (by simp)
  obtain ⟨puts, comes⟩ := d.mirrors.planned hput
  obtain ⟨δ₁, g₁, came, hrun₁⟩ := apply_planned comes (by simpa using hids)
  obtain ⟨b₁, hb₁⟩ : ∃ b₁ : Builder,
      b₁ = { b with book := (b.book.draftOn g b.markers [.put u]).book } := ⟨_, rfl⟩
  have hbook : (b.book.draftOn g b.markers [.put u]).book = b₁.book := by rw [hb₁]
  have hmarkers : b.markers = b₁.markers := by rw [hb₁]
  have d₁ := d.written hd comes (by simpa using hu) came
  have hknown : (b.book.draftOn g b.markers [.put u]).book.units.contains u.unit.path = true := by
    have hhash := d₁.hashes u.unit.path
    rw [Contents.replace_of_put (by simp) (by simp)] at hhash
    obtain ⟨unit, hunit, -⟩ := Option.map_eq_some_iff.mp hhash
    exact (Maps.contains_iff _ _).mpr ⟨unit, hunit⟩
  obtain ⟨puts', goes⟩ := d₁.mirrors.planned hremove
  have goes' : b₁.book.Planned b₁.markers g₁ [.remove u.unit.path] puts' := by
    rw [← hbook, ← hmarkers]
    exact goes
  obtain ⟨δ₂, g₂, went, hrun₂⟩ := apply_planned goes' (by simp)
  rw [← hbook, ← hmarkers] at went
  refine ⟨δ₁, b₁, g₁, δ₂,
    { b₁ with book := (b₁.book.draftOn g₁ b₁.markers [.remove u.unit.path]).book }, g₂, puts, puts',
    ⟨hd, hu, hT, d, comes, came, goes, went⟩, hbook, ?_, ?_, ?_⟩
  · rw [hbook, hmarkers]
  · have hchanges : b.changesOf [u] = [.put u] :=
      changesOf_singleton (by simp [(Maps.contains_eq_false_iff _ _).mp hpath])
    rw [ingest_eq_apply (by simp [hchanges]), hchanges, hrun₁, hb₁]
  · rw [hbook] at hknown
    rw [removeUnit, if_pos hknown, hrun₂]

/-- **Removing a unit.** A unit with a new path, with no empty id and without annotations can always be
taken in and removed again. In the end all is as it was, nodes and edges and the names that wait with
their numbers of references, exactly if no two waiting references came to the same edge while the unit
was there. -/
theorem removeUnit_restores_iff (hd : Distinct markers units) (h : Reached markers policy units b g)
    (hu : units u) (hpath : b.book.units.contains u.unit.path = false)
    (hids : ∀ node ∈ (Fragment.build markers u).nodes, node.id.text ≠ "") (plain : u.Unannotated) :
    ∃ δ₁ b₁ g₁ δ₂ b₂ g₂, b.ingest [u] g = (.ok (δ₁, b₁), g₁) ∧
      b₁.removeUnit u.unit.path g₁ = (.ok (δ₂, b₂), g₂) ∧
      (SameView (b₂, g₂) (b, g) ↔
        Set.InjOn (fun r => (b₁.book.index.standing r).key) {r | r ∈ b.book.pending.toList}) := by
  obtain ⟨T, d⟩ := h.described hd
  obtain ⟨rfl, -⟩ := h.settings
  obtain ⟨δ₁, b₁, g₁, δ₂, b₂, g₂, puts, puts', v, hbook₁, hbook₂, hrun₁, hrun₂⟩ :=
    exists_visit hd d hu hpath hids
  exact ⟨δ₁, b₁, g₁, δ₂, b₂, g₂, hrun₁, hrun₂, sameView_iff_injOn v plain hbook₁ hbook₂⟩

/-! ## A pair that meets -/

/-- A unit that calls one name alone and with a qualifier. -/
def sampleCaller : ParsedUnit :=
  { sampleUnit "u.bsl" "f" 1 [] with
    outline :=
      { (sampleUnit "u.bsl" "f" 1 []).outline with
        calls := [⟨some "f", "g", none, 2⟩, ⟨some "f", "g", some "Utils", 3⟩] } }

/-- The common module that both calls mean. -/
def sampleUtils : ParsedUnit := sampleUnit "CommonModules/Utils/Ext/Module.bsl" "g" 2 []

theorem sampleUtils_unannotated : sampleUtils.Unannotated := by
  unfold ParsedUnit.Unannotated
  decide +kernel

/-- A unit that calls the name alone gets its reference back. -/
theorem removeUnit_restores_sample :
    let start := firstCall [] [sampleUnit "u.bsl" "f" 1 ["g"]]
    start.1.unresolved = [⟨⟨"unknown::g"⟩, "g", 1⟩] ∧
    ∃ δ₁ b₁ g₁ δ₂ b₂ g₂, start.1.ingest [sampleUtils] start.2 = (.ok (δ₁, b₁), g₁) ∧
      b₁.removeUnit sampleUtils.unit.path g₁ = (.ok (δ₂, b₂), g₂) ∧ SameView (b₂, g₂) start := by
  intro start
  have distinct : Distinct [] (· ∈ [sampleUnit "u.bsl" "f" 1 ["g"], sampleUtils]) :=
    .of_forall (by decide +kernel) (by decide +kernel)
  have reached : Reached [] {} (· ∈ [sampleUnit "u.bsl" "f" 1 ["g"], sampleUtils]) start.1 start.2 :=
    reached_firstCall (by decide +kernel) (by simp)
  obtain ⟨δ₁, b₁, g₁, δ₂, b₂, g₂, hrun₁, hrun₂, hiff⟩ := removeUnit_restores_iff distinct reached
    (u := sampleUtils) (by simp) (by decide +kernel) (by decide +kernel) sampleUtils_unannotated
  refine ⟨by decide +kernel, δ₁, b₁, g₁, δ₂, b₂, g₂, hrun₁, hrun₂, hiff.mpr ?_⟩
  have hone : start.1.book.pending.toList.length = 1 := by decide +kernel
  obtain ⟨r, hr⟩ := List.length_eq_one_iff.mp hone
  rw [hr]
  intro x hx y hy _
  rw [List.mem_singleton.mp hx, List.mem_singleton.mp hy]

/-- The caller alone, then with the common module. -/
def sampleAlone : Builder × PropertyGraph := firstCall [] [sampleCaller]

def sampleMet : Builder × PropertyGraph :=
  sampleAlone.1.after (sampleAlone.1.ingest [sampleUtils] sampleAlone.2)

/-- What is turned back when the common module goes, and the plan. -/
def sampleReturned : List Draft.Reopening :=
  unsortedReopened sampleMet.1.book sampleMet.2 sampleMet.1.markers [.remove sampleUtils.unit.path]

def sampleLeft : Draft :=
  sampleMet.1.book.draftWith sampleMet.1.markers [.remove sampleUtils.unit.path] sampleReturned

/-- What is computed of these calls, all at once so that they are run once. -/
theorem sampleMet_runs :
    (sampleAlone.1.ingest [sampleUtils] sampleAlone.2).1.isOk = true ∧
    sampleMet.1.book.units.contains sampleUtils.unit.path = true ∧
    (∀ id ∈ (sampleMet.1.book.added sampleMet.1.markers [.remove sampleUtils.unit.path]).goneNodes,
      (sampleMet.2.hops id).Pairwise fun x y => (Neighbor.compareListed x y).isLE = true) ∧
    passes sampleLeft.plan sampleMet.2 = true ∧
    Builder.unresolved { sampleMet.1 with book := sampleLeft.book } =
      [⟨⟨"unknown::g"⟩, "g", 1⟩] := by
  decide +kernel

/-- **A lost reference.** Two calls wait under two names, and the common module that comes satisfies
both with one edge. When it goes, only one of them waits again. -/
theorem removeUnit_loses_reference : ∃ (δ₁ δ₂ : Delta) (b₁ b₂ : Builder) (g₁ g₂ : PropertyGraph),
    Unambiguous [] [sampleCaller, sampleUtils] ∧ sampleUtils.Unannotated ∧
    Reached [] {} (· ∈ [sampleCaller, sampleUtils]) sampleAlone.1 sampleAlone.2 ∧
    sampleAlone.1.book.units.contains sampleUtils.unit.path = false ∧
    sampleAlone.1.ingest [sampleUtils] sampleAlone.2 = (.ok (δ₁, b₁), g₁) ∧
    b₁.removeUnit sampleUtils.unit.path g₁ = (.ok (δ₂, b₂), g₂) ∧
    sampleAlone.1.unresolved =
      [⟨⟨"unknown::g"⟩, "g", 1⟩, ⟨⟨"unknown::utils.g"⟩, "Utils.g", 1⟩] ∧
    b₂.unresolved = [⟨⟨"unknown::g"⟩, "g", 1⟩] := by
  have unambiguous : Unambiguous [] [sampleCaller, sampleUtils] :=
    ⟨by decide +kernel, .of_forall (by decide +kernel) (by decide +kernel), by decide +kernel,
      by decide +kernel⟩
  obtain ⟨hok, hknown, hsorted, hpasses, hleft⟩ := sampleMet_runs
  obtain ⟨δ₁, hcome⟩ : ∃ δ₁, sampleAlone.1.ingest [sampleUtils] sampleAlone.2 =
      (.ok (δ₁, sampleMet.1), sampleMet.2) := after_of_isOk hok
  have hgo : sampleMet.1.removeUnit sampleUtils.unit.path sampleMet.2 =
      (.ok (sampleLeft.plan.toDelta, { sampleMet.1 with book := sampleLeft.book }),
        laid sampleLeft sampleMet.2) := by
    rw [removeUnit, if_pos hknown]
    exact apply_of_passes (reopened_of_pairwise hsorted) hpasses
  exact ⟨δ₁, _, sampleMet.1, _, sampleMet.2, _, unambiguous, sampleUtils_unannotated,
    reached_firstCall (by decide +kernel) (by simp), by decide +kernel, hcome, hgo,
    by decide +kernel, hleft⟩

end Builder

end CodeAtlas
