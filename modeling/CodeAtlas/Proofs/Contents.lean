import CodeAtlas.Proofs.History

/-!
# What a graph was made of

Where the units of different paths claim different ids and different names, nothing of a unit is ever
left out. The graph then says which units it was made of: its nodes with a unit are those of their
fragments (`Describes.nodes`), and the index is faithful to them. A call replaces the units that it
changes and leaves the others (`Contents.replace`).
-/

set_option autoImplicit false

namespace CodeAtlas

open Std Text

/-- Units that claim no reserved ids, and of which no two with different paths claim the same id, the
same common module or the same object, whatever the case. -/
structure Distinct (markers : List String) (units : ParsedUnit → Prop) : Prop where
  unreserved : Builder.Unreserved markers units
  apart : ∀ p q, units p → units q → p.unit.path ≠ q.unit.path →
    ∀ a ∈ (Fragment.build markers p).nodes, ∀ b ∈ (Fragment.build markers q).nodes, a.id ≠ b.id ∧
      (∀ name, (IndexEntry.ofNode a).commonModule = some name →
        (IndexEntry.ofNode b).commonModule ≠ some name) ∧
      (∀ name, (IndexEntry.ofNode a).objectKey = some name →
        (IndexEntry.ofNode b).objectKey ≠ some name)

theorem Distinct.path_eq {markers : List String} {units : ParsedUnit → Prop}
    (h : Distinct markers units) {p q : ParsedUnit} (hp : units p) (hq : units q) {a b : Node}
    (ha : a ∈ (Fragment.build markers p).nodes) (hb : b ∈ (Fragment.build markers q).nodes)
    (hid : a.id = b.id) : p.unit.path = q.unit.path := by
  by_contra hne
  exact (h.apart p q hp hq hne a ha b hb).1 hid

/-- For a list of units it can be computed whether they are distinct. -/
theorem Distinct.of_forall {markers : List String} {S : List ParsedUnit}
    (unreserved : ∀ p ∈ S, ∀ node ∈ (Fragment.build markers p).nodes, node.id.isReserved = false)
    (apart : ∀ p ∈ S, ∀ q ∈ S, p.unit.path ≠ q.unit.path →
      ∀ a ∈ (Fragment.build markers p).nodes, ∀ b ∈ (Fragment.build markers q).nodes,
        a.id ≠ b.id ∧
        ((IndexEntry.ofNode a).commonModule = none ∨
          (IndexEntry.ofNode a).commonModule ≠ (IndexEntry.ofNode b).commonModule) ∧
        ((IndexEntry.ofNode a).objectKey = none ∨
          (IndexEntry.ofNode a).objectKey ≠ (IndexEntry.ofNode b).objectKey)) :
    Distinct markers (· ∈ S) := by
  have differ : ∀ {x y : Option String}, x = none ∨ x ≠ y → ∀ name, x = some name → y ≠ some name := by
    rintro x y (rfl | hne) name hx hy
    · simp at hx
    · exact hne (hx.trans hy.symm)
  refine ⟨unreserved, fun p q hp hq hne a ha b hb => ?_⟩
  obtain ⟨hid, hcommon, hobject⟩ := apart p hp q hq hne a ha b hb
  exact ⟨hid, differ hcommon, differ hobject⟩

/-! ## Units by path -/

/-- Units by path. -/
def Contents : Type := String → Option ParsedUnit

namespace Contents

/-- The units after some changes. -/
def replace (T : Contents) (changes : List UnitChange) : Contents := fun path =>
  match changes.find? (·.path = path) with
  | none => T path
  | some (.put p) => some p
  | some (.remove _) => none

variable {T : Contents} {changes : List UnitChange} {path : String} {p : ParsedUnit}

theorem replace_of_not_mem (h : path ∉ changes.map (·.path)) : T.replace changes path = T path := by
  have hnone : changes.find? (·.path = path) = none := by
    refine List.find?_eq_none.mpr fun c hc hp => h ?_
    exact List.mem_map.mpr ⟨c, hc, of_decide_eq_true hp⟩
  simp only [replace, hnone]

theorem find_of_nodup (hnodup : (changes.map (·.path)).Nodup) {c : UnitChange} (hc : c ∈ changes) :
    changes.find? (·.path = c.path) = some c := by
  cases hf : changes.find? (·.path = c.path) with
  | none => exact absurd (decide_eq_true rfl) (List.find?_eq_none.mp hf c hc)
  | some c' =>
    have hpath : c'.path = c.path := by simpa using List.find?_some hf
    rw [List.inj_on_of_nodup_map hnodup (List.mem_of_find?_eq_some hf) hc hpath]

theorem replace_of_put (hnodup : (changes.map (·.path)).Nodup) (hp : .put p ∈ changes) :
    T.replace changes p.unit.path = some p := by
  have hf : changes.find? (·.path = p.unit.path) = some (.put p) := find_of_nodup hnodup hp
  simp only [replace, hf]

theorem replace_of_remove (hnodup : (changes.map (·.path)).Nodup) (hp : .remove path ∈ changes) :
    T.replace changes path = none := by
  have hf : changes.find? (·.path = path) = some (.remove path) := find_of_nodup hnodup hp
  simp only [replace, hf]

theorem replace_cases (h : T.replace changes path = some p) :
    (.put p ∈ changes ∧ p.unit.path = path) ∨ (path ∉ changes.map (·.path) ∧ T path = some p) := by
  unfold replace at h
  cases hf : changes.find? (·.path = path) with
  | none =>
    rw [hf] at h
    refine .inr ⟨fun hm => ?_, h⟩
    obtain ⟨c, hc, hp⟩ := List.mem_map.mp hm
    exact absurd (decide_eq_true hp) (List.find?_eq_none.mp hf c hc)
  | some c =>
    rw [hf] at h
    cases c with
    | put q =>
      cases h
      have hpath : (UnitChange.put p).path = path := by simpa using List.find?_some hf
      exact .inl ⟨List.mem_of_find?_eq_some hf, hpath⟩
    | remove q => simp at h

end Contents

namespace Bookkeeping

/-! ## The description -/

/-- A graph that was made of some units and nothing else, with its bookkeeping. -/
structure Describes (markers : List String) (units : ParsedUnit → Prop) (T : Contents)
    (book : Bookkeeping) (g : PropertyGraph) : Prop where
  mirrors : book.Mirrors g
  faithful : book.index.Faithful
  known : ∀ path p, T path = some p → units p ∧ p.unit.path = path
  hashes : ∀ path : String, book.units[path]?.map (·.hash) = (T path).map (·.unit.hash)
  nodes : ∀ (id : NodeId) node path, g.nodes[id]? = some node ∧ node.unit? = some path ↔
    ∃ p, T path = some p ∧ node ∈ (Fragment.build markers p).nodes ∧ node.id = id

theorem describes_empty (markers : List String) (units : ParsedUnit → Prop) :
    Describes markers units (fun _ => none) {} {} where
  mirrors := mirrors_empty
  faithful := NameIndex.faithful_empty
  known path p h := by simp at h
  hashes path := by simp
  nodes id node path := by simp

namespace Describes

variable {markers : List String} {units : ParsedUnit → Prop} {T : Contents} {book : Bookkeeping}
  {g g' : PropertyGraph} {changes : List UnitChange} {puts : List ParsedUnit}

/-- What is in the index comes from a fragment, or it is not found by name. -/
theorem entry_source (d : Describes markers units T book g) {id : NodeId} {entry : IndexEntry}
    (he : book.index.entries[id]? = some entry) :
    (∃ path p node, T path = some p ∧ book.nodeUnit[id]? = some path ∧
      node ∈ (Fragment.build markers p).nodes ∧ node.id = id ∧ .ofNode node = entry) ∨
    (entry.decl = none ∧ entry.commonModule = none ∧ entry.objectKey = none) := by
  obtain ⟨node, hn, hreal, rfl⟩ := d.mirrors.node_of_entry he
  cases hu : node.unit? with
  | some path =>
    obtain ⟨p, hp, hf, hid⟩ := (d.nodes id node path).mp ⟨hn, hu⟩
    refine .inl ⟨path, p, node, hp, ?_, hf, hid, rfl⟩
    rw [d.mirrors.nodeUnit, hn]
    exact hu
  | none =>
    rcases d.mirrors.unowned id node hn hu with ⟨name, rfl⟩ | ⟨key, rfl | rfl⟩
    · simp [Node.placeholder] at hreal
    · exact .inr ⟨rfl, rfl, rfl⟩
    · exact .inr ⟨rfl, rfl, rfl⟩

theorem nodeUnit_of_put (d : Describes markers units T book g) {path : String} {p : ParsedUnit}
    (hp : T path = some p) {node : Node} (hn : node ∈ (Fragment.build markers p).nodes) :
    g.nodes[node.id]? = some node ∧ book.nodeUnit[node.id]? = some path := by
  obtain ⟨hg, hu⟩ := (d.nodes node.id node path).mpr ⟨p, hp, hn, rfl⟩
  refine ⟨hg, ?_⟩
  rw [d.mirrors.nodeUnit, hg]
  exact hu

/-- A declaration in the index is one of a unit. -/
theorem declares_source (d : Describes markers units T book g) {id : NodeId} {name : LocalName}
    (h : book.index.declOf? id = some name) :
    ∃ path p node, T path = some p ∧ node ∈ (Fragment.build markers p).nodes ∧ node.id = id ∧
      (IndexEntry.ofNode node).decl = some name := by
  obtain ⟨entry, he, hname⟩ := Option.bind_eq_some_iff.mp h
  rcases d.entry_source he with ⟨path, p, node, hp, -, hn, hid, rfl⟩ | ⟨hnone, -⟩
  · exact ⟨path, p, node, hp, hn, hid, hname⟩
  · rw [hnone] at hname
    simp at hname

theorem entry_of_put (d : Describes markers units T book g) {path : String} {p : ParsedUnit}
    (hp : T path = some p) {node : Node} (hn : node ∈ (Fragment.build markers p).nodes) :
    book.index.entries[node.id]? = some (.ofNode node) :=
  d.mirrors.entry_of_node (d.nodeUnit_of_put hp hn).1
    ((Fragment.wellFormed_build markers p).owned node hn).real

theorem declOf?_of_node (d : Describes markers units T book g) {path : String} {p : ParsedUnit}
    (hp : T path = some p) {node : Node} (hn : node ∈ (Fragment.build markers p).nodes) :
    book.index.declOf? node.id = (IndexEntry.ofNode node).decl := by
  rw [NameIndex.declOf?, d.entry_of_put hp hn]
  rfl

/-! ## The names of new nodes are free -/

theorem free_base (hd : Distinct markers units) (d : Describes markers units T book g)
    (c : Planned markers book g changes puts) (hunits : ∀ p, .put p ∈ changes → units p)
    {p : ParsedUnit} (hp : p ∈ puts) {node : Node} (hn : node ∈ (Fragment.build markers p).nodes) :
    (book.base changes).book.index.Free node := by
  have hput := (c.mem_puts p).mp hp
  have hpath : p.unit.path ∈ changes.map (·.path) := List.mem_map.mpr ⟨.put p, hput, rfl⟩
  -- What is left in the index comes from units of other paths.
  have source : ∀ (id : NodeId) entry, (book.base changes).book.index.entries[id]? = some entry →
      (∃ q other, units q ∧ q.unit.path ≠ p.unit.path ∧ other ∈ (Fragment.build markers q).nodes ∧
        other.id = id ∧ .ofNode other = entry) ∨
      (entry.decl = none ∧ entry.commonModule = none ∧ entry.objectKey = none) := by
    intro id entry he
    obtain ⟨he, hfree⟩ := (c.retracts.entries id entry).mp he
    refine (d.entry_source he).imp_left ?_
    rintro ⟨path, q, other, hq, hu, ho, hid, hentry⟩
    obtain ⟨hqu, hqp⟩ := d.known path q hq
    refine ⟨q, other, hqu, fun hsame => ?_, ho, hid, hentry⟩
    exact hfree _ hpath ((d.mirrors.owns _ id).mpr (by rw [hu, ← hsame, hqp]))
  refine NameIndex.free_iff.mpr ⟨?_, fun id entry he => ?_⟩
  · cases he : (book.base changes).book.index.entries[node.id]? with
    | none => rfl
    | some entry =>
      have hid := hd.unreserved p (hunits p hput) node hn
      obtain ⟨q, hq⟩ := c.ready.known node.id entry he hid
      obtain ⟨he', hfree⟩ := (c.retracts.entries _ entry).mp he
      obtain ⟨hu, -⟩ := (c.retracts.nodeUnit _ q).mp hq
      rw [d.mirrors.nodeUnit] at hu
      obtain ⟨other, hg, hou⟩ := Option.bind_eq_some_iff.mp hu
      obtain ⟨q', hq', ho, hoid⟩ := (d.nodes _ other q).mp ⟨hg, hou⟩
      obtain ⟨hqu, hqp⟩ := d.known q q' hq'
      have hsame := hd.path_eq hqu (hunits p hput) ho hn hoid
      refine absurd ((d.mirrors.owns q node.id).mpr ?_) (hfree q ?_)
      · rw [d.mirrors.nodeUnit, hg]; exact hou
      · rw [← hqp, hsame]; exact hpath
  · rcases source id entry he with ⟨q, other, hqu, hne, ho, -, rfl⟩ | ⟨hdecl, hcommon, hobject⟩
    · obtain ⟨-, common, object⟩ := hd.apart q p hqu (hunits p hput) hne other ho node hn
      refine ⟨fun name hname hdecl => ?_, common, object⟩
      -- A declaration is named within a module of its own unit.
      obtain ⟨⟨m, hm, hmid⟩, -⟩ := (Fragment.wellFormed_build markers q).locals other ho name hname
      obtain ⟨⟨m', hm', hmid'⟩, -⟩ := (Fragment.wellFormed_build markers p).locals node hn name hdecl
      exact hne (hd.path_eq hqu (hunits p hput) hm hm' (hmid.trans hmid'.symm))
    · simp [hdecl, hcommon, hobject]

theorem compatible (hd : Distinct markers units) (d : Describes markers units T book g)
    (c : Planned markers book g changes puts) (hunits : ∀ p, .put p ∈ changes → units p) :
    Draft.Compatible markers (book.base changes) puts where
  faithful := c.retracts.faithful d.faithful
  free p hp node hn := d.free_base hd c hunits hp hn
  apart p hp q hq hne a ha b hb := by
    have hp' := (c.mem_puts p).mp hp
    have hq' := (c.mem_puts q).mp hq
    refine hd.apart p q (hunits p hp') (hunits q hq') (fun hpath => hne ?_) a ha b hb
    have hsame := List.inj_on_of_nodup_map c.wellFormed.distinct hp' hq' hpath
    injection hsame


/-! ## A call keeps the description -/

theorem faithful_added (hd : Distinct markers units) (d : Describes markers units T book g)
    (c : Planned markers book g changes puts) (hunits : ∀ p, .put p ∈ changes → units p) :
    (book.added markers changes).book.index.Faithful :=
  c.adds.faithful (d.compatible hd c hunits)

/-- No node of a new fragment is left out. -/
theorem accepted (hd : Distinct markers units) (d : Describes markers units T book g)
    (c : Planned markers book g changes puts) (hunits : ∀ p, .put p ∈ changes → units p)
    {p : ParsedUnit} (hp : p ∈ puts) {node : Node} (hn : node ∈ (Fragment.build markers p).nodes) :
    (book.added markers changes).plan.upsertNodes[node.id]? = some node := by
  have hput := (c.mem_puts p).mp hp
  have hid := hd.unreserved p (hunits p hput) node hn
  obtain ⟨path, hu⟩ := c.complete.nodes p hp node hn
  have hnew : ∃ other, (book.added markers changes).plan.upsertNodes[node.id]? = some other := by
    by_contra hnone
    have hbase : (book.base changes).book.nodeUnit[node.id]? = some path := by
      rw [c.adds.nodeUnit] at hu
      cases ho : (book.added markers changes).plan.upsertNodes[node.id]? with
      | none => rwa [ho] at hu
      | some other => exact absurd ⟨other, ho⟩ hnone
    obtain ⟨hold, hfree⟩ := (c.retracts.nodeUnit _ _).mp hbase
    obtain ⟨entry, he⟩ := c.mirrors.entry_of_nodeUnit hold
    have hentry := (c.retracts.entries _ entry).mpr ⟨he, hfree⟩
    rw [(d.free_base hd c hunits hp hn).id] at hentry
    simp at hentry
  obtain ⟨other, ho⟩ := hnew
  have hoid := c.adds.named _ other ho
  obtain ⟨q, hq, hf | hf⟩ := c.adds.source _ other ho
  · have hq' := (c.mem_puts q).mp hq
    have hpath := hd.path_eq (hunits q hq') (hunits p hput) hf hn hoid
    have hsame := List.inj_on_of_nodup_map c.wellFormed.distinct hq' hput hpath
    injection hsame with hsame
    subst hsame
    rw [ho, List.inj_on_of_nodup_map (Fragment.wellFormed_build markers q).nodup hf hn hoid]
  · obtain ⟨key, rfl | rfl⟩ := (Fragment.wellFormed_build markers q).shared other hf
    · rw [← hoid] at hid
      simp [Fragment.requirementNode] at hid
    · rw [← hoid] at hid
      simp [Fragment.incidentNode] at hid

theorem not_old_of_kept (d : Describes markers units T book g)
    (c : Planned markers book g changes puts) {path : String} {p : ParsedUnit}
    (hp : T path = some p) (hpaths : path ∉ changes.map (·.path)) {node : Node}
    (hn : node ∈ (Fragment.build markers p).nodes) : ¬ Planned.Old book changes node.id :=
  c.not_old_of_nodeUnit (d.nodeUnit_of_put hp hn).2 hpaths

theorem not_awaits {q : PendingQueue} (keyed : q.Keyed) {id : NodeId} (h : id.isReserved = false) :
    ¬ q.Awaits id := by
  intro ha
  have hph := Planned.isPlaceholder_of_awaits keyed ha
  rw [NodeId.isPlaceholder_eq_false h] at hph
  simp at hph

theorem nodes_written (hd : Distinct markers units) (d : Describes markers units T book g)
    (c : Planned markers book g changes puts) (hunits : ∀ p, .put p ∈ changes → units p)
    (hw : (book.draftOn g markers changes).plan.written g = .ok g') (id : NodeId) (node : Node)
    (path : String) :
    g'.nodes[id]? = some node ∧ node.unit? = some path ↔
      ∃ p, T.replace changes path = some p ∧ node ∈ (Fragment.build markers p).nodes ∧
        node.id = id := by
  have hnodup := c.wellFormed.distinct
  constructor
  · rintro ⟨hn, hu⟩
    have hawaits : ¬ (book.draftOn g markers changes).book.pending.Awaits id := by
      intro ha
      obtain ⟨name, hname⟩ := c.node_awaited hw ha
      rw [hn] at hname
      rw [Option.some.inj hname] at hu
      simp [Node.unit?, Node.placeholder, Props.text?, Props.get_ofList_cons, Props.get_ofList_nil]
        at hu
    rcases (c.node_unawaited hw hawaits).mp hn with hacc | ⟨hold, -, hg⟩
    · have hid := c.adds.named id node hacc
      rcases c.accepted_cases hacc with ⟨p, hp, hf, howned⟩ | ⟨key, rfl | rfl⟩
      · rw [howned.unit] at hu
        cases hu
        exact ⟨p, Contents.replace_of_put hnodup ((c.mem_puts p).mp hp), hf, hid⟩
      · simp [Fragment.requirementNode, Node.unit?, Props.text?] at hu
      · simp [Fragment.incidentNode, Node.unit?, Props.text?] at hu
    · obtain ⟨p, hp, hf, hid⟩ := (d.nodes id node path).mp ⟨hg, hu⟩
      refine ⟨p, ?_, hf, hid⟩
      rw [Contents.replace_of_not_mem, hp]
      intro hm
      refine hold ⟨path, hm, (d.mirrors.owns path id).mpr ?_⟩
      rw [← hid]
      exact (d.nodeUnit_of_put hp hf).2
  · rintro ⟨p, hp, hf, rfl⟩
    rcases Contents.replace_cases hp with ⟨hput, rfl⟩ | ⟨hpaths, hp⟩
    · have hid := hd.unreserved p (hunits p hput) node hf
      refine ⟨(c.node_unawaited hw (not_awaits c.ends.keyed hid)).mpr (.inl ?_),
        ((Fragment.wellFormed_build markers p).owned node hf).unit⟩
      exact d.accepted hd c hunits ((c.mem_puts p).mpr hput) hf
    · obtain ⟨hunit, rfl⟩ := d.known path p hp
      have hid := hd.unreserved p hunit node hf
      exact ⟨(c.node_unawaited hw (not_awaits c.ends.keyed hid)).mpr
        (.inr ⟨d.not_old_of_kept c hp hpaths hf, not_awaits d.mirrors.keyed hid,
          (d.nodeUnit_of_put hp hf).1⟩),
        ((Fragment.wellFormed_build markers p).owned node hf).unit⟩

theorem hashes_written (d : Describes markers units T book g)
    (c : Planned markers book g changes puts) (path : String) :
    (book.draftOn g markers changes).book.units[path]?.map (·.hash) =
      (T.replace changes path).map (·.unit.hash) := by
  have hsame : (book.draftOn g markers changes).book.units[path]?.map (·.hash) =
      (book.added markers changes).book.units[path]?.map (·.hash) := by
    have h := congrArg (Option.map Prod.fst) (c.ends.same.units path)
    rwa [Option.map_map, Option.map_map] at h
  rw [hsame]
  by_cases hput : ∃ p, .put p ∈ changes ∧ p.unit.path = path
  · obtain ⟨p, hp, rfl⟩ := hput
    obtain ⟨unit, hunit, hhash⟩ := c.adds.hash p ((c.mem_puts p).mpr hp)
    rw [hunit, Contents.replace_of_put c.wellFormed.distinct hp, Option.map_some, Option.map_some,
      hhash]
  · have hother : ∀ p ∈ puts, p.unit.path ≠ path := fun p hp hpath =>
      hput ⟨p, (c.mem_puts p).mp hp, hpath⟩
    rw [c.adds.units path hother, c.retracts.units]
    by_cases hpaths : path ∈ changes.map (·.path)
    · rw [if_pos hpaths]
      obtain ⟨change, hc, hpath⟩ := List.mem_map.mp hpaths
      cases change with
      | put p => exact absurd ⟨p, hc, hpath⟩ hput
      | remove q =>
        have hq : q = path := hpath
        subst hq
        rw [Contents.replace_of_remove c.wellFormed.distinct hc]
        rfl
    · rw [if_neg hpaths, Contents.replace_of_not_mem hpaths]
      exact d.hashes path

/-- **A call replaces the units that it changes.** -/
theorem written (hd : Distinct markers units) (d : Describes markers units T book g)
    (c : Planned markers book g changes puts) (hunits : ∀ p, .put p ∈ changes → units p)
    (hw : (book.draftOn g markers changes).plan.written g = .ok g') :
    Describes markers units (T.replace changes) (book.draftOn g markers changes).book g' where
  mirrors := c.mirrors_written hw
  faithful := by rw [c.ends.same.index]; exact d.faithful_added hd c hunits
  known path p h := by
    rcases Contents.replace_cases h with ⟨hput, hpath⟩ | ⟨-, hp⟩
    · exact ⟨hunits p hput, hpath⟩
    · exact d.known path p hp
  hashes := d.hashes_written c
  nodes := d.nodes_written hd c hunits hw

/-! ## References of fragments -/

/-- The references of a unit's fragment start at nodes of the unit. -/
theorem ownRef (d : Describes markers units T book g) {path : String} {p : ParsedUnit}
    (hp : T path = some p) {r : Reference} (hr : r ∈ (Fragment.build markers p).refs) :
    book.OwnRef r := by
  obtain ⟨node, starts⟩ := (Fragment.wellFormed_build markers p).refs r hr
  obtain ⟨-, hu⟩ := d.nodeUnit_of_put hp starts.mem
  have hentry := d.entry_of_put hp starts.mem
  have hkind : book.index.kind? node.id = some node.kind := by
    rw [NameIndex.kind?, hentry, Option.map_some, IndexEntry.ofNode_kind]
  rw [starts.owner] at hu hkind
  constructor
  · rw [hu, starts.unit, (d.known path p hp).2]
  · exact ⟨node.kind, hkind, starts.kind⟩
  · rw [starts.context, ← starts.owner, NameIndex.moduleOf?_eq_module? hentry]

/-- The module of a caller is one of the caller's own unit. -/
theorem context_source (d : Describes markers units T book g) {r : Reference} (own : book.OwnRef r)
    {module : NodeId} (hc : r.context = some module) :
    ∃ p, T r.unit = some p ∧ ∃ m ∈ (Fragment.build markers p).nodes, m.id = module := by
  have hunit := own.unit
  rw [d.mirrors.nodeUnit] at hunit
  obtain ⟨node, hn, hu⟩ := Option.bind_eq_some_iff.mp hunit
  obtain ⟨p, hp, hf, hid⟩ := (d.nodes r.owner node r.unit).mp ⟨hn, hu⟩
  refine ⟨p, hp, ?_⟩
  have hmodule : node.module? = some module := by
    have hcontext := own.context
    rw [hc] at hcontext
    split at hcontext
    · rw [hcontext, ← hid, NameIndex.moduleOf?_eq_module? (d.entry_of_put hp hf)]
    · simp at hcontext
  unfold Node.module? at hmodule
  cases hname : (IndexEntry.ofNode node).decl with
  | some name =>
    rw [hname] at hmodule
    cases hmodule
    exact ((Fragment.wellFormed_build markers p).locals node hf name hname).1
  | none =>
    rw [hname] at hmodule
    refine ⟨node, hf, ?_⟩
    cases hk : node.kind <;> simp [hk] at hmodule <;> exact hmodule

/-- As long as a unit stays as it is, nothing new is declared in the module of its calls. -/
theorem declOf?_of_context (hd : Distinct markers units) (d : Describes markers units T book g)
    {T' : Contents} {book' : Bookkeeping}
    (d' : Describes markers units T' book' g') {r : Reference} (own : book.OwnRef r)
    (hkept : ∀ q, T' r.unit = some q → T r.unit = some q) {id : NodeId} {name : LocalName}
    (hc : r.context = some name.module) (h : book'.index.declOf? id = some name) :
    book.index.declOf? id = some name := by
  obtain ⟨p, hp, m, hm, hmid⟩ := d.context_source own hc
  obtain ⟨path, q, node, hq, hn, rfl, hname⟩ := d'.declares_source h
  obtain ⟨⟨m', hm', hmid'⟩, -⟩ := (Fragment.wellFormed_build markers q).locals node hn name hname
  obtain ⟨hpu, hpp⟩ := d.known r.unit p hp
  obtain ⟨hqu, hqp⟩ := d'.known path q hq
  have hpath := hd.path_eq hpu hqu hm hm' (hmid.trans hmid'.symm)
  rw [← hqp, ← hpath, hpp] at hq
  cases hp.symm.trans (hkept q hq)
  rw [d.declOf?_of_node hp hn, hname]

theorem contents_of_owns (d : Describes markers units T book g) {path : String} {id : NodeId}
    (h : book.Owns path id) : ∃ p, T path = some p := by
  obtain ⟨unit, hunit, -⟩ := h
  have hhash := d.hashes path
  rw [hunit, Option.map_some] at hhash
  obtain ⟨p, hp, -⟩ := Option.map_eq_some_iff.mp hhash.symm
  exact ⟨p, hp⟩

/-- The nodes that are no placeholders determine the index. -/
theorem index_eq {T' : Contents} {book' : Bookkeeping} (d : Describes markers units T book g)
    (d' : Describes markers units T' book' g')
    (h : ∀ (id : NodeId) node, node.kind ≠ .unknown →
      (g.nodes[id]? = some node ↔ g'.nodes[id]? = some node)) : book.index = book'.index := by
  refine d.faithful.eq_of_entries d'.faithful (ExtTreeMap.ext_getElem? fun id => ?_)
  rw [d.mirrors.entries, d'.mirrors.entries]
  congr 1
  ext node
  rw [Option.filter_eq_some_iff, Option.filter_eq_some_iff]
  exact and_congr_left fun real => h id node (by simpa using real)

/-! ## Units that are new -/

/-- Changes that only bring in units of new paths. -/
def New (T : Contents) (changes : List UnitChange) : Prop :=
  ∀ change ∈ changes, ∃ p, change = .put p ∧ T p.unit.path = none

theorem New.not_mem {path : String} {p : ParsedUnit} (new : New T changes) (hp : T path = some p) :
    path ∉ changes.map (·.path) := by
  intro hm
  obtain ⟨change, hc, rfl⟩ := List.mem_map.mp hm
  obtain ⟨q, rfl, hq⟩ := new change hc
  have hnone : T (UnitChange.put q).path = none := hq
  rw [hp] at hnone
  simp at hnone

theorem New.replace {path : String} {p : ParsedUnit} (new : New T changes) (hp : T path = some p) :
    T.replace changes path = some p := by
  rw [Contents.replace_of_not_mem (new.not_mem hp), hp]

theorem not_mem_of_nodeUnit (d : Describes markers units T book g) (new : New T changes)
    {id : NodeId} {path : String} (h : book.nodeUnit[id]? = some path) :
    path ∉ changes.map (·.path) := by
  obtain ⟨p, hp⟩ := d.contents_of_owns ((d.mirrors.owns path id).mpr h)
  exact new.not_mem hp

theorem not_old (d : Describes markers units T book g) (new : New T changes) (id : NodeId) :
    ¬ Planned.Old book changes id := by
  rintro ⟨path, hm, ho⟩
  obtain ⟨p, hp⟩ := d.contents_of_owns ho
  exact new.not_mem hp hm

/-- Where only new units come in nothing is turned back. -/
theorem reopened_eq_nil (d : Describes markers units T book g) (new : New T changes)
    (c : Planned markers book g changes puts) : book.reopened g markers changes = [] := by
  refine List.eq_nil_iff_forall_not_mem.mpr fun o ho => ?_
  obtain ⟨edge, r, target, kind, h⟩ := c.mem_reopened.mp ho
  exact d.not_old new target (c.old_of_gone h.gone)

theorem unit_not_mem (d : Describes markers units T book g) (new : New T changes) {k : EdgeKey}
    {edge : Edge} (h : g.edges[k]? = some edge) {path : String} (hu : edge.unit? = some path) :
    path ∉ changes.map (·.path) := by
  obtain ⟨q, id, hq, -, hid⟩ := (d.mirrors.conforms k edge h).anchored
  rw [hu] at hq
  rw [Option.some.inj hq]
  exact d.not_mem_of_nodeUnit new hid

/-- Where only new units come in, an edge stays unless it led to a placeholder. -/
theorem intact (d : Describes markers units T book g) (new : New T changes)
    (c : Planned markers book g changes puts) {k : EdgeKey} {edge : Edge}
    (h : g.edges[k]? = some edge)
    (hdrop : ∀ r ∈ (book.added markers changes).settled, r.placeholderEdge.key ≠ k) :
    Planned.Intact markers book g changes k edge :=
  ⟨h, fun _ hu => d.unit_not_mem new h hu, fun id _ hgone => d.not_old new id (c.old_of_gone hgone),
    hdrop⟩

/-- An edge that does not lead to a placeholder is there for good. -/
theorem contains_of_closed (d : Describes markers units T book g) (new : New T changes)
    (c : Planned markers book g changes puts)
    (hw : (book.draftOn g markers changes).plan.written g = .ok g') {k : EdgeKey}
    (h : g.edges.contains k = true) (hclosed : k.isOpen = false) : g'.edges.contains k = true := by
  obtain ⟨edge, he⟩ := (Maps.contains_iff _ _).mp h
  refine c.contains_of_intact hw (d.intact new c he ?_)
  rintro r - rfl
  rw [r.isOpen_placeholderEdge] at hclosed
  simp at hclosed

/-- Every waiting reference that is resolved now is taken up. -/
theorem mem_settled (d : Describes markers units T book g) (new : New T changes)
    (c : Planned markers book g changes puts) {s : Reference} :
    s ∈ (book.added markers changes).settled ↔
      book.pending.waiting[PendingQueue.keyOf s]? = some s ∧
        (book.added markers changes).book.index.resolves s = true := by
  rw [c.mem_settled]
  refine ⟨fun h => ⟨h.1.1, h.2⟩, fun h => ⟨⟨h.1, ?_⟩, h.2⟩⟩
  exact d.not_mem_of_nodeUnit new (d.mirrors.waiting _ s h.1).1.unit

/-- A new reference is one of a new fragment, or it waited. -/
theorem atHand_cases (d : Describes markers units T book g) (new : New T changes)
    (c : Planned markers book g changes puts) {r : Reference}
    (h : r ∈ (book.added markers changes).atHand (book.reopened g markers changes)) :
    r ∈ (book.added markers changes).settled ∨
      ∃ p, .put p ∈ changes ∧ r ∈ (Fragment.build markers p).refs ∧
        r ∈ (book.added markers changes).refs := by
  rw [d.reopened_eq_nil new c] at h
  refine (List.mem_append.mp h).imp_right fun h => ?_
  have hr : r ∈ (book.added markers changes).refs := by simpa [Draft.fresh] using h
  obtain ⟨-, p, hp, hf⟩ := c.adds.refs r hr
  exact ⟨p, (c.mem_puts p).mp hp, hf, hr⟩

end Describes

end Bookkeeping


namespace Builder

/-- Every graph that a history over such units reaches is made of units. -/
theorem Reached.described {markers : List String} {policy : RetryPolicy} {units : ParsedUnit → Prop}
    {b : Builder} {g : PropertyGraph} (hd : Distinct markers units)
    (h : Reached markers policy units b g) : ∃ T, b.book.Describes markers units T g := by
  refine (Reached.induct (P := fun book g => ∃ T, book.Describes markers units T g)
    ⟨_, Bookkeeping.describes_empty markers units⟩ ?_ h).1
  rintro book g g' changes ⟨T, d⟩ hnodup hunits hw
  obtain ⟨puts, c⟩ := d.mirrors.planned (hd.unreserved.changes hnodup hunits)
  exact ⟨_, d.written hd c hunits hw⟩

end Builder
end CodeAtlas
