import CodeAtlas.Proofs.Planning.Resolve

/-!
# What a draft keeps track of

Units may claim any ids, and each other's. Still a draft never loses track of some things: a node that
is remembered of a unit belongs to that unit alone, a unit that names a requirement or an incident for a
node owns the node (`Assigned`), and the plan puts and drops exactly the edges that the changed units
hold now and held before (`Tracks`). A node that is planned both to be deleted and to be inserted has
changed its kind in between: either its unit declares it anew, or it was a unit's and has become a
requirement or an incident.

References have no part in any of this for the edges that link code to requirements and incidents:
these come from fragments only, and the phases that deal with references leave them alone
(`SameAt`).
-/

set_option autoImplicit false

namespace CodeAtlas

open Std

/-! ## Links -/

/-- Whether edges of this kind link code to a requirement or an incident. -/
def EdgeKind.isLink : EdgeKind → Bool
  | implements | triggersIncident => true
  | _ => false

namespace EdgeKey

/-- The end of a link that is code. -/
def code (k : EdgeKey) : NodeId := if k.kind = .implements then k.target else k.source

/-- The other end, the requirement or the incident. -/
def anchor (k : EdgeKey) : NodeId := if k.kind = .implements then k.source else k.target

theorem forall_ends (k : EdgeKey) (P : NodeId → Prop) :
    P k.source ∧ P k.target ↔ P k.anchor ∧ P k.code := by
  unfold anchor code
  split
  · exact .rfl
  · exact and_comm

end EdgeKey

/-- A reference never becomes a link. -/
theorem Reference.isLink_keyTo (r : Reference) (target : NodeId) (kind : NodeKind) :
    (r.keyTo target kind).kind.isLink = false := by
  unfold Reference.keyTo
  cases r.kind with
  | testCall => by_cases hk : kind = .testCase <;> simp [hk, EdgeKind.isLink]
  | _ => rfl

/-- The code of a link that a fragment makes is one of its own nodes. -/
theorem Fragment.Inner.code_mem {f : Fragment} {path : String} {edge : Edge} (h : f.Inner path edge)
    (hlink : edge.kind.isLink = true) : ∃ node ∈ f.nodes, node.id = edge.key.code := by
  cases h with
  | declares => cases hlink
  | implements key decl _ hd => exact ⟨decl, hd, rfl⟩
  | triggers key decl _ hd => exact ⟨decl, hd, rfl⟩

/-! ## Owners -/

/-- Whether nodes and links are assigned to units: what is remembered of a unit belongs to it, as
something that a unit can own, and so does the code of every link that is remembered of it. -/
structure Bookkeeping.Assigned (book : Bookkeeping) : Prop where
  owner : ∀ p id, book.Owns p id → book.nodeUnit[id]? = some p
  kind : ∀ p id, book.Owns p id → ∃ kind, book.index.kind? id = some kind ∧ kind.isOwned = true
  code : ∀ p k, k.kind.isLink = true → book.Holds p k → book.nodeUnit[k.code]? = some p

theorem Bookkeeping.assigned_empty : Assigned {} where
  owner p id h := by simp [Owns] at h
  kind p id h := by simp [Owns] at h
  code p k _ h := by simp [Holds] at h

namespace Draft

/-- What a draft that adds fragments knows at any time about the bookkeeping it has started from and
the units that change. -/
structure Tracks (book : Bookkeeping) (paths : List String) (d : Draft) : Prop where
  assigned : d.book.Assigned
  put : ∀ k : EdgeKey, d.plan.upsertEdges.contains k = true ↔ ∃ p ∈ paths, d.book.Holds p k
  drop : ∀ k, k ∈ d.plan.deleteEdges ↔
    (∃ p ∈ paths, book.Holds p k) ∧ d.plan.upsertEdges.contains k = false
  others : ∀ p ∉ paths, ∀ k, d.book.Holds p k ↔ book.Holds p k
  kinds : ∀ (id : NodeId) kind, d.book.index.kind? id = some kind →
    (∃ node, d.plan.upsertNodes[id]? = some node ∧ node.kind = kind) ∨
      (d.plan.upsertNodes[id]? = none ∧ book.index.kind? id = some kind)
  real : ∀ (id : NodeId) node, d.plan.upsertNodes[id]? = some node → node.kind ≠ .unknown
  deleteNodes : d.plan.deleteNodes = ∅
  /-- What was taken back and is planned nevertheless does not belong to a unit any more. -/
  retracted : ∀ (id : NodeId) kind, d.retracted[id]? = some kind → book.index.kind? id = some kind ∧
    (∃ p ∈ paths, book.Owns p id) ∧
      ∀ node, d.plan.upsertNodes[id]? = some node → node.kind.isOwned = false
  rekinded : ∀ id ∈ d.rekinded, (∃ p ∈ paths, book.Owns p id) ∧ d.book.nodeUnit[id]? ≠ none ∧
    d.book.index.entries[id]? ≠ none ∧
      ∀ kind node, book.index.kind? id = some kind → d.plan.upsertNodes[id]? = some node →
        node.kind ≠ kind

variable {book : Bookkeeping} {paths : List String} {d : Draft} {path : String} {unit : UnitState}
  {markers : List String}

theorem tracks_retracted (assigned : book.Assigned) (h : Retracts book paths d) :
    Tracks book paths d := by
  have howns : ∀ p id, d.book.Owns p id → p ∉ paths ∧ book.Owns p id := by
    rintro p id ⟨unit, hunit, hid⟩
    rw [h.units] at hunit
    split at hunit
    · cases hunit
    next hp => exact ⟨hp, unit, hunit, hid⟩
  have hholds : ∀ p k, d.book.Holds p k ↔ p ∉ paths ∧ book.Holds p k := by
    intro p k
    unfold Bookkeeping.Holds
    rw [h.units]
    by_cases hp : p ∈ paths <;> simp [hp]
  -- A node has one owner, so that what other units own is not taken back.
  have hfree : ∀ {p id}, p ∉ paths → book.nodeUnit[id]? = some p → ∀ q ∈ paths, ¬ book.Owns q id := by
    intro p id hp hid q hq ho
    rw [assigned.owner q id ho] at hid
    cases hid
    exact hp hq
  constructor
  case assigned =>
    constructor
    case owner =>
      intro p id ho
      obtain ⟨hp, ho⟩ := howns p id ho
      have hid := assigned.owner p id ho
      exact (h.nodeUnit id p).mpr ⟨hid, hfree hp hid⟩
    case kind =>
      intro p id ho
      obtain ⟨hp, ho⟩ := howns p id ho
      obtain ⟨kind, hk, howned⟩ := assigned.kind p id ho
      exact ⟨kind, h.kind?_eq_some_iff.mpr ⟨hk, hfree hp (assigned.owner p id ho)⟩, howned⟩
    case code =>
      intro p k hk hh
      obtain ⟨hp, hh⟩ := (hholds p k).mp hh
      have hid := assigned.code p k hk hh
      exact (h.nodeUnit _ p).mpr ⟨hid, hfree hp hid⟩
  case put =>
    intro k
    rw [h.upsertEdges]
    refine iff_of_false (by simp) ?_
    rintro ⟨p, hp, hh⟩
    exact ((hholds p k).mp hh).1 hp
  case drop =>
    intro k
    rw [h.deleteEdges, h.upsertEdges]
    simp
  case others => exact fun p hp k => (hholds p k).trans (and_iff_right hp)
  case kinds =>
    intro id kind hk
    exact .inr ⟨by simp [h.upsertNodes], (h.kind?_eq_some_iff.mp hk).1⟩
  case real => intro id node hn; simp [h.upsertNodes] at hn
  case deleteNodes => exact h.deleteNodes
  case retracted =>
    intro id kind hr
    obtain ⟨hk, hold⟩ := (h.retracted id kind).mp hr
    exact ⟨hk, hold, fun node hn => by simp [h.upsertNodes] at hn⟩
  case rekinded => intro id hid; simp [h.rekinded] at hid

/-! ## One fragment -/

theorem Tracks.begin (h : Tracks book paths d) (new : d.book.units[path]? = none)
    (hash : ContentHash) : Tracks book paths (d.withUnit path { hash }) := by
  have howns := owns_begin new hash
  have hholds := holds_begin new hash
  constructor
  case assigned =>
    exact ⟨fun p id ho => h.assigned.owner p id ((howns p id).mp ho),
      fun p id ho => h.assigned.kind p id ((howns p id).mp ho),
      fun p k hk hh => h.assigned.code p k hk ((hholds p k).mp hh)⟩
  case put => exact fun k => (h.put k).trans (by simp only [hholds])
  case drop => exact h.drop
  case others => exact fun p hp k => (hholds p k).trans (h.others p hp k)
  case kinds => exact h.kinds
  case real => exact h.real
  case deleteNodes => exact h.deleteNodes
  case retracted => exact h.retracted
  case rekinded => exact h.rekinded

/-- A node that comes in is planned under the kind that it is known under. -/
theorem Tracks.kinds_add (h : Tracks book paths d) {node : Node} (real : node.kind ≠ .unknown)
    (id : NodeId) (kind : NodeKind) (hk : (d.book.index.add node).kind? id = some kind) :
    (∃ m, (d.plan.putNode node).upsertNodes[id]? = some m ∧ m.kind = kind) ∨
      ((d.plan.putNode node).upsertNodes[id]? = none ∧ book.index.kind? id = some kind) := by
  rw [NameIndex.kind?_add real] at hk
  rw [get_upsertNodes_putNode]
  split at hk
  next hid => exact .inl ⟨node, if_pos hid, Option.some.inj hk⟩
  next hid =>
    rw [if_neg hid]
    exact h.kinds id kind hk

theorem Tracks.real_putNode (h : Tracks book paths d) {node : Node} (real : node.kind ≠ .unknown)
    (id : NodeId) (m : Node) (hm : (d.plan.putNode node).upsertNodes[id]? = some m) :
    m.kind ≠ .unknown := by
  rw [get_upsertNodes_putNode] at hm
  split at hm
  · cases hm
    exact real
  · exact h.real id m hm

/-- A node that nobody owns becomes a unit's. -/
theorem Tracks.accept (h : Tracks book paths (d.withUnit path unit)) {node : Node}
    (hfree : d.book.nodeUnit[node.id]? = none) (howned : node.kind.isOwned = true) :
    Tracks book paths ((d.accept path node).withUnit path
      { unit with nodes := unit.nodes.insert node.id }) := by
  have hreal : node.kind ≠ .unknown := by
    rintro he
    rw [he] at howned
    cases howned
  have hnodeUnit := get_nodeUnit_accept d path node
  have hentries : ∀ id : NodeId, (d.book.index.add node).entries[id]? = _ :=
    NameIndex.entries_add hreal
  have hkind : ∀ id, (d.book.index.add node).kind? id = _ := NameIndex.kind?_add hreal
  have hplanned := get_upsertNodes_putNode d.plan node
  have hholds := fun p k => holds_accept d path p unit node k
  -- What a unit remembers is another node, or is this node of this unit.
  have howns : ∀ p id, ((d.accept path node).withUnit path
      { unit with nodes := unit.nodes.insert node.id }).book.Owns p id →
      (p = path ∧ node.id = id) ∨ (node.id ≠ id ∧ (d.withUnit path unit).book.Owns p id) := by
    intro p id ho
    rcases (owns_accept d path p unit node id).mp ho with ho | ⟨hid, hp⟩
    · refine .inr ⟨?_, ho⟩
      rintro rfl
      exact absurd (hfree.symm.trans (h.assigned.owner p _ ho)) (by simp)
    · exact .inl ⟨hp.symm, hid⟩
  constructor
  case assigned =>
    constructor
    case owner =>
      intro p id ho
      refine (hnodeUnit id).trans ?_
      rcases howns p id ho with ⟨rfl, hid⟩ | ⟨hid, ho⟩
      · rw [if_pos hid]
      · rw [if_neg hid]
        exact h.assigned.owner p id ho
    case kind =>
      intro p id ho
      rcases howns p id ho with ⟨-, hid⟩ | ⟨hid, ho⟩
      · exact ⟨node.kind, (hkind id).trans (if_pos hid), howned⟩
      · obtain ⟨kind, hk, hkowned⟩ := h.assigned.kind p id ho
        exact ⟨kind, (hkind id).trans ((if_neg hid).trans hk), hkowned⟩
    case code =>
      intro p k hk hh
      have hid := h.assigned.code p k hk ((hholds p k).mp hh)
      refine (hnodeUnit _).trans ((if_neg fun he => ?_).trans hid)
      rw [← he] at hid
      exact absurd (hfree.symm.trans hid) (by simp)
  case put => exact fun k => (h.put k).trans (by simp only [hholds])
  case drop => exact h.drop
  case others => exact fun p hp k => (hholds p k).trans (h.others p hp k)
  case kinds => exact h.kinds_add hreal
  case real => exact h.real_putNode hreal
  case deleteNodes => exact h.deleteNodes
  case retracted =>
    intro id kind hr
    replace hr := (get_retracted_accept d path node id).symm.trans hr
    split at hr
    · cases hr
    next hid =>
      obtain ⟨hk, hold, hplan⟩ := h.retracted id kind hr
      refine ⟨hk, hold, fun m hm => hplan m ?_⟩
      exact ((hplanned id).trans (if_neg hid)).symm.trans hm
  case rekinded =>
    intro id hid
    rcases (mem_rekinded_accept d path node id).mp hid with hid | ⟨rfl, kind, hr, hne⟩
    · obtain ⟨hold, hunit, hentry, hplan⟩ := h.rekinded id hid
      have hother : node.id ≠ id := by
        rintro rfl
        exact hunit hfree
      refine ⟨hold, ?_, ?_, fun kind m hk hm => hplan kind m hk ?_⟩
      · exact ((hnodeUnit id).trans (if_neg hother)).trans_ne hunit
      · exact ((hentries id).trans (if_neg hother)).trans_ne hentry
      · exact ((hplanned id).trans (if_neg hother)).symm.trans hm
    · obtain ⟨hk, hold, -⟩ := h.retracted node.id kind hr
      refine ⟨hold, ?_, ?_, fun kind' m hk' hm => ?_⟩
      · exact ((hnodeUnit node.id).trans (if_pos rfl)).trans_ne (by simp)
      · exact ((hentries node.id).trans (if_pos rfl)).trans_ne (by simp)
      · cases Option.some.inj (hk.symm.trans hk')
        cases Option.some.inj (((hplanned node.id).trans (if_pos rfl)).symm.trans hm)
        exact hne.symm

theorem Tracks.foldl_addNode (h : Tracks book paths (d.withUnit path unit)) (nodes : List Node)
    (howned : ∀ node ∈ nodes, node.kind.isOwned = true) :
    ∃ d' unit', nodes.foldl (addNode path) (d, unit) = (d', unit') ∧
      Tracks book paths (d'.withUnit path unit') ∧
      (∀ id : NodeId, d.book.nodeUnit[id]? ≠ none → d'.book.nodeUnit[id]? ≠ none) ∧
      ∀ node ∈ nodes, d'.book.nodeUnit[node.id]? ≠ none := by
  induction nodes generalizing d unit with
  | nil => exact ⟨d, unit, rfl, h, fun _ hid => hid, by simp⟩
  | cons node rest ih =>
    obtain ⟨howned, hrest⟩ := List.forall_mem_cons.mp howned
    obtain ⟨d₁, unit₁, hadd, h₁, hkept, hclaimed⟩ : ∃ d₁ unit₁, addNode path (d, unit) node = (d₁, unit₁) ∧
        Tracks book paths (d₁.withUnit path unit₁) ∧
        (∀ id : NodeId, d.book.nodeUnit[id]? ≠ none → d₁.book.nodeUnit[id]? ≠ none) ∧
        d₁.book.nodeUnit[node.id]? ≠ none := by
      rw [addNode_eq]
      split
      next hfree =>
        refine ⟨_, _, rfl, h.accept hfree howned, fun id hid => ?_, ?_⟩
        · rw [get_nodeUnit_accept]
          split
          · simp
          · exact hid
        · rw [get_nodeUnit_accept, if_pos rfl]
          simp
      next htaken => exact ⟨_, _, rfl, h, fun _ hid => hid, htaken⟩
    obtain ⟨d₂, unit₂, hfold, h₂, hkept₂, hclaimed₂⟩ := ih h₁ hrest
    refine ⟨d₂, unit₂, by rw [List.foldl_cons, hadd, hfold], h₂,
      fun id hid => hkept₂ id (hkept id hid), fun m hm => ?_⟩
    rcases List.mem_cons.mp hm with rfl | hm
    · exact hkept₂ _ hclaimed
    · exact hclaimed₂ m hm

/-- A requirement or an incident that is not known becomes known. -/
theorem Tracks.addShared (h : Tracks book paths (d.withUnit path unit)) {node : Node}
    (hkind : node.kind = .requirement ∨ node.kind = .incident) :
    Tracks book paths ((d.addShared node).withUnit path unit) := by
  have hreal : node.kind ≠ .unknown := by rcases hkind with hk | hk <;> simp [hk]
  have hshared : node.kind.isOwned = false := by rcases hkind with hk | hk <;> rw [hk] <;> rfl
  rw [addShared_eq]
  split
  next hfresh =>
    have hentries : ∀ id : NodeId, (d.book.index.add node).entries[id]? = _ :=
      NameIndex.entries_add hreal
    have hplanned := get_upsertNodes_putNode d.plan node
    constructor
    case assigned =>
      refine ⟨h.assigned.owner, fun p id ho => ?_, h.assigned.code⟩
      obtain ⟨kind, hk, howned⟩ := h.assigned.kind p id ho
      refine ⟨kind, ((NameIndex.kind?_add hreal id).trans (if_neg ?_)).trans hk, howned⟩
      rintro rfl
      obtain ⟨entry, he, -⟩ := Option.map_eq_some_iff.mp hk
      exact absurd (hfresh.symm.trans he) (by simp)
    case put => exact h.put
    case drop => exact h.drop
    case others => exact h.others
    case kinds => exact h.kinds_add hreal
    case real => exact h.real_putNode hreal
    case deleteNodes => exact h.deleteNodes
    case retracted =>
      intro id kind hr
      obtain ⟨hk, hold, hplan⟩ := h.retracted id kind hr
      refine ⟨hk, hold, fun m hm => ?_⟩
      replace hm := (hplanned id).symm.trans hm
      split at hm
      · cases hm
        exact hshared
      · exact hplan m hm
    case rekinded =>
      intro id hid
      obtain ⟨hold, hunit, hentry, hplan⟩ := h.rekinded id hid
      have hother : node.id ≠ id := by
        rintro rfl
        exact hentry hfresh
      refine ⟨hold, hunit, ((hentries id).trans (if_neg hother)).trans_ne hentry,
        fun kind m hk hm => hplan kind m hk ?_⟩
      exact ((hplanned id).trans (if_neg hother)).symm.trans hm
  next => exact h

/-- A unit gets an edge at nodes that no other unit owns. If the edge is a link and somebody owns its
code, then the unit does. -/
theorem Tracks.addEdge (h : Tracks book paths (d.withUnit path unit)) (hpath : path ∈ paths)
    {edge : Edge} (hclaimed : edge.kind.isLink = true → d.book.nodeUnit[edge.key.code]? ≠ none) :
    Tracks book paths ((Draft.addEdge (d, unit) edge).1.withUnit path
      (Draft.addEdge (d, unit) edge).2) := by
  rw [addEdge_eq]
  split
  next hown =>
    have hput := contains_upsertEdges_putEdge d.plan edge
    have hholds := fun p k => holds_putEdge d path p unit edge k
    constructor
    case assigned =>
      refine ⟨fun p id ho => h.assigned.owner p id ?_, fun p id ho => h.assigned.kind p id ?_,
        fun p k hk hh => ?_⟩
      · rwa [owns_withUnit] at ho ⊢
      · rwa [owns_withUnit] at ho ⊢
      · rcases (hholds p k).mp hh with hh | ⟨rfl, rfl⟩
        · exact h.assigned.code p k hk hh
        · -- Both ends pass the check, and the code is owned by somebody.
          have hcode : unit.nodes.contains edge.key.code = true ∨
              d.book.nodeUnit.contains edge.key.code = false := by
            have hends := Bool.and_eq_true_iff.mp hown
            have hcheck := ((edge.key.forall_ends fun id =>
              (unit.nodes.contains id || !d.book.nodeUnit.contains id) = true).mp hends).2
            simpa using hcheck
          rcases hcode with hcode | hcode
          · refine h.assigned.owner path _ ?_
            rw [owns_withUnit, if_pos rfl]
            exact hcode
          · exact absurd ((Maps.contains_eq_false_iff _ _).mp hcode) (hclaimed hk)
    case put =>
      intro k
      have hold : d.plan.upsertEdges.contains k = true ↔ ∃ p ∈ paths, _ := h.put k
      refine (hput k).trans ?_
      rw [hold]
      constructor
      · rintro (hk | ⟨p, hp, hh⟩)
        · exact ⟨path, hpath, (hholds path k).mpr (.inr ⟨rfl, hk⟩)⟩
        · exact ⟨p, hp, (hholds p k).mpr (.inl hh)⟩
      · rintro ⟨p, hp, hh⟩
        rcases (hholds p k).mp hh with hh | ⟨-, hk⟩
        · exact .inr ⟨p, hp, hh⟩
        · exact .inl hk
    case drop =>
      intro k
      have hold : k ∈ d.plan.deleteEdges ↔
        (∃ p ∈ paths, book.Holds p k) ∧ d.plan.upsertEdges.contains k = false := h.drop k
      have hnot : (d.plan.putEdge edge).upsertEdges.contains k = false ↔
          edge.key ≠ k ∧ d.plan.upsertEdges.contains k = false := by
        simp only [← Bool.not_eq_true, hput, not_or, ne_eq]
      show k ∈ (d.plan.putEdge edge).deleteEdges ↔
        _ ∧ (d.plan.putEdge edge).upsertEdges.contains k = false
      rw [mem_deleteEdges_putEdge, hold, hnot]
      exact and_left_comm
    case others =>
      intro p hp k
      rw [hholds, or_iff_left, h.others p hp k]
      rintro ⟨rfl, -⟩
      exact hp hpath
    case kinds => exact h.kinds
    case real => exact h.real
    case deleteNodes => exact h.deleteNodes
    case retracted => exact h.retracted
    case rekinded => exact h.rekinded
  next => exact h

/-! ## All fragments -/

theorem units_foldl_addNode (path : String) (nodes : List Node) (s : Draft × UnitState) :
    (nodes.foldl (addNode path) s).1.book.units = s.1.book.units := by
  refine List.foldlRecOn (motive := fun t : Draft × UnitState => t.1.book.units = s.1.book.units)
    nodes _ rfl fun t ht node _ => ?_
  rw [addNode_eq]
  split <;> exact ht

theorem book_addShared (d : Draft) (node : Node) : (d.addShared node).book.units = d.book.units ∧
    (d.addShared node).book.nodeUnit = d.book.nodeUnit := by
  rw [addShared_eq]
  split <;> exact ⟨rfl, rfl⟩

theorem book_addEdge (s : Draft × UnitState) (edge : Edge) : (addEdge s edge).1.book = s.1.book := by
  rw [addEdge_eq]
  split <;> rfl

/-- A unit that is added changes what is remembered of itself only. -/
theorem units_addUnit (markers : List String) (d : Draft) (parsed : ParsedUnit) {q : String}
    (hq : parsed.unit.path ≠ q) : (d.addUnit markers parsed).book.units[q]? = d.book.units[q]? := by
  have hnodes := units_foldl_addNode parsed.unit.path (Fragment.build markers parsed).nodes
    (d, { hash := parsed.unit.hash })
  have hshared := List.foldlRecOn (motive := fun t : Draft => t.book.units = d.book.units)
    (Fragment.build markers parsed).shared addShared hnodes fun t ht node _ =>
      (book_addShared t node).1.trans ht
  have hedges := fun unit => List.foldlRecOn
    (motive := fun t : Draft × UnitState => t.1.book.units = d.book.units)
    (Fragment.build markers parsed).edges addEdge (b := (_, unit)) hshared fun t ht edge _ => by
      rw [book_addEdge]
      exact ht
  have hunits : (d.addUnit markers parsed).book.units =
    Std.ExtTreeMap.insert _ parsed.unit.path _ := rfl
  rw [hunits, ExtTreeMap.getElem?_insert, if_neg (by simpa using hq)]
  exact congrArg (·[q]?) (hedges _)

theorem Tracks.withRefs (h : Tracks book paths d) (refs : List Reference) :
    Tracks book paths { d with refs } :=
  ⟨h.assigned, h.put, h.drop, h.others, h.kinds, h.real, h.deleteNodes, h.retracted, h.rekinded⟩

theorem Tracks.addUnit (markers : List String) (h : Tracks book paths d) {parsed : ParsedUnit}
    (hpath : parsed.unit.path ∈ paths) (new : d.book.units[parsed.unit.path]? = none) :
    Tracks book paths (d.addUnit markers parsed) := by
  have wf := Fragment.wellFormed_build markers parsed
  obtain ⟨d₁, unit₁, hnodes, h₁, -, hclaimed⟩ := (h.begin new parsed.unit.hash).foldl_addNode
    (Fragment.build markers parsed).nodes fun node hn => (wf.owned node hn).kind
  obtain ⟨h₂, hunit₂⟩ := List.foldlRecOn
    (motive := fun t : Draft => Tracks book paths (t.withUnit parsed.unit.path unit₁) ∧
      t.book.nodeUnit = d₁.book.nodeUnit)
    (Fragment.build markers parsed).shared Draft.addShared ⟨h₁, rfl⟩ fun t ht node hn => by
      refine ⟨ht.1.addShared ?_, (book_addShared t node).2.trans ht.2⟩
      obtain ⟨key, rfl | rfl⟩ := wf.shared node hn
      · exact .inl rfl
      · exact .inr rfl
  obtain ⟨h₃, -⟩ := List.foldlRecOn
    (motive := fun s : Draft × UnitState => Tracks book paths (s.1.withUnit parsed.unit.path s.2) ∧
      s.1.book.nodeUnit = d₁.book.nodeUnit)
    (Fragment.build markers parsed).edges Draft.addEdge (b := (_, unit₁)) ⟨h₂, hunit₂⟩
    fun s hs edge he => by
      refine ⟨hs.1.addEdge hpath fun hlink => ?_, by rw [book_addEdge]; exact hs.2⟩
      obtain ⟨node, hn, hcode⟩ := (wf.edges edge he).code_mem hlink
      rw [hs.2, ← hcode]
      exact hclaimed node hn
  unfold Draft.addUnit
  dsimp only
  rw [hnodes]
  exact h₃.withRefs _

theorem Tracks.foldl_addChange (markers : List String) {changes : List UnitChange}
    (h : Tracks book paths d) (hpaths : ∀ c ∈ changes, c.path ∈ paths)
    (new : ∀ c ∈ changes, d.book.units[c.path]? = none) (hnodup : (changes.map (·.path)).Nodup) :
    Tracks book paths (changes.foldl (addChange markers) d) := by
  induction changes generalizing d with
  | nil => exact h
  | cons change rest ih =>
    obtain ⟨hpath, hpathsRest⟩ := List.forall_mem_cons.mp hpaths
    obtain ⟨hnew, hnewRest⟩ := List.forall_mem_cons.mp new
    obtain ⟨hdistinct, hnodupRest⟩ := List.nodup_cons.mp hnodup
    rw [List.foldl_cons]
    cases change with
    | remove path => exact ih h hpathsRest hnewRest hnodupRest
    | put parsed =>
      refine ih (h.addUnit markers hpath hnew) hpathsRest (fun c hc => ?_) hnodupRest
      refine (units_addUnit markers d parsed fun he => hdistinct ?_).trans (hnewRest c hc)
      exact List.mem_map.mpr ⟨c, hc, he.symm⟩

end Draft

namespace Bookkeeping

variable {book : Bookkeeping} {changes : List UnitChange}

/-- The draft has kept track when all fragments are added. -/
theorem tracks_added (assigned : book.Assigned) (markers : List String)
    (hnodup : (changes.map (·.path)).Nodup) :
    Draft.Tracks book (changes.map (·.path)) (book.added markers changes) := by
  have retracts := Draft.retracts_changed book (changes.map (·.path))
  have hpaths : ∀ c ∈ changes, c.path ∈ changes.map (·.path) := fun c hc => List.mem_map_of_mem hc
  refine (Draft.tracks_retracted assigned retracts).foldl_addChange markers hpaths (fun c hc => ?_)
    hnodup
  rw [retracts.units, if_pos (hpaths c hc)]

end Bookkeeping

namespace Draft

/-! ## The other phases -/

/-- Two drafts that agree about an edge. -/
structure SameAt (k : EdgeKey) (d d' : Draft) : Prop where
  upsertEdges : d'.plan.upsertEdges.contains k = d.plan.upsertEdges.contains k
  deleteEdges : k ∈ d'.plan.deleteEdges ↔ k ∈ d.plan.deleteEdges
  holds : ∀ p, d'.book.Holds p k ↔ d.book.Holds p k

variable {k : EdgeKey}

theorem SameAt.refl (d : Draft) : SameAt k d d := ⟨rfl, .rfl, fun _ => .rfl⟩

theorem SameAt.trans {d d' d'' : Draft} (h : SameAt k d d') (h' : SameAt k d' d'') :
    SameAt k d d'' :=
  ⟨h'.upsertEdges.trans h.upsertEdges, h'.deleteEdges.trans h.deleteEdges,
    fun p => (h'.holds p).trans (h.holds p)⟩

theorem isLink_standing (ix : NameIndex) (r : Reference) :
    (ix.standing r).key.kind.isLink = false := by
  unfold NameIndex.standing
  split <;> exact r.isLink_keyTo _ _

theorem SameAt.place (hk : k.kind.isLink = true) (d : Draft) (r : Reference) :
    SameAt k d (d.place r) := by
  have hne : (d.book.index.standing r).key ≠ k := fun he => by
    have hlink := isLink_standing d.book.index r
    rw [he, hk] at hlink
    cases hlink
  constructor
  · simp only [plan_place, ExtTreeMap.contains_eq_isSome_getElem?, get_upsertEdges_putEdge, if_neg hne]
  · rw [plan_place, mem_deleteEdges_putEdge, and_iff_right hne]
  · intro p
    rw [holds_place]
    exact or_iff_left fun h => hne h.2.1

theorem SameAt.settle (hk : k.kind.isLink = true) (d : Draft) (r : Reference) :
    SameAt k d (d.settle r) := by
  have hne : ∀ {key : EdgeKey}, key.kind.isLink = false → key ≠ k := by
    rintro key hlink rfl
    rw [hk] at hlink
    cases hlink
  have hold : r.placeholderEdge.key ≠ k := hne (r.isLink_keyTo _ _)
  have hnew : (d.book.index.standing r).key ≠ k := hne (isLink_standing _ r)
  by_cases hr : d.book.index.resolves r = true
  · constructor
    · simp only [plan_settle hr, ExtTreeMap.contains_eq_isSome_getElem?, get_upsertEdges_putEdge,
        if_neg hnew, get_upsertEdges_dropEdge, if_neg hold]
    · rw [plan_settle hr, mem_deleteEdges_putEdge, mem_deleteEdges_dropEdge, and_iff_right hnew,
        or_iff_right hold]
    · intro p
      rw [holds_settle hr, or_iff_left fun h => hnew h.2.1]
      exact and_iff_left fun h => hold h.2
  · rw [settle_eq, if_neg hr]
    exact .refl d

theorem SameAt.resolveAll (hk : k.kind.isLink = true) (d : Draft) : SameAt k d d.resolveAll :=
  resolveAll_induction (P := SameAt k d) (.refl d) (fun x r hx => hx.trans (.settle hk x r))
    fun x r hx => hx.trans (.place hk x r)

/-- An edge that is turned back into a reference is no link. -/
theorem isLink_of_mem_reopenings {g : PropertyGraph} {changed : ExtTreeSet String} {ix : NameIndex}
    {gone : List NodeId} {o : Reopening} (h : o ∈ reopenings g changed ix gone) :
    o.key.kind.isLink = false := by
  obtain ⟨id, -, hm⟩ := List.mem_flatMap.mp h
  obtain ⟨hop, -, ho⟩ := List.mem_filterMap.mp hm
  obtain ⟨unit, -, ho⟩ := Option.bind_eq_some_iff.mp ho
  split at ho
  · cases ho
  · obtain ⟨r, hr, rfl⟩ := Option.map_eq_some_iff.mp ho
    simp only [Reference.ofEdge?, Option.bind_eq_bind, Option.bind_eq_some_iff] at hr
    obtain ⟨found, hfound, -⟩ := hr
    show hop.edge.kind.isLink = false
    cases hkind : hop.edge.kind with
    | implements | triggersIncident =>
      rw [Reference.ownerOf?, hkind] at hfound
      cases hs : hop.edge.source == id <;> rw [hs] at hfound <;> cases hfound
    | _ => rfl

theorem SameAt.reopenAll {opened : List Reopening} (h : ∀ o ∈ opened, o.key ≠ k) (d : Draft) :
    SameAt k d (d.reopenAll opened) := by
  refine ⟨rfl, .rfl, fun p => ?_⟩
  refine (Bookkeeping.holds_foldl_eraseEdge opened d.book p k).trans (and_iff_left ?_)
  exact fun o ho he => h o ho he.2

end Draft

end CodeAtlas
