import CodeAtlas.Proofs.Contents
import Mathlib.Data.List.TakeDrop
import Mathlib.Data.List.TakeWhile

/-!
# The order of units does not matter

Where no call is open to doubt, a graph into which units only come in is determined by the set of
these units. Its nodes are those of the fragments, its edges are those of the fragments and one for
every reference, as the index resolves it now, and a name waits for a declaration exactly if some
reference to it is not resolved (`Tells`). None of this depends on the order in which the units came,
nor on how many came in one call.

What carries the proof is that resolution is stable. A reference that is resolved is resolved to the
same node after more units have come in (`Describes.resolve?_grown`), so that the edge which was made
for it once is still the one that would be made now.
-/

set_option autoImplicit false

namespace CodeAtlas

open Std Text

/-! ## Calls without a qualifier -/

namespace Text

theorem span_of_mem {sep : Char} {cs : List Char} (h : sep ∈ cs) :
    (cs.span (· != sep)).2 ≠ [] := by
  rw [List.span_eq_takeWhile_dropWhile]
  intro hnil
  have := List.dropWhile_eq_nil_iff.mp hnil sep h
  simp at this

/-- A name with a dot in it is cut at the dot, in small letters too. -/
theorem cutAt?_lower_of_dot {s : String} (h : '.' ∈ s.toList) : cutAt? '.' (lower s) ≠ none := by
  have hspan := span_of_mem (dot_mem_lower h)
  unfold cutAt?
  split
  next => simp
  next before heq => rw [heq] at hspan; simp at hspan

end Text

/-- A call that is not cut at a dot has no qualifier. -/
theorem Fragment.callee_of_unqualified {call : CallSite} {awaited : String}
    (h : awaited = call.qualifier.elim call.callee fun q => s!"{q}.{call.callee}")
    (hcut : cutAt? '.' (lower awaited) = none) :
    call.qualifier = none ∧ awaited = call.callee := by
  cases hq : call.qualifier with
  | none =>
    rw [hq] at h
    exact ⟨rfl, h⟩
  | some q =>
    rw [hq] at h
    have hdot : '.' ∈ awaited.toList := by
      rw [h]
      show '.' ∈ (q ++ "." ++ call.callee).toList
      simp [String.toList_append]
    exact absurd hcut (cutAt?_lower_of_dot hdot)

/-! ## Units without doubt -/

/-- Units of different paths that claim different ids and names, and of which every call without a
qualifier means a declaration of its own unit or has one unit at most to look for. -/
structure Unambiguous (markers : List String) (S : List ParsedUnit) : Prop where
  paths : (S.map (·.unit.path)).Nodup
  distinct : Distinct markers (· ∈ S)
  nonempty : ∀ p ∈ S, ∀ node ∈ (Fragment.build markers p).nodes, node.id.text ≠ ""
  single : ∀ p ∈ S, ∀ call ∈ p.outline.calls, call.qualifier = none →
    ¬ Fragment.Declares p (lower call.callee) → ∀ q ∈ S, ∀ q' ∈ S,
    Fragment.Declares q (lower call.callee) → Fragment.Declares q' (lower call.callee) → q = q'

namespace Bookkeeping.Describes

variable {markers : List String} {S : List ParsedUnit} {T T' : Contents}
  {book book' : Bookkeeping} {g g' : PropertyGraph}

/-- The module in which the calls of a unit are looked for first is the unit's own. -/
theorem context_local (hu : Unambiguous markers S) (d : Describes markers (· ∈ S) T book g)
    (d' : Describes markers (· ∈ S) T' book' g') {path : String} {p : ParsedUnit}
    (hp : T path = some p) {r : Reference} (hr : r ∈ (Fragment.build markers p).refs) {id : NodeId}
    {name : LocalName} (hc : r.context = some name.module) (h : book'.index.declOf? id = some name) :
    book.index.declOf? id = some name := by
  refine d.declOf?_of_context hu.distinct d' (d.ownRef hp hr) ?_ hc h
  intro q hq
  obtain ⟨hunit, rfl⟩ := d.known path p hp
  obtain ⟨hunit', hpath⟩ := d'.known r.unit q hq
  obtain ⟨start, starts⟩ := (Fragment.wellFormed_build markers p).refs r hr
  have hsame : q = p := List.inj_on_of_nodup_map hu.paths hunit' hunit (hpath.trans starts.unit)
  rw [hsame, starts.unit, hp]

/-- A call without a qualifier that is not declared in its own unit has one declaration at most. -/
theorem single_decl (hu : Unambiguous markers S) (d : Describes markers (· ∈ S) T book g)
    (d' : Describes markers (· ∈ S) T' book' g') {path : String} {p : ParsedUnit}
    (hp : T path = some p) {r : Reference} (hr : r ∈ (Fragment.build markers p).refs)
    (hcall : r.kind.isCall = true) (hcut : cutAt? '.' (lower r.awaited) = none)
    (hlocal : ∀ id module, r.context = some module →
      book.index.declOf? id ≠ some ⟨module, lower r.awaited⟩) {a b : NodeId}
    (ha : book'.index.Declares a (lower r.awaited)) (hb : book'.index.Declares b (lower r.awaited)) :
    a = b := by
  obtain ⟨-, hcontext, call, hc, hawaited⟩ := Fragment.call_of_ref hr hcall
  obtain ⟨hq, hcallee⟩ := Fragment.callee_of_unqualified hawaited hcut
  have hown : ¬ Fragment.Declares p (lower call.callee) := by
    intro hdecl
    obtain ⟨node, hn, hname⟩ := Fragment.exists_decl markers hdecl
    refine hlocal node.id _ hcontext ?_
    rw [d.declOf?_of_node hp hn, hname, hcallee]
  have source : ∀ {id : NodeId}, book'.index.Declares id (lower r.awaited) →
      ∃ q node, q ∈ S ∧ node ∈ (Fragment.build markers q).nodes ∧ node.id = id ∧
        (IndexEntry.ofNode node).decl =
          some ⟨(ModuleLocation.ofPath q.unit.path).id, lower call.callee⟩ := by
    intro id hid
    obtain ⟨module, hm⟩ := (d'.faithful.declares id _).mp hid
    obtain ⟨path', q, node, hq, hn, hnid, hname⟩ := d'.declares_source hm
    refine ⟨q, node, (d'.known path' q hq).1, hn, hnid, ?_⟩
    rw [hname, ← hcallee, ← (Fragment.declares_of_decl hn hname).2]
  obtain ⟨q, x, hqu, hx, rfl, hxname⟩ := source ha
  obtain ⟨q', y, hqu', hy, rfl, hyname⟩ := source hb
  have hqq := hu.single p (d.known path p hp).1 call hc hq hown q hqu q' hqu'
    (Fragment.declares_of_decl hx hxname).1 (Fragment.declares_of_decl hy hyname).1
  subst hqq
  rw [((Fragment.wellFormed_build markers q).locals x hx _ hxname).2 y hy hyname]

/-- **Resolution is stable.** -/
theorem resolve?_grown (hu : Unambiguous markers S) (d : Describes markers (· ∈ S) T book g)
    (d' : Describes markers (· ∈ S) T' book' g') (ext : book'.index.Extends book.index) {path : String}
    {p : ParsedUnit} (hp : T path = some p) {r : Reference}
    (hr : r ∈ (Fragment.build markers p).refs) {found : NodeId × NodeKind}
    (h : book.index.resolve? r = some found) : book'.index.resolve? r = some found :=
  d.faithful.resolve?_extends d'.faithful ext h
    (fun _ _ hc hid => d.context_local hu d' hp hr hc hid)
    (fun hcall hcut hlocal _ _ ha hb => d.single_decl hu d' hp hr hcall hcut hlocal ha hb)

end Bookkeeping.Describes

/-! ## Graphs into which units have only come in -/

/-- Whether one of the units is of some sort. -/
def Contents.Any (T : Contents) (P : ParsedUnit → Prop) : Prop := ∃ path p, T path = some p ∧ P p

theorem Contents.any_replace {T : Contents} {changes : List UnitChange}
    (new : Bookkeeping.Describes.New T changes) (hnodup : (changes.map (·.path)).Nodup)
    (P : ParsedUnit → Prop) :
    (T.replace changes).Any P ↔ T.Any P ∨ ∃ p, .put p ∈ changes ∧ P p := by
  constructor
  · rintro ⟨path, p, hp, h⟩
    rcases replace_cases hp with ⟨hput, -⟩ | ⟨-, hp⟩
    · exact .inr ⟨p, hput, h⟩
    · exact .inl ⟨path, p, hp, h⟩
  · rintro (⟨path, p, hp, h⟩ | ⟨p, hput, h⟩)
    · exact ⟨path, p, new.replace hp, h⟩
    · exact ⟨p.unit.path, p, replace_of_put hnodup hput, h⟩

namespace Fragment

/-- Whether an edge comes from a unit: it is one of the fragment, or the edge of a reference. -/
def Gives (markers : List String) (ix : NameIndex) (k : EdgeKey) (p : ParsedUnit) : Prop :=
  (∃ edge ∈ (build markers p).edges, edge.key = k) ∨
    ∃ r ∈ (build markers p).refs, (ix.standing r).key = k

/-- Whether a unit has a reference that is not resolved and waits under a key. -/
def Lacks (markers : List String) (ix : NameIndex) (key : PendingKey) (p : ParsedUnit) : Prop :=
  ∃ r ∈ (build markers p).refs, PendingQueue.keyOf r = key ∧ ix.resolves r = false

/-- Edges within a fragment do not lead to placeholders. -/
theorem isOpen_edge {markers : List String} {p : ParsedUnit} {edge : Edge}
    (h : edge ∈ (build markers p).edges)
    (hids : ∀ node ∈ (build markers p).nodes, node.id.isReserved = false) :
    edge.key.isOpen = false := by
  have hid : ∀ node ∈ (build markers p).nodes, node.id.isPlaceholder = false := fun node hn =>
    NodeId.isPlaceholder_eq_false (hids node hn)
  cases (wellFormed_build markers p).edges edge h with
  | declares module decl hm _ hd _ => simp [EdgeKey.isOpen, Edge.key, ownedEdge, hid _ hm, hid _ hd]
  | implements key decl _ hd _ => simp [EdgeKey.isOpen, Edge.key, ownedEdge, hid _ hd]
  | triggers key decl _ hd _ => simp [EdgeKey.isOpen, Edge.key, ownedEdge, hid _ hd]

end Fragment

theorem PropertyGraph.realNodes_eq {g g' : PropertyGraph}
    (h : ∀ (id : NodeId) node, node.kind ≠ .unknown →
      (g.nodes[id]? = some node ↔ g'.nodes[id]? = some node)) :
    (g.nodes.filter fun _ node => node.kind ≠ .unknown) =
      g'.nodes.filter fun _ node => node.kind ≠ .unknown := by
  refine ExtTreeMap.ext_getElem? fun id => ?_
  ext node
  rw [ExtTreeMap.getElem?_filter', ExtTreeMap.getElem?_filter', Option.filter_eq_some_iff,
    Option.filter_eq_some_iff]
  exact and_congr_left fun real => h id node (by simpa using real)

namespace Bookkeeping

/-- A graph that is determined by the units it was made of. -/
structure Grown (markers : List String) (units : ParsedUnit → Prop) (T : Contents)
    (book : Bookkeeping) (g : PropertyGraph) : Prop extends Describes markers units T book g where
  shared : ∀ (id : NodeId) node,
    (g.nodes[id]? = some node ∧ node.unit? = none ∧ node.kind ≠ .unknown) ↔
      node.id = id ∧ T.Any fun p => node ∈ (Fragment.build markers p).shared
  edges : ∀ k : EdgeKey, g.edges.contains k = true ↔ T.Any (Fragment.Gives markers book.index k)
  waits : ∀ key : PendingKey, book.pending.waiting.contains key = true ↔
    T.Any (Fragment.Lacks markers book.index key)

theorem grown_empty (markers : List String) (units : ParsedUnit → Prop) :
    Grown markers units (fun _ => none) {} {} where
  toDescribes := describes_empty markers units
  shared id node := by simp [Contents.Any]
  edges k := by simp [Contents.Any]
  waits key := by simp [Contents.Any]

namespace Grown

variable {markers : List String} {S : List ParsedUnit} {T : Contents} {book : Bookkeeping}
  {g g' : PropertyGraph} {changes : List UnitChange} {puts : List ParsedUnit}

/-! ### References -/

theorem extends_grown (d : Describes markers (· ∈ S) T book g) (new : Describes.New T changes)
    (c : Planned markers book g changes puts) :
    (book.added markers changes).book.index.Extends book.index := fun id entry he =>
  (c.keepsAt (d.not_old new id)).entries entry he

/-- A reference that is not resolved waits, if not with its own spelling. -/
theorem waiting_of_unresolved (t : Grown markers (· ∈ S) T book g) {path : String} {p : ParsedUnit}
    (hp : T path = some p) {r : Reference} (hr : r ∈ (Fragment.build markers p).refs)
    (hres : book.index.resolves r = false) :
    ∃ s, book.pending.waiting[PendingQueue.keyOf r]? = some s :=
  (Maps.contains_iff _ _).mp ((t.waits _).mpr ⟨path, p, hp, r, hr, rfl, hres⟩)

/-- A waiting reference shares its fate with every reference that has its key. -/
theorem standing_waiting (d : Describes markers (· ∈ S) T book g) (new : Describes.New T changes)
    (c : Planned markers book g changes puts) {path : String} {p : ParsedUnit}
    (hp : T path = some p) {r s : Reference} (hr : r ∈ (Fragment.build markers p).refs)
    (hs : book.pending.waiting[PendingQueue.keyOf s]? = some s)
    (hkey : PendingQueue.keyOf s = PendingQueue.keyOf r) :
    (book.added markers changes).book.index.resolves s =
        (book.added markers changes).book.index.resolves r ∧
      ((book.added markers changes).book.index.standing s).key =
        ((book.added markers changes).book.index.standing r).key := by
  have hsunit := d.not_mem_of_nodeUnit new (d.mirrors.waiting _ s hs).1.unit
  have hrown := d.ownRef hp hr
  exact (c.ownRef_waiting hs hsunit).standing_key_eq
    (c.ownRef_added hrown (d.not_mem_of_nodeUnit new hrown.unit)) hkey

/-- The edge of a resolved reference does not move. -/
theorem standing_stable (hu : Unambiguous markers S) (d : Describes markers (· ∈ S) T book g)
    (new : Describes.New T changes) (c : Planned markers book g changes puts)
    (hunits : ∀ p, .put p ∈ changes → p ∈ S)
    (hw : (book.draftOn g markers changes).plan.written g = .ok g') {path : String} {p : ParsedUnit}
    (hp : T path = some p) {r : Reference} (hr : r ∈ (Fragment.build markers p).refs)
    (hres : book.index.resolves r = true) :
    (book.added markers changes).book.index.resolves r = true ∧
      (book.added markers changes).book.index.standing r = book.index.standing r := by
  obtain ⟨⟨t, kind⟩, hfound⟩ := Option.isSome_iff_exists.mp hres
  have hindex := c.ends.same.index
  have hstays := d.resolve?_grown hu (d.written hu.distinct c hunits hw)
    (by rw [hindex]; exact extends_grown d new c) hp hr hfound
  rw [hindex] at hstays
  refine ⟨Option.isSome_iff_exists.mpr ⟨_, hstays⟩, ?_⟩
  rw [NameIndex.standing_of_resolve? hstays, NameIndex.standing_of_resolve? hfound]

/-! ### Edges -/

/-- An edge of a graph that grows was planned for a unit that is there. -/
theorem gives_of_edge (hu : Unambiguous markers S) (t : Grown markers (· ∈ S) T book g)
    (new : Describes.New T changes) (c : Planned markers book g changes puts)
    (hunits : ∀ p, .put p ∈ changes → p ∈ S)
    (hw : (book.draftOn g markers changes).plan.written g = .ok g') {k : EdgeKey} {edge : Edge}
    (h : g'.edges[k]? = some edge) :
    T.Any (Fragment.Gives markers (book.added markers changes).book.index k) ∨
      ∃ p, .put p ∈ changes ∧ Fragment.Gives markers (book.added markers changes).book.index k p := by
  have d := t.toDescribes
  rcases (c.edges_iff hw).mp h with hplan | kept
  · rcases c.upsertEdges_cases hplan with hown | ⟨s, hs, rfl, rfl⟩
    · obtain ⟨hkey, -, p, hp, hf⟩ := c.adds.edges k edge hown
      exact .inr ⟨p, (c.mem_puts p).mp hp, .inl ⟨edge, hf, hkey⟩⟩
    · rcases d.atHand_cases new c hs with hs | ⟨p, hp, hf, -⟩
      · -- A reference that waited stands for one of a unit.
        obtain ⟨hwait, -⟩ := (d.mem_settled new c).mp hs
        obtain ⟨path, p, hp, r, hr, hkey, -⟩ :=
          (t.waits _).mp ((Maps.contains_iff _ _).mpr ⟨s, hwait⟩)
        exact .inl ⟨path, p, hp, .inr ⟨r, hr,
          (standing_waiting d new c hp hr hwait hkey.symm).2.symm⟩⟩
      · exact .inr ⟨p, hp, .inr ⟨s, hf, rfl⟩⟩
  · obtain ⟨path, p, hp, hgives | ⟨r, hr, hkey⟩⟩ :=
      (t.edges k).mp ((Maps.contains_iff _ _).mpr ⟨edge, kept.found⟩)
    · exact .inl ⟨path, p, hp, .inl hgives⟩
    · refine .inl ⟨path, p, hp, .inr ⟨r, hr, ?_⟩⟩
      cases hres : book.index.resolves r with
      | true => rw [(standing_stable hu d new c hunits hw hp hr hres).2, hkey]
      | false =>
        obtain ⟨s, hwait⟩ := t.waiting_of_unresolved hp hr hres
        have hsr := d.mirrors.keyed _ s hwait
        rw [← hsr] at hwait
        have hsame := standing_waiting d new c hp hr hwait hsr
        have hstill : (book.added markers changes).book.index.resolves r = false := by
          rw [← hsame.1]
          cases hs : (book.added markers changes).book.index.resolves s with
          | false => rfl
          | true =>
            refine absurd ?_ (kept.undropped s ((d.mem_settled new c).mpr ⟨hwait, hs⟩))
            rw [Reference.placeholderKey_of_keyOf hsr, ← hkey, NameIndex.standing_of_not_resolves hres]
        rw [NameIndex.standing_of_not_resolves hstill, ← hkey, NameIndex.standing_of_not_resolves hres]

/-- What a unit gives stays in a graph that grows. -/
theorem edge_of_gives (hu : Unambiguous markers S) (t : Grown markers (· ∈ S) T book g)
    (new : Describes.New T changes) (c : Planned markers book g changes puts)
    (hunits : ∀ p, .put p ∈ changes → p ∈ S)
    (hw : (book.draftOn g markers changes).plan.written g = .ok g') {k : EdgeKey}
    (h : T.Any (Fragment.Gives markers (book.added markers changes).book.index k)) :
    g'.edges.contains k = true := by
  have d := t.toDescribes
  obtain ⟨path, p, hp, ⟨edge, he, rfl⟩ | ⟨r, hr, rfl⟩⟩ := h
  · refine d.contains_of_closed new c hw ((t.edges _).mpr ⟨path, p, hp, .inl ⟨edge, he, rfl⟩⟩) ?_
    exact Fragment.isOpen_edge he (hu.distinct.unreserved p (d.known path p hp).1)
  · cases hres : book.index.resolves r with
    | true =>
      rw [(standing_stable hu d new c hunits hw hp hr hres).2]
      refine d.contains_of_closed new c hw ((t.edges _).mpr ⟨path, p, hp, .inr ⟨r, hr, rfl⟩⟩) ?_
      rw [d.mirrors.real.isOpen_standing ((d.ownRef hp hr).isPlaceholder_owner d.mirrors.unreserved),
        hres]
      rfl
    | false =>
      obtain ⟨s, hwait⟩ := t.waiting_of_unresolved hp hr hres
      have hsr := d.mirrors.keyed _ s hwait
      rw [← hsr] at hwait
      have hsame := standing_waiting d new c hp hr hwait hsr
      rw [← hsame.2]
      cases hs : (book.added markers changes).book.index.resolves s with
      | true =>
        exact c.contains_of_atHand hw
          (List.mem_append.mpr (.inl ((d.mem_settled new c).mpr ⟨hwait, hs⟩)))
      | false =>
        have hsunit := d.not_mem_of_nodeUnit new (d.mirrors.waiting _ s hwait).1.unit
        rw [NameIndex.standing_of_not_resolves hs]
        exact (Maps.contains_iff _ _).mpr
          ⟨_, (c.edges_iff hw).mpr (.inr (c.kept_waiting hwait hsunit hs))⟩

theorem mem_refs_of_put (hu : Unambiguous markers S) (d : Describes markers (· ∈ S) T book g)
    (c : Planned markers book g changes puts) (hunits : ∀ p, .put p ∈ changes → p ∈ S)
    {p : ParsedUnit} (hput : .put p ∈ changes) {r : Reference}
    (hr : r ∈ (Fragment.build markers p).refs) : r ∈ (book.added markers changes).refs := by
  have hp := (c.mem_puts p).mpr hput
  obtain ⟨node, starts⟩ := (Fragment.wellFormed_build markers p).refs r hr
  refine c.complete.refs p hp r hr ?_
  rw [← starts.owner]
  exact c.adds.nodeUnit_of_accepted starts.mem (d.accepted hu.distinct c hunits hp starts.mem)

/-- All that a new unit gives is in the graph. -/
theorem edge_of_put (hu : Unambiguous markers S) (d : Describes markers (· ∈ S) T book g)
    (c : Planned markers book g changes puts) (hunits : ∀ p, .put p ∈ changes → p ∈ S)
    (hw : (book.draftOn g markers changes).plan.written g = .ok g') {k : EdgeKey} {p : ParsedUnit}
    (hput : .put p ∈ changes)
    (h : Fragment.Gives markers (book.added markers changes).book.index k p) :
    g'.edges.contains k = true := by
  have hp := (c.mem_puts p).mpr hput
  have howner : ∀ node ∈ (Fragment.build markers p).nodes,
      (book.added markers changes).book.nodeUnit[node.id]? = some p.unit.path := fun node hn =>
    c.adds.nodeUnit_of_accepted hn (d.accepted hu.distinct c hunits hp hn)
  rcases h with ⟨edge, he, rfl⟩ | ⟨r, hr, rfl⟩
  · obtain ⟨new, hnew⟩ := (Maps.contains_iff _ _).mp
      (c.complete.edges p hp edge he fun node hn _ => howner node hn)
    refine (Maps.contains_iff _ _).mpr ⟨new, (c.edges_iff hw).mpr (.inl ?_)⟩
    rw [c.ends.upsertEdges, hnew]
    rfl
  · have hrefs := mem_refs_of_put hu d c hunits hput hr
    exact c.contains_of_atHand hw
      (List.mem_append.mpr (.inr (List.mem_append.mpr (.inl hrefs))))

/-! ### The queue -/

theorem waits_grown (hu : Unambiguous markers S) (t : Grown markers (· ∈ S) T book g)
    (new : Describes.New T changes) (c : Planned markers book g changes puts)
    (hunits : ∀ p, .put p ∈ changes → p ∈ S)
    (hw : (book.draftOn g markers changes).plan.written g = .ok g') (key : PendingKey) :
    (book.draftOn g markers changes).book.pending.waiting.contains key = true ↔
      T.Any (Fragment.Lacks markers (book.added markers changes).book.index key) ∨
        ∃ p, .put p ∈ changes ∧
          Fragment.Lacks markers (book.added markers changes).book.index key p := by
  have d := t.toDescribes
  rw [Maps.contains_iff]
  constructor
  · rintro ⟨s, hs⟩
    rcases c.waiting_iff.mp hs with ⟨hwait, -, hres⟩ | hfind
    · have hkey := d.mirrors.keyed key s hwait
      subst hkey
      obtain ⟨path, p, hp, r, hr, hkey, -⟩ :=
        (t.waits _).mp ((Maps.contains_iff _ _).mpr ⟨s, hwait⟩)
      refine .inl ⟨path, p, hp, r, hr, hkey, ?_⟩
      rw [← (standing_waiting d new c hp hr hwait hkey.symm).1, hres]
    · have hun := List.mem_of_find?_eq_some hfind
      have hkey : PendingQueue.keyOf s = key := by simpa using List.find?_some hfind
      have hres := (Planned.mem_unresolved.mp hun).2
      rcases d.atHand_cases new c (Planned.mem_atHand_of_unresolved hun) with hs | ⟨p, hp, hf, -⟩
      · rw [((d.mem_settled new c).mp hs).2] at hres
        simp at hres
      · exact .inr ⟨p, hp, s, hf, hkey, hres⟩
  · rintro (⟨path, p, hp, r, hr, rfl, hres⟩ | ⟨p, hput, r, hr, rfl, hres⟩)
    · have hbefore : book.index.resolves r = false := by
        cases hb : book.index.resolves r with
        | false => rfl
        | true =>
          rw [(standing_stable hu d new c hunits hw hp hr hb).1] at hres
          simp at hres
      obtain ⟨s, hwait⟩ := t.waiting_of_unresolved hp hr hbefore
      have hsr := d.mirrors.keyed _ s hwait
      have hsunit := d.not_mem_of_nodeUnit new (d.mirrors.waiting _ s hwait).1.unit
      refine ⟨s, c.waiting_iff.mpr (.inl ⟨hwait, hsunit, ?_⟩)⟩
      rw [← hsr] at hwait
      rw [(standing_waiting d new c hp hr hwait hsr).1, hres]
    · have hun : r ∈ Planned.unresolved markers book g changes :=
        Planned.mem_unresolved.mpr ⟨List.mem_append.mpr
          (.inl (mem_refs_of_put hu d c hunits hput hr)), hres⟩
      obtain ⟨s, hs, -, hkey⟩ := Planned.find_unresolved hun
      exact ⟨s, c.waiting_iff.mpr (.inr hs)⟩

/-! ### Nodes that belong to no unit -/

theorem shared_grown (t : Grown markers (· ∈ S) T book g) (new : Describes.New T changes)
    (c : Planned markers book g changes puts)
    (hw : (book.draftOn g markers changes).plan.written g = .ok g') (id : NodeId) (node : Node) :
    (g'.nodes[id]? = some node ∧ node.unit? = none ∧ node.kind ≠ .unknown) ↔
      node.id = id ∧ (T.Any (fun p => node ∈ (Fragment.build markers p).shared) ∨
        ∃ p, .put p ∈ changes ∧ node ∈ (Fragment.build markers p).shared) := by
  have d := t.toDescribes
  have m' := c.mirrors_written hw
  constructor
  · rintro ⟨hn, hu, hreal⟩
    refine ⟨m'.node_id id node hn, ?_⟩
    have hawaits : ¬ (book.draftOn g markers changes).book.pending.Awaits id := by
      intro ha
      obtain ⟨name, hname⟩ := c.node_awaited hw ha
      rw [hn] at hname
      rw [Option.some.inj hname] at hreal
      simp [Node.placeholder] at hreal
    rcases (c.node_unawaited hw hawaits).mp hn with hacc | ⟨-, -, hg⟩
    · obtain ⟨p, hp, hf | hf⟩ := c.adds.source id node hacc
      · rw [((Fragment.wellFormed_build markers p).owned node hf).unit] at hu
        simp at hu
      · exact .inr ⟨p, (c.mem_puts p).mp hp, hf⟩
    · exact .inl ((t.shared id node).mp ⟨hg, hu, hreal⟩).2
  · rintro ⟨rfl, hany⟩
    obtain ⟨p, key, hshared, hf⟩ : ∃ p key, (node = Fragment.requirementNode key ∨
        node = Fragment.incidentNode key) ∧ node ∈ (Fragment.build markers p).shared := by
      rcases hany with ⟨_, p, _, hf⟩ | ⟨p, _, hf⟩ <;>
        exact ⟨p, _, ((Fragment.wellFormed_build markers p).shared node hf).choose_spec, hf⟩
    obtain ⟨hu, hreal, hreserved, hph⟩ := Fragment.shared_props hshared
    refine ⟨?_, hu, hreal⟩
    have hindex : (book.draftOn g markers changes).book.index.contains node.id = true := by
      rw [c.ends.same.index]
      rcases hany with hany | ⟨q, hput, hf⟩
      · obtain ⟨hg, -, -⟩ := (t.shared node.id node).mpr ⟨rfl, hany⟩
        exact (c.keepsAt (d.not_old new node.id)).contains
          ((Maps.contains_iff _ _).mpr ⟨_, d.mirrors.entry_of_node hg hreal⟩)
      · exact c.complete.shared q ((c.mem_puts q).mpr hput) node hf
    -- The node under this id belongs to no unit either, and the id tells which it is.
    obtain ⟨entry, he⟩ := (Maps.contains_iff _ _).mp hindex
    obtain ⟨other, ho, horeal, -⟩ := m'.node_of_entry he
    have hounit : other.unit? = none := by
      cases hu' : other.unit? with
      | none => rfl
      | some path =>
        have hid := m'.unreserved node.id path (by rw [m'.nodeUnit, ho]; exact hu')
        rw [hreserved] at hid
        simp at hid
    rcases m'.unowned node.id other ho hounit with ⟨name, rfl⟩ | ⟨key', hshared'⟩
    · simp [Node.placeholder] at horeal
    · rw [ho, Fragment.eq_of_shared hshared' hshared (m'.node_id _ _ ho)]

/-- **A graph that grows is determined by its units.** -/
theorem written (hu : Unambiguous markers S) (t : Grown markers (· ∈ S) T book g)
    (new : Describes.New T changes) (c : Planned markers book g changes puts)
    (hunits : ∀ p, .put p ∈ changes → p ∈ S)
    (hw : (book.draftOn g markers changes).plan.written g = .ok g') :
    Grown markers (· ∈ S) (T.replace changes) (book.draftOn g markers changes).book g' where
  toDescribes := t.toDescribes.written hu.distinct c hunits hw
  shared id node := by
    rw [Contents.any_replace new c.wellFormed.distinct]
    exact t.shared_grown new c hw id node
  edges k := by
    rw [Contents.any_replace new c.wellFormed.distinct, c.ends.same.index]
    constructor
    · intro h
      obtain ⟨edge, he⟩ := (Maps.contains_iff _ _).mp h
      exact t.gives_of_edge hu new c hunits hw he
    · rintro (hold | ⟨p, hput, hgives⟩)
      · exact t.edge_of_gives hu new c hunits hw hold
      · exact edge_of_put hu t.toDescribes c hunits hw hput hgives
  waits key := by
    rw [Contents.any_replace new c.wellFormed.distinct, c.ends.same.index]
    exact t.waits_grown hu new c hunits hw key

/-! ### One graph for the same units -/

variable {book' : Bookkeeping}

theorem node_iff (t : Grown markers (· ∈ S) T book g) (t' : Grown markers (· ∈ S) T book' g')
    {id : NodeId} {node : Node} (real : node.kind ≠ .unknown) :
    g.nodes[id]? = some node ↔ g'.nodes[id]? = some node := by
  cases hu : node.unit? with
  | some path =>
    have h := (t.nodes id node path).trans (t'.nodes id node path).symm
    simpa [hu] using h
  | none =>
    have h := (t.shared id node).trans (t'.shared id node).symm
    simpa [hu, real] using h

theorem nodes_eq (t : Grown markers (· ∈ S) T book g) (t' : Grown markers (· ∈ S) T book' g') :
    (g.nodes.filter fun _ node => node.kind ≠ .unknown) =
      g'.nodes.filter fun _ node => node.kind ≠ .unknown :=
  PropertyGraph.realNodes_eq fun _ _ real => t.node_iff t' real

theorem index_eq (t : Grown markers (· ∈ S) T book g) (t' : Grown markers (· ∈ S) T book' g') :
    book.index = book'.index :=
  t.toDescribes.index_eq t'.toDescribes fun _ _ real => t.node_iff t' real

theorem edges_eq (t : Grown markers (· ∈ S) T book g) (t' : Grown markers (· ∈ S) T book' g')
    (k : EdgeKey) : g.edges.contains k = g'.edges.contains k := by
  rw [Bool.eq_iff_iff, t.edges, t'.edges, t.index_eq t']

theorem waits_eq (t : Grown markers (· ∈ S) T book g) (t' : Grown markers (· ∈ S) T book' g')
    (key : PendingKey) : book.pending.waiting.contains key = book'.pending.waiting.contains key := by
  rw [Bool.eq_iff_iff, t.waits, t'.waits, t.index_eq t']

theorem placeholders_eq (m : book.Mirrors g) (m' : book'.Mirrors g')
    (h : ∀ id, book.pending.Awaits id ↔ book'.pending.Awaits id) :
    (g.nodes.filter fun _ node => node.kind = .unknown).keys =
      (g'.nodes.filter fun _ node => node.kind = .unknown).keys := by
  have hcontains : ∀ (g : PropertyGraph) (id : NodeId),
      (g.nodes.filter fun _ node => node.kind = .unknown).contains id = true ↔
        ∃ node, g.nodes[id]? = some node ∧ node.kind = .unknown := by
    intro g id
    rw [Maps.contains_iff]
    simp only [ExtTreeMap.getElem?_filter', Option.filter_eq_some_iff, decide_eq_true_eq]
  refine Maps.keys_eq_iff.mpr fun id => ?_
  rw [Bool.eq_iff_iff, hcontains, hcontains, m.placeholders, m'.placeholders, h]

end Grown

end Bookkeeping

namespace Builder

/-! ## Runs -/

/-- Takes units in call by call; the first failure ends it. -/
def ingestAll (b : Builder) (g : PropertyGraph) :
    List (List ParsedUnit) → Except GraphError (Builder × PropertyGraph)
  | [] => .ok (b, g)
  | batch :: rest =>
    match b.ingest batch g with
    | (.ok (_, b'), g') => ingestAll b' g' rest
    | (.error e, _) => .error e

variable {markers : List String} {S : List ParsedUnit} {T : Contents} {b : Builder}
  {g : PropertyGraph}

/-- New units of different paths are all taken in. -/
theorem put_mem_changesOf (d : b.book.Describes markers (· ∈ S) T g) {batch : List ParsedUnit}
    (hnodup : (batch.map (·.unit.path)).Nodup) {p : ParsedUnit} (hp : p ∈ batch)
    (hnew : T p.unit.path = none) : .put p ∈ b.changesOf batch := by
  refine mem_changesOf.mpr ⟨p, rfl, ?_, ?_⟩
  · exact Maps.get_foldl_insert_of_mem (fun p : ParsedUnit => p.unit.path) batch ∅ p hp
      fun q hq h => List.inj_on_of_nodup_map hnodup hq hp h
  · rw [d.hashes, hnew]
    simp

/-- A call with new units succeeds, and the graph is again determined by its units. -/
theorem ingest_new (hu : Unambiguous markers S) (t : b.book.Grown markers (· ∈ S) T g)
    (hmarkers : b.markers = markers) {batch : List ParsedUnit} (hbatch : ∀ p ∈ batch, p ∈ S)
    (hnodup : (batch.map (·.unit.path)).Nodup) (hnew : ∀ p ∈ batch, T p.unit.path = none) :
    ∃ δ b' g' T', b.ingest batch g = (.ok (δ, b'), g') ∧ b'.markers = markers ∧
      b'.book.Grown markers (· ∈ S) T' g' ∧
      ∀ path p, T' path = some p ↔ T path = some p ∨ (p ∈ batch ∧ p.unit.path = path) := by
  have d := t.toDescribes
  by_cases hc : b.changesOf batch = []
  · refine ⟨{}, b, g, T, ?_, hmarkers, t, fun path p => ⟨.inl, fun h => h.resolve_right ?_⟩⟩
    · unfold ingest
      rw [hc]
      rfl
    · rintro ⟨hp, -⟩
      have hput := put_mem_changesOf d hnodup hp (hnew p hp)
      rw [hc] at hput
      simp at hput
  · have hputs : ∀ p, .put p ∈ b.changesOf batch → p ∈ S := fun p hp =>
      hbatch p (mem_of_put_mem_changesOf hp)
    have new : Bookkeeping.Describes.New T (b.changesOf batch) := by
      intro change hchange
      obtain ⟨p, rfl, -⟩ := mem_changesOf.mp hchange
      exact ⟨p, rfl, hnew p (mem_of_put_mem_changesOf hchange)⟩
    obtain ⟨puts, c⟩ := d.mirrors.planned
      (hu.distinct.unreserved.changes (nodup_changesOf b batch) hputs)
    subst hmarkers
    obtain ⟨δ, g', hw, hrun⟩ := apply_planned c fun p hp => hu.nonempty p (hputs p hp)
    rw [← ingest_eq_apply hc] at hrun
    have grown := t.written hu new c hputs hw
    refine ⟨δ, _, g', T.replace (b.changesOf batch), hrun, rfl, ?_, ?_⟩
    · -- Reads the book off the new builder, so that the drafts need not be compared by computation.
      dsimp only
      exact grown
    intro path p
    constructor
    · intro h
      rcases Contents.replace_cases h with ⟨hput, hpath⟩ | ⟨-, hp⟩
      · exact .inr ⟨mem_of_put_mem_changesOf hput, hpath⟩
      · exact .inl hp
    · rintro (hp | ⟨hp, rfl⟩)
      · exact new.replace hp
      · exact Contents.replace_of_put (nodup_changesOf b batch)
          (put_mem_changesOf d hnodup hp (hnew p hp))

theorem ingestAll_new (hu : Unambiguous markers S) {batches : List (List ParsedUnit)}
    (t : b.book.Grown markers (· ∈ S) T g) (hmarkers : b.markers = markers)
    (hbatches : ∀ p ∈ batches.flatten, p ∈ S)
    (hnodup : (batches.flatten.map (·.unit.path)).Nodup)
    (hnew : ∀ p ∈ batches.flatten, T p.unit.path = none) :
    ∃ b' g' T', b.ingestAll g batches = .ok (b', g') ∧ b'.book.Grown markers (· ∈ S) T' g' ∧
      ∀ path p, T' path = some p ↔ T path = some p ∨ (p ∈ batches.flatten ∧ p.unit.path = path) := by
  induction batches generalizing b g T with
  | nil => exact ⟨b, g, T, rfl, t, by simp⟩
  | cons batch rest ih =>
    rw [List.flatten_cons] at hbatches hnodup hnew
    rw [List.map_append, List.nodup_append] at hnodup
    obtain ⟨hfirst, hrest, hapart⟩ := hnodup
    obtain ⟨δ, b₁, g₁, T₁, hrun, hmarkers₁, t₁, hT₁⟩ := ingest_new hu t hmarkers
      (fun p hp => hbatches p (List.mem_append_left _ hp)) hfirst
      (fun p hp => hnew p (List.mem_append_left _ hp))
    have hnew₁ : ∀ p ∈ rest.flatten, T₁ p.unit.path = none := by
      intro p hp
      cases hq : T₁ p.unit.path with
      | none => rfl
      | some q =>
        rcases (hT₁ _ q).mp hq with hold | ⟨hqb, hpath⟩
        · rw [hnew p (List.mem_append_right _ hp)] at hold
          simp at hold
        · exact absurd hpath (hapart _ (List.mem_map.mpr ⟨q, hqb, rfl⟩) _
            (List.mem_map.mpr ⟨p, hp, rfl⟩))
    obtain ⟨b₂, g₂, T₂, hrun₂, t₂, hT₂⟩ := ih t₁ hmarkers₁
      (fun p hp => hbatches p (List.mem_append_right _ hp)) hrest hnew₁
    refine ⟨b₂, g₂, T₂, ?_, t₂, fun path p => ?_⟩
    · simp only [ingestAll, hrun]
      exact hrun₂
    · rw [hT₂, hT₁, List.flatten_cons, List.mem_append]
      tauto

/-- What two builders and their graphs have in common if they differ at most in how names that wait
are spelt and in what edges remember. -/
structure SameView (a b : Builder × PropertyGraph) : Prop where
  nodes : (a.2.nodes.filter fun _ node => node.kind ≠ .unknown) =
    b.2.nodes.filter fun _ node => node.kind ≠ .unknown
  placeholders : (a.2.nodes.filter fun _ node => node.kind = .unknown).keys =
    (b.2.nodes.filter fun _ node => node.kind = .unknown).keys
  edges : a.2.edges.keys = b.2.edges.keys
  unresolved : a.1.unresolved.map (fun u => (u.placeholder, u.references)) =
    b.1.unresolved.map fun u => (u.placeholder, u.references)

/-- **The order of units does not matter.** Units without doubt can be taken in in any order and in
calls of any size. All calls succeed, and in the end there are the same nodes, the same placeholders
and the same edges, and the same names wait for the same number of references. -/
theorem ingest_order_irrelevant (policy : RetryPolicy) (hu : Unambiguous markers S)
    {first second : List (List ParsedUnit)} (hfirst : first.flatten.Perm S)
    (hsecond : second.flatten.Perm S) :
    ∃ b₁ g₁ b₂ g₂, ingestAll { markers, policy } {} first = .ok (b₁, g₁) ∧
      ingestAll { markers, policy } {} second = .ok (b₂, g₂) ∧ SameView (b₁, g₁) (b₂, g₂) := by
  have run : ∀ batches : List (List ParsedUnit), batches.flatten.Perm S →
      ∃ b g T, ingestAll { markers, policy } {} batches = .ok (b, g) ∧
        b.book.Grown markers (· ∈ S) T g ∧
        ∀ path p, T path = some p ↔ p ∈ S ∧ p.unit.path = path := by
    intro batches hperm
    obtain ⟨b, g, T, hrun, t, hT⟩ := ingestAll_new (b := { markers, policy }) hu
      (Bookkeeping.grown_empty markers (· ∈ S)) rfl (fun p hp => hperm.mem_iff.mp hp)
      ((hperm.map _).nodup_iff.mpr hu.paths) (fun _ _ => rfl)
    refine ⟨b, g, T, hrun, t, fun path p => ?_⟩
    rw [hT, hperm.mem_iff]
    simp
  obtain ⟨b₁, g₁, T₁, hrun₁, t₁, hT₁⟩ := run first hfirst
  obtain ⟨b₂, g₂, T₂, hrun₂, t₂, hT₂⟩ := run second hsecond
  have hT : T₁ = T₂ := by
    funext path
    ext p
    rw [hT₁, hT₂]
  subst hT
  refine ⟨b₁, g₁, b₂, g₂, hrun₁, hrun₂, t₁.nodes_eq t₂, ?_, ?_, ?_⟩
  · exact Bookkeeping.Grown.placeholders_eq t₁.mirrors t₂.mirrors
      (PendingQueue.awaits_of_keys (t₁.waits_eq t₂))
  · exact Maps.keys_eq_iff.mpr (t₁.edges_eq t₂)
  · exact PendingQueue.counts_eq_of_keys t₁.mirrors.keyed t₂.mirrors.keyed (t₁.waits_eq t₂)

/-- A caller and what it calls, the caller first or both at once. -/
theorem ingest_order_irrelevant_sample :
    ∃ b₁ g₁ b₂ g₂,
      ingestAll { markers := [] } {} [[sampleUnit "u.bsl" "f" 1 ["g"]], [sampleUnit "b.bsl" "g" 2 []]] =
        .ok (b₁, g₁) ∧
      ingestAll { markers := [] } {} [[sampleUnit "b.bsl" "g" 2 [], sampleUnit "u.bsl" "f" 1 ["g"]]] =
        .ok (b₂, g₂) ∧ SameView (b₁, g₁) (b₂, g₂) := by
  let S := [sampleUnit "u.bsl" "f" 1 ["g"], sampleUnit "b.bsl" "g" 2 []]
  have distinct : Distinct [] (· ∈ S) := .of_forall (by decide +kernel) (by decide +kernel)
  have unambiguous : Unambiguous [] S :=
    ⟨by decide +kernel, distinct, by decide +kernel, by decide +kernel⟩
  exact ingest_order_irrelevant {} unambiguous (.refl _) (List.Perm.swap _ _ _)

end Builder

end CodeAtlas
