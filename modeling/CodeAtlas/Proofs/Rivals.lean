import CodeAtlas.Proofs.Books
import CodeAtlas.Proofs.Contents

/-!
# Edges that were right once

When a reference is resolved it becomes an edge, and the edge stays until one of its ends goes or its
unit changes. Nobody asks again whether the name still means the same. So how far can an edge be
trusted later on?

There are four ways to a target (`NameIndex.Found`). An object is found by its id, a qualified call
through a common module, any other call in the module of the caller or else anywhere. Over units that
claim different ids and names all four stay open once they are: a node keeps its names as long as it
keeps its id and kind, for ids say all there is to know about names, and what the caller's own module
declares changes only together with the caller's unit, whose edges are then made anew
(`Grounded.written`).

But the last way can be contested. A call that found the only declaration of a name somewhere is not
told when another unit declares the same name, or when one of two declarations is exported or ceases to
be. Then the name has become ambiguous, a new call like it would wait, and the edge stays. That is the
only thing that can go wrong: an edge is the one that would be made now exactly if its target has no
such rival (`resolve?_iff_forall_not_rival`).
-/

set_option autoImplicit false

namespace CodeAtlas

open Std Text

/-! ## Ways to a target -/

namespace NameIndex

variable {ix : NameIndex} {r : Reference} {t : NodeId}

/-- How a reference comes to its target. -/
inductive Found (ix : NameIndex) (r : Reference) (t : NodeId) : Prop
  | object (hcall : r.kind.isCall = false) (ht : ix.objectOf? t = some (lower r.awaited))
  | qualified {qualifier name : String} {module : NodeId} (hcall : r.kind.isCall = true)
      (hcut : cutAt? '.' (lower r.awaited) = some (qualifier, name))
      (hm : ix.commonOf? module = some qualifier) (ht : ix.declOf? t = some ⟨module, name⟩)
  | inside {module : NodeId} (hcall : r.kind.isCall = true)
      (hcut : cutAt? '.' (lower r.awaited) = none) (hc : r.context = some module)
      (ht : ix.declOf? t = some ⟨module, lower r.awaited⟩)
  | outside {module : NodeId} (hcall : r.kind.isCall = true)
      (hcut : cutAt? '.' (lower r.awaited) = none)
      (hc : ∀ id own, r.context = some own → ix.declOf? id ≠ some ⟨own, lower r.awaited⟩)
      (ht : ix.declOf? t = some ⟨module, lower r.awaited⟩)

/-- Another declaration that puts the target of a call in doubt. It may be exported; or it is not, but
then neither is the target. -/
structure Rival (ix : NameIndex) (r : Reference) (t rival : NodeId) : Prop where
  call : r.kind.isCall = true
  unqualified : cutAt? '.' (lower r.awaited) = none
  /-- The target is not in the module of the caller. -/
  outside : ∀ own, r.context = some own → ix.declOf? t ≠ some ⟨own, lower r.awaited⟩
  ne : rival ≠ t
  declares : ix.Declares rival (lower r.awaited)
  weighs : ix.entries[rival]?.any (·.exported) = true ∨ ix.entries[t]?.any (·.exported) ≠ true

/-- What a reference means is found in one of the four ways. -/
theorem Faithful.found (hf : ix.Faithful) (h : ix.target? r = some t) : ix.Found r t := by
  cases hcall : r.kind.isCall with
  | false =>
    rw [target?_of_object _ hcall] at h
    exact .object hcall (hf.objects _ _ h)
  | true =>
    cases hcut : cutAt? '.' (lower r.awaited) with
    | some parts =>
      rw [target?_of_qualified _ hcall hcut] at h
      obtain ⟨module, hm, ht⟩ := Option.bind_eq_some_iff.mp h
      exact .qualified hcall hcut (hf.commons _ _ hm) (hf.locals _ _ ht)
    | none =>
      rw [target?_of_unqualified _ hcall hcut] at h
      rcases Option.or_eq_some_iff.mp h with h | ⟨hnone, h⟩
      · obtain ⟨module, hc, ht⟩ := Option.bind_eq_some_iff.mp h
        exact .inside hcall hcut hc (hf.locals _ _ ht)
      · obtain ⟨module, ht⟩ := (hf.declares t _).mp (declares_of_uniqueDecl? h)
        refine .outside hcall hcut ?_ ht
        intro id own hc hid
        rw [hc, Option.bind_some, hf.locals_of _ id hid] at hnone
        simp at hnone

/-- A call that finds nothing in the module of the caller means the only declaration there is. -/
theorem Faithful.target?_outside (hf : ix.Faithful) (hcall : r.kind.isCall = true)
    (hcut : cutAt? '.' (lower r.awaited) = none)
    (hc : ∀ id own, r.context = some own → ix.declOf? id ≠ some ⟨own, lower r.awaited⟩) :
    ix.target? r = ix.uniqueDecl? (lower r.awaited) := by
  have hnone : (r.context.bind fun own =>
      ix.moduleDecls[(⟨own, lower r.awaited⟩ : LocalName)]?) = none := by
    cases hown : r.context with
    | none => rfl
    | some own =>
      cases hm : ix.moduleDecls[(⟨own, lower r.awaited⟩ : LocalName)]? with
      | none => exact hm
      | some id => exact absurd (hf.locals _ id hm) (hc id own hown)
  rw [target?_of_unqualified _ hcall hcut, hnone, Option.none_or]

/-- A reference that came to its target in one of the four ways still means it exactly if no rival
has turned up. -/
theorem Faithful.target?_iff (hf : ix.Faithful) (found : ix.Found r t) :
    ix.target? r = some t ↔ ∀ rival, ¬ ix.Rival r t rival := by
  cases found with
  | object hcall ht =>
    refine iff_of_true ?_ fun rival h => ?_
    · rw [target?_of_object _ hcall]
      exact hf.objects_of _ _ ht
    · rw [h.call] at hcall
      simp at hcall
  | qualified hcall hcut hm ht =>
    refine iff_of_true ?_ fun rival h => ?_
    · rw [target?_of_qualified _ hcall hcut, Option.bind_eq_some_iff]
      exact ⟨_, hf.commons_of _ _ hm, hf.locals_of _ _ ht⟩
    · rw [h.unqualified] at hcut
      simp at hcut
  | inside hcall hcut hc ht =>
    refine iff_of_true ?_ fun rival h => h.outside _ hc ht
    rw [target?_of_unqualified _ hcall hcut, hc, Option.bind_some, hf.locals_of _ _ ht, Option.some_or]
  | outside hcall hcut hc ht =>
    rw [hf.target?_outside hcall hcut hc]
    constructor
    · intro h rival hr
      obtain ⟨-, honly | ⟨hexported, honly⟩⟩ := of_uniqueDecl? h
      · exact hr.ne (honly rival hr.declares)
      · rcases hr.weighs with hrival | hnot
        · exact hr.ne (honly rival hr.declares hrival)
        · exact hnot hexported
    · intro hno
      have hdeclares : ix.Declares t (lower r.awaited) := (hf.declares t _).mpr ⟨_, ht⟩
      -- Whatever else declares the name would be a rival.
      have only : ∀ other, ix.Declares other (lower r.awaited) →
          (ix.entries[other]?.any (·.exported) = true ∨
            ix.entries[t]?.any (·.exported) ≠ true) → other = t := by
        intro other ho hw
        by_contra hne
        exact hno other ⟨hcall, hcut, hc t, hne, ho, hw⟩
      by_cases hexported : ix.entries[t]?.any (·.exported) = true
      · exact uniqueDecl?_of_exported hdeclares hexported fun other ho he => only other ho (.inl he)
      · exact uniqueDecl?_of_unique hdeclares fun other ho => only other ho (.inr hexported)

/-- Objects are found under their ids, so that an object keeps its name as long as it is one. -/
theorem Real.objectOf?_stable {ix' : NameIndex} (real : ix.Real) (real' : ix'.Real) {id : NodeId}
    {kind : NodeKind} (hk : ix.kind? id = some kind) (hk' : ix'.kind? id = some kind) {name : String}
    (h : ix.objectOf? id = some name) : ix'.objectOf? id = some name := by
  obtain ⟨entry, he, rfl⟩ := Option.map_eq_some_iff.mp hk
  obtain ⟨entry', he', hkind⟩ := Option.map_eq_some_iff.mp hk'
  obtain ⟨⟨a, ha, rfl⟩, -⟩ := real id entry he
  obtain ⟨⟨b, hb, rfl⟩, -⟩ := real' id entry' he'
  rw [objectOf?, he, Option.bind_some] at h
  obtain ⟨hobject, rfl⟩ := IndexEntry.objectKey_eq_some_iff.mp h
  rw [objectOf?, he', Option.bind_some]
  rw [IndexEntry.ofNode_kind, IndexEntry.ofNode_kind] at hkind
  exact IndexEntry.objectKey_eq_some_iff.mpr ⟨by rw [hkind]; exact hobject, by rw [hb, ha]⟩

end NameIndex

/-! ## Names from call to call -/

namespace Bookkeeping.Describes

variable {markers : List String} {units : ParsedUnit → Prop} {T T' : Contents}
  {book book' : Bookkeeping} {g g' : PropertyGraph}

/-- What is known under an id that is not reserved comes from a unit. -/
theorem node_of_unreserved (d : Describes markers units T book g) {id : NodeId} {kind : NodeKind}
    (hk : book.index.kind? id = some kind) (hid : id.isReserved = false) :
    ∃ path p node, T path = some p ∧ node ∈ (Fragment.build markers p).nodes ∧ node.id = id ∧
      node.kind = kind := by
  obtain ⟨node, hn, hkind⟩ := d.mirrors.node_of_kind? hk
  cases hu : node.unit? with
  | some path =>
    obtain ⟨p, hp, hf, hnode⟩ := (d.nodes id node path).mp ⟨hn, hu⟩
    exact ⟨path, p, node, hp, hf, hnode, hkind⟩
  | none =>
    obtain ⟨entry, he, -⟩ := Option.map_eq_some_iff.mp hk
    have hnone : book.nodeUnit[id]? = none := by rw [d.mirrors.nodeUnit, hn]; exact hu
    rw [(d.mirrors.reserved_of_unowned he hnone).1] at hid
    simp at hid

/-- A declaration keeps its name and its module as long as it keeps its id and kind, and the module
keeps the name by which it is called. -/
theorem declOf?_stable (hd : Distinct markers units) (d : Describes markers units T book g)
    (d' : Describes markers units T' book' g') {id : NodeId} {kind : NodeKind} {name : LocalName}
    (hk : book.index.kind? id = some kind) (hk' : book'.index.kind? id = some kind)
    (h : book.index.declOf? id = some name) :
    book'.index.declOf? id = some name ∧
      book'.index.commonOf? name.module = book.index.commonOf? name.module := by
  obtain ⟨path, p, a, hp, ha, rfl, hname⟩ := d.declares_source h
  obtain ⟨hpu, -⟩ := d.known path p hp
  obtain ⟨path', q, b, hq, hb, hid, hkind⟩ := d'.node_of_unreserved hk' (hd.unreserved p hpu a ha)
  obtain ⟨hqu, -⟩ := d'.known path' q hq
  have hpath : p.unit.path = q.unit.path := hd.path_eq hpu hqu ha hb hid.symm
  have hsame : a.kind = b.kind := by
    rw [NameIndex.kind?, d.entry_of_put hp ha, Option.map_some, IndexEntry.ofNode_kind] at hk
    rw [hkind, Option.some.inj hk]
  have hname' := Fragment.decl_eq_of_id hpath ha hb hid.symm hsame hname
  constructor
  · rw [← hid, d'.declOf?_of_node hq hb, hname']
  · obtain ⟨m, hm, hmid, hcommon⟩ := Fragment.module_of_decl ha hname
    obtain ⟨m', hm', hmid', hcommon'⟩ := Fragment.module_of_decl hb hname'
    have hold : book.index.commonOf? name.module = (IndexEntry.ofNode m).commonModule := by
      rw [← hmid, NameIndex.commonOf?, d.entry_of_put hp hm, Option.bind_some]
    have hnew : book'.index.commonOf? name.module = (IndexEntry.ofNode m').commonModule := by
      rw [← hmid', NameIndex.commonOf?, d'.entry_of_put hq hm', Option.bind_some]
    rw [hold, hnew, hcommon, hcommon', hpath]

/-- A way to a target that was open stays open, if the target and the unit of the reference stay. -/
theorem found_stable (hd : Distinct markers units) (d : Describes markers units T book g)
    (d' : Describes markers units T' book' g') {r : Reference} {t : NodeId} {kind : NodeKind}
    (found : book.index.Found r t) (own : book.OwnRef r) (hkept : T' r.unit = T r.unit)
    (hk : book.index.kind? t = some kind) (hk' : book'.index.kind? t = some kind) :
    book'.index.Found r t := by
  cases found with
  | object hcall ht => exact .object hcall (d.mirrors.real.objectOf?_stable d'.mirrors.real hk hk' ht)
  | qualified hcall hcut hm ht =>
    obtain ⟨ht', hcommon⟩ := d.declOf?_stable hd d' hk hk' ht
    exact .qualified hcall hcut (hcommon.trans hm) ht'
  | inside hcall hcut hc ht => exact .inside hcall hcut hc (d.declOf?_stable hd d' hk hk' ht).1
  | outside hcall hcut hc ht =>
    refine .outside hcall hcut ?_ (d.declOf?_stable hd d' hk hk' ht).1
    intro id own' hown hid
    exact hc id own' hown (d.declOf?_of_context hd d' own (fun q hq => hkept ▸ hq) hown hid)

end Bookkeeping.Describes

/-! ## Edges with a reason -/

/-- The edge of a reference says where it leads. -/
theorem Reference.edgeTo_inj {r : Reference} {t t' : NodeId} {kind kind' : NodeKind}
    (h : r.edgeTo t kind = r.edgeTo t' kind') : t = t' := by
  have hkey := congrArg Edge.key h
  rw [edgeTo_key, edgeTo_key] at hkey
  unfold keyTo at hkey
  cases hr : r.kind with
  | testCall =>
    by_cases hk : kind = .testCase <;> by_cases hk' : kind' = .testCase <;>
      simp [hr, hk, hk'] at hkey <;> exact hkey
  | _ => simpa [hr] using hkey

namespace Bookkeeping

/-- Whether every edge that has come of a reference has a way to its target, unless the target is only
a name. -/
def Grounded (book : Bookkeeping) (g : PropertyGraph) : Prop :=
  ∀ (k : EdgeKey) edge, g.edges[k]? = some edge → book.OwnEdge edge ∨
    ∃ r t kind, book.RefEdge edge r t kind ∧
      (book.index.kind? t = some kind → book.index.Found r t)

variable {markers : List String} {units : ParsedUnit → Prop} {T : Contents} {book : Bookkeeping}
  {g g' : PropertyGraph} {changes : List UnitChange} {puts : List ParsedUnit}

/-- A reference whose edge leads to a known node was resolved to it. -/
theorem Planned.target?_of_standing (c : Planned markers book g changes puts) {r : Reference}
    {t : NodeId} {kind : NodeKind}
    (he : (book.added markers changes).book.index.standing r = r.edgeTo t kind)
    (hk : (book.added markers changes).book.index.kind? t = some kind) :
    (book.added markers changes).book.index.target? r = some t := by
  cases hres : (book.added markers changes).book.index.resolve? r with
  | none =>
    rw [NameIndex.standing, hres] at he
    have ht : r.placeholderId = t := Reference.edgeTo_inj he
    obtain ⟨entry, hentry, -⟩ := Option.map_eq_some_iff.mp hk
    have hplaceholder := (c.real_added t entry hentry).2
    rw [← ht, r.isPlaceholder_placeholderId] at hplaceholder
    simp at hplaceholder
  | some found =>
    obtain ⟨t', kind'⟩ := found
    rw [NameIndex.standing_of_resolve? hres] at he
    rw [← Reference.edgeTo_inj he]
    exact (NameIndex.resolve?_eq_some_iff.mp hres).1

theorem Grounded.written (h : book.Grounded g) (hd : Distinct markers units)
    (d : Describes markers units T book g) (c : Planned markers book g changes puts)
    (hunits : ∀ p, .put p ∈ changes → units p)
    (hw : (book.draftOn g markers changes).plan.written g = .ok g') :
    (book.draftOn g markers changes).book.Grounded g' := by
  have d' := d.written hd c hunits hw
  intro k edge he
  rcases (c.edges_iff hw).mp he with hplan | kept
  · rcases c.planned_cases hplan with hown | ⟨r, -, rfl, t, kind, href⟩
    · exact .inl (c.ends.same.ownEdge (c.adds.edges k edge hown).2.1)
    · refine .inr ⟨r, t, kind, href, fun hk => d'.faithful.found ?_⟩
      rw [c.ends.same.index] at hk ⊢
      exact c.target?_of_standing href.eq hk
  · have intact := kept.intact c
    rcases h k edge kept.found with hown | ⟨r, t, kind, href, hfound⟩
    · exact .inl (intact.ownEdge c hown)
    · refine .inr ⟨r, t, kind, intact.refEdge c href, fun hk => ?_⟩
      have hkept : T.replace changes r.unit = T r.unit :=
        Contents.replace_of_not_mem (intact.unit_refEdge href)
      rcases href.target with ⟨hold, -⟩ | ⟨rfl, -, -⟩
      · exact d.found_stable hd d' (hfound hold) href.own hkept hold hk
      · -- A node that is known is no placeholder.
        obtain ⟨entry, hentry, -⟩ := Option.map_eq_some_iff.mp hk
        have hplaceholder := (d'.mirrors.real _ entry hentry).2
        rw [r.isPlaceholder_placeholderId] at hplaceholder
        simp at hplaceholder

/-- Edges of units hold no name of something else. -/
theorem Grounded.refEdge (h : book.Grounded g) {k : EdgeKey} {edge : Edge}
    (he : g.edges[k]? = some edge) {name : String} (hname : edge.props.text? "callee" = some name) :
    ∃ r t kind, book.RefEdge edge r t kind ∧
      (book.index.kind? t = some kind → book.index.Found r t) := by
  refine (h k edge he).resolve_left fun hown => ?_
  rw [hown.callee_eq_none] at hname
  simp at hname

end Bookkeeping

namespace Builder

variable {markers : List String} {policy : RetryPolicy} {units : ParsedUnit → Prop} {b : Builder}
  {g : PropertyGraph}

theorem Reached.grounded (hd : Distinct markers units) (h : Reached markers policy units b g) :
    ∃ T, b.book.Describes markers units T g ∧ b.book.Grounded g := by
  refine (Reached.induct
    (P := fun book g => ∃ T, book.Describes markers units T g ∧ book.Grounded g)
    ⟨_, Bookkeeping.describes_empty markers units, fun k edge he => by simp at he⟩ ?_ h).1
  rintro book g g' changes ⟨T, d, grounded⟩ hnodup hunits hw
  obtain ⟨puts, c⟩ := d.mirrors.planned (hd.unreserved.changes hnodup hunits)
  exact ⟨_, d.written hd c hunits hw, grounded.written hd d c hunits hw⟩

/-- **How far an edge can be trusted.** Over units that claim different ids and names, an edge between
known nodes that remembers a name is that of a reference, and the reference can be recovered from it
unless both ends are one node. Resolved against the index as it is now, the reference leads to the same
target exactly if the target has no rival. -/
theorem resolve?_iff_forall_not_rival (hd : Distinct markers units)
    (h : Reached markers policy units b g) {edge : Edge} (he : edge ∈ g.allEdges) {name : String}
    (hname : edge.props.text? "callee" = some name) (hsource : ¬ g.IsUnknown edge.source)
    (htarget : ¬ g.IsUnknown edge.target) :
    ∃ r target kind, b.book.RefEdge edge r target kind ∧ b.book.index.kind? target = some kind ∧
      (r.owner ≠ target → Reference.ofEdge? edge target (b.book.index.kind? r.owner) target.text
        b.book.index.moduleOf? = some r.fitted) ∧
      (b.book.index.resolve? r.fitted = some (target, kind) ↔
        ∀ rival, ¬ b.book.index.Rival r target rival) := by
  obtain ⟨T, d, grounded⟩ := h.grounded hd
  obtain ⟨r, t, kind, href, hfound⟩ := grounded.refEdge (d.mirrors.mem_allEdges.mp he) hname
  have hkind : b.book.index.kind? t = some kind := by
    rcases href.target with ⟨hk, -⟩ | ⟨rfl, -, hw⟩
    · exact hk
    · -- Otherwise the edge would lead to a placeholder.
      have hunknown : g.IsUnknown r.placeholderId :=
        (d.mirrors.placeholders _).mpr ⟨_, r, hw, rfl⟩
      rcases href.target_mem with hend | hend
      · exact absurd (hend ▸ hunknown) hsource
      · exact absurd (hend ▸ hunknown) htarget
  refine ⟨r, t, kind, href, hkind, fun hne => ?_, ?_⟩
  · rw [href.eq, Reference.ofEdge?_edgeTo kind _ _ hne href.own.fitsOwner, Reference.recalled,
      Reference.fitted, ← href.own.context]
  · have hsame : b.book.index.resolve? r.fitted = b.book.index.resolve? r :=
      NameIndex.resolve?_congr _ rfl rfl rfl
    rw [hsame, NameIndex.resolve?_eq_some_iff, and_iff_left hkind]
    exact d.faithful.target?_iff (hfound hkind)

/-! ## A name becomes ambiguous -/

/-- A unit that calls a declaration of another. -/
def sampleTrusting : List ParsedUnit :=
  [sampleUnit "a.bsl" "f" 1 ["g"], sampleUnit "b.bsl" "g" 2 []]

/-- A third unit that declares the same name. -/
def sampleRival : ParsedUnit := sampleUnit "c.bsl" "g" 3 []

/-- The edge of the call. -/
def sampleTrusted : Edge :=
  Reference.edgeTo ⟨⟨"a::f"⟩, "g", .call, "a.bsl", some 2, some ⟨"a"⟩⟩ ⟨"b::g"⟩ .procedure

theorem distinct_sampleRival : Distinct [] (· ∈ sampleRival :: sampleTrusting) :=
  .of_forall (by decide +kernel) (by decide +kernel)

theorem callee_sampleTrusted : sampleTrusted.props.text? "callee" = some "g" :=
  Reference.text?_edgeProps_callee _

theorem reached_sampleTrusting : Reached [] {} (· ∈ sampleRival :: sampleTrusting)
    (firstCall [] sampleTrusting).1 (firstCall [] sampleTrusting).2 :=
  reached_firstCall (by decide +kernel) fun _ hp => List.mem_cons_of_mem _ hp

/-- Nothing is unknown where nothing waits. -/
theorem not_isUnknown_of_unresolved (hu : Unreserved markers units)
    (h : Reached markers policy units b g) (hnone : b.book.pending.placeholderIds = []) (id : NodeId) :
    ¬ g.IsUnknown id := by
  rw [(h.mirrors hu).isUnknown_iff, hnone]
  exact List.not_mem_nil

/-- Before the third unit comes, the edge is the one that would be made. -/
theorem resolve?_iff_forall_not_rival_sample :
    sampleTrusted ∈ (firstCall [] sampleTrusting).2.allEdges ∧
    ∃ r target kind, (firstCall [] sampleTrusting).1.book.RefEdge sampleTrusted r target kind ∧
      (firstCall [] sampleTrusting).1.book.index.kind? target = some kind ∧
      (r.owner ≠ target → Reference.ofEdge? sampleTrusted target
        ((firstCall [] sampleTrusting).1.book.index.kind? r.owner) target.text
        (firstCall [] sampleTrusting).1.book.index.moduleOf? = some r.fitted) ∧
      ((firstCall [] sampleTrusting).1.book.index.resolve? r.fitted = some (target, kind) ↔
        ∀ rival, ¬ (firstCall [] sampleTrusting).1.book.index.Rival r target rival) := by
  have hreal := not_isUnknown_of_unresolved distinct_sampleRival.unreserved reached_sampleTrusting
    (by decide +kernel)
  have hedge : sampleTrusted ∈ (firstCall [] sampleTrusting).2.allEdges := by decide +kernel
  exact ⟨hedge, resolve?_iff_forall_not_rival distinct_sampleRival reached_sampleTrusting hedge
    callee_sampleTrusted (hreal _) (hreal _)⟩

/-- The builder and the graph after the third unit has come. -/
def sampleContested : Builder × PropertyGraph :=
  (firstCall [] sampleTrusting).1.after
    ((firstCall [] sampleTrusting).1.ingest [sampleRival] (firstCall [] sampleTrusting).2)

theorem reached_sampleContested : Reached [] {} (· ∈ sampleRival :: sampleTrusting)
    sampleContested.1 sampleContested.2 := by
  obtain ⟨first, hfirst⟩ : ∃ first, first = firstCall [] sampleTrusting := ⟨_, rfl⟩
  have hok : (first.1.ingest [sampleRival] first.2).1.isOk = true := by
    rw [hfirst]
    decide +kernel
  obtain ⟨δ, hrun⟩ := after_of_isOk (b := first.1) hok
  rw [hfirst] at hrun
  refine .ingest reached_sampleTrusting ?_ hrun
  intro p hp
  rw [List.mem_singleton.mp hp]
  exact List.mem_cons_self

/-- **An edge that would not be made any more.** Two units declare the name of the call now, so that a
call like it would wait. The edge to the first of them is still there. -/
theorem ambiguous_edge_stays :
    Reached [] {} (· ∈ sampleRival :: sampleTrusting) sampleContested.1 sampleContested.2 ∧
    sampleTrusted ∈ sampleContested.2.allEdges ∧ sampleTrusted.props.text? "callee" = some "g" ∧
    ¬ sampleContested.2.IsUnknown sampleTrusted.source ∧
    ¬ sampleContested.2.IsUnknown sampleTrusted.target ∧
    ∃ r, Reference.ofEdge? sampleTrusted sampleTrusted.target
        (sampleContested.1.book.index.kind? sampleTrusted.source) sampleTrusted.target.text
        sampleContested.1.book.index.moduleOf? = some r ∧
      sampleContested.1.book.index.resolve? r = none := by
  have hreal := not_isUnknown_of_unresolved distinct_sampleRival.unreserved reached_sampleContested
    (by decide +kernel)
  refine ⟨reached_sampleContested, by decide +kernel, callee_sampleTrusted, hreal _, hreal _,
    ⟨⟨"a::f"⟩, "g", .call, "a.bsl", some 2, some ⟨"a"⟩⟩, by decide +kernel, by decide +kernel⟩

end Builder

end CodeAtlas
