import CodeAtlas.Builder.Basic
import CodeAtlas.Proofs.Planning.Add
import CodeAtlas.Proofs.Sessions

/-!
# What hung on vanished nodes

The third thing a draft does is the only one that looks at the graph. For every node that vanished or
changed its kind it asks for the edges there, and turns those of other units back into references.
All that the answer contributes is a list of such edges with the references they become; this
module takes it out of the draft (`draft_run`), so that two drafts over different graphs can be
compared by their lists alone.
-/

set_option autoImplicit false

namespace CodeAtlas

open Std

namespace Draft

/-! ## Edges turned back -/

/-- An edge at a vanished node, with its unit and the reference that it turns back into. -/
structure Reopening where
  ref : Reference
  unit : String
  key : EdgeKey
deriving DecidableEq

/-- What an edge at a vanished node turns back into. -/
def reopen? (changed : ExtTreeSet String) (ix : NameIndex) (gone : NodeId) (hop : Neighbor) :
    Option Reopening :=
  hop.edge.unit?.bind fun unit =>
    if changed.contains unit then none
    else (Reference.ofEdge? hop.edge gone (some hop.node.kind) gone.text ix.moduleOf?).map
      (⟨·, unit, hop.edge.key⟩)

/-- All that is turned back when some nodes vanish from a graph, in order. -/
def reopenings (g : PropertyGraph) (changed : ExtTreeSet String) (ix : NameIndex)
    (gone : List NodeId) : List Reopening :=
  gone.flatMap fun id => (g.neighbors id [] .both).filterMap (reopen? changed ix id)

/-- The draft with some edges turned back into references. -/
def reopenAll (d : Draft) (opened : List Reopening) : Draft :=
  { d with
    refs := d.refs ++ opened.map (·.ref)
    book := opened.foldl (fun book o => book.eraseEdge o.unit o.key) d.book }

/-- The draft with some nodes planned for deletion. -/
def deleteAll (d : Draft) (gone : List NodeId) : Draft :=
  { d with plan := gone.foldl Plan.deleteNode d.plan }

theorem reopenAll_append (d : Draft) (a b : List Reopening) :
    (d.reopenAll a).reopenAll b = d.reopenAll (a ++ b) := by
  simp [reopenAll, List.foldl_append]

theorem foldl_eraseEdge_index (opened : List Reopening) (book : Bookkeeping) :
    (opened.foldl (fun book o => book.eraseEdge o.unit o.key) book).index = book.index := by
  induction opened generalizing book with
  | nil => rfl
  | cons o rest ih => rw [List.foldl_cons, ih]; rfl

@[simp] theorem reopenAll_index (d : Draft) (opened : List Reopening) :
    (d.reopenAll opened).book.index = d.book.index :=
  foldl_eraseEdge_index opened d.book

theorem reopenEdge_eq (changed : ExtTreeSet String) (gone : NodeId) (d : Draft) (hop : Neighbor) :
    d.reopenEdge changed gone hop = d.reopenAll (reopen? changed d.book.index gone hop).toList := by
  unfold reopenEdge reopen?
  cases hu : hop.edge.unit? with
  | none => simp [reopenAll]
  | some unit =>
    by_cases hc : unit ∈ changed
    · simp [hc, reopenAll]
    · cases hr : Reference.ofEdge? hop.edge gone (some hop.node.kind) gone.text
        d.book.index.moduleOf? <;> simp [hc, reopenAll]

theorem foldl_reopenEdge (changed : ExtTreeSet String) (gone : NodeId) (hops : List Neighbor)
    (d : Draft) :
    hops.foldl (reopenEdge changed gone) d =
      d.reopenAll (hops.filterMap (reopen? changed d.book.index gone)) := by
  induction hops generalizing d with
  | nil => simp [reopenAll]
  | cons hop rest ih =>
    rw [List.foldl_cons, ih, reopenEdge_eq, reopenAll_index, reopenAll_append]
    cases ho : reopen? changed d.book.index gone hop <;> simp [ho]

/-! ## Running a draft -/

/-- The nodes that have vanished or changed their kind. -/
def goneNodes (d : Draft) : List NodeId := d.retracted.keys ++ d.rekinded

/-- The draft after the references are resolved or put into the queue. -/
def resolveAll (d : Draft) : Draft :=
  let d := d.book.pending.toList.foldl settle d
  d.refs.foldl place d

end Draft

namespace Bookkeeping

variable {σ : Type} [Backend σ]

/-- The draft after the two phases that do not look at the graph. -/
def added (book : Bookkeeping) (markers : List String) (changes : List UnitChange) : Draft :=
  changes.foldl (Draft.addChange markers)
    ((ExtTreeSet.ofList (changes.map (·.path))).toList.foldl Draft.retractUnit { book })

/-- What a draft reads from the graph. -/
def reopened (book : Bookkeeping) (g : PropertyGraph) (markers : List String)
    (changes : List UnitChange) : List Draft.Reopening :=
  let d := book.added markers changes
  Draft.reopenings g (.ofList (changes.map (·.path))) d.book.index d.goneNodes

/-- The draft that comes of given edges being turned back. -/
def draftWith (book : Bookkeeping) (markers : List String) (changes : List UnitChange)
    (opened : List Draft.Reopening) : Draft :=
  let d := book.added markers changes
  (((d.deleteAll d.goneNodes).reopenAll opened).resolveAll).followQueue book.pending.placeholderIds

/-- A store that answers for the neighbours as a graph does. -/
def AnswersAs (policy : RetryPolicy) (s : σ) (g : PropertyGraph) : Prop :=
  ∀ id, policy.session (Backend.neighbors id [] .both) s = (.ok (g.neighbors id [] .both), s)

theorem vanish_run {policy : RetryPolicy} {s : σ} {g : PropertyGraph}
    (hs : AnswersAs policy s g) (changed : ExtTreeSet String) (d : Draft) (gone : NodeId) :
    d.vanish policy changed gone s =
      (.ok ((d.deleteAll [gone]).reopenAll (Draft.reopenings g changed d.book.index [gone])), s) := by
  unfold Draft.vanish
  rw [Session.bind_ok (hs gone), Session.pure_run, Draft.foldl_reopenEdge]
  simp [Draft.reopenings, Draft.deleteAll]

theorem foldlM_vanish_run {policy : RetryPolicy} {s : σ} {g : PropertyGraph}
    (hs : AnswersAs policy s g) (changed : ExtTreeSet String) (gone : List NodeId) (d : Draft) :
    gone.foldlM (Draft.vanish policy changed) d s =
      (.ok ((d.deleteAll gone).reopenAll (Draft.reopenings g changed d.book.index gone)), s) := by
  induction gone generalizing d with
  | nil => simp [Draft.deleteAll, Draft.reopenings, Draft.reopenAll, Session.pure_run]
  | cons id rest ih =>
    rw [List.foldlM_cons, Session.bind_ok (vanish_run hs changed d id), ih, Draft.reopenAll_index]
    simp [Draft.deleteAll, Draft.reopenings, Draft.reopenAll]

theorem draft_run {policy : RetryPolicy} {s : σ} {g : PropertyGraph} (hs : AnswersAs policy s g)
    (book : Bookkeeping) (markers : List String) (changes : List UnitChange) :
    book.draft policy markers changes s =
      (.ok (book.draftWith markers changes (book.reopened g markers changes)), s) := by
  unfold Bookkeeping.draft
  dsimp only
  rw [Session.bind_ok (foldlM_vanish_run hs _ _ _), Session.pure_run]
  rfl

end Bookkeeping

end CodeAtlas
