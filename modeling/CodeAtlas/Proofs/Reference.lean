import CodeAtlas.Builder.PendingQueue
import CodeAtlas.Proofs.Collections

/-!
# References and their edges

An edge that a reference becomes says which reference it was, as long as the edge has its owner at the
right end and the kind of the owner is known (`ofEdge?_edgeTo`). Two things are not in the edge. One is
the context, which is recovered from the owner; the other is a line beyond 32 bits, which is lost.

Waiting references are told apart by placeholder, owner and kind. Where owners are no placeholders
themselves, the edge to the placeholder tells them apart just as well (`keyOf_eq_of_placeholderKey`).
-/

set_option autoImplicit false

namespace CodeAtlas

open Std Text

/-! ## Dots in names -/

namespace Text

theorem lowerSimple_dot : lowerSimple '.' = '.' := rfl

theorem dot_mem_lowerFrom {cs : List Char} (before : List Char) (h : '.' ∈ cs) :
    '.' ∈ lowerFrom before cs := by
  induction cs generalizing before with
  | nil => simp at h
  | cons c rest ih =>
    rw [lowerFrom]
    rcases List.mem_cons.mp h with rfl | h
    · simp [lowerSimple_dot]
    · exact List.mem_append_right _ (ih _ h)

/-- Lower-casing keeps dots. -/
theorem dot_mem_lower {s : String} (h : '.' ∈ s.toList) : '.' ∈ (lower s).toList := by
  simpa [lower, lowerChars] using dot_mem_lowerFrom [] h

end Text

/-! ## Property bags made of lists -/

namespace Props

/-- Of several values for one name the last stays. -/
theorem get_ofList_cons (first : String × PropValue) (rest : List (String × PropValue))
    (name : String) :
    (ofList (first :: rest))[name]? =
      (ofList rest)[name]?.or (if first.1 = name then some first.2 else none) := by
  unfold ofList
  rw [ExtTreeMap.ofList_eq_insertMany_empty, ExtTreeMap.ofList_eq_insertMany_empty,
    ExtTreeMap.getElem?_insertMany_list, ExtTreeMap.getElem?_insertMany_list]
  simp only [List.findSomeRev?, LawfulEqCmp.compare_eq_iff_eq]
  cases List.findSomeRev? (fun x : String × PropValue => if x.1 = name then some x.2 else none) rest
    <;> simp

theorem get_ofList_nil (name : String) : (ofList [])[name]? = none := by
  simp [ofList]

theorem get_ofList_append (first second : List (String × PropValue)) (name : String) :
    (ofList (first ++ second))[name]? = (ofList second)[name]?.or (ofList first)[name]? := by
  induction first with
  | nil => simp [get_ofList_nil]
  | cons p rest ih =>
    rw [List.cons_append, get_ofList_cons, ih, get_ofList_cons, Option.or_assoc]

theorem get_ofList_of_forall_ne (pairs : List (String × PropValue)) (name : String)
    (h : ∀ p ∈ pairs, p.1 ≠ name) : (ofList pairs)[name]? = none := by
  induction pairs with
  | nil => exact get_ofList_nil name
  | cons p rest ih =>
    rw [get_ofList_cons, ih fun q hq => h q (List.mem_cons_of_mem p hq), Option.none_or,
      if_neg (h p List.mem_cons_self)]

end Props

namespace Reference

/-! ## What an edge remembers -/

@[simp] theorem edgeTo_key (r : Reference) (target : NodeId) (kind : NodeKind) :
    (r.edgeTo target kind).key = r.keyTo target kind := rfl

@[simp] theorem edgeTo_props (r : Reference) (target : NodeId) (kind : NodeKind) :
    (r.edgeTo target kind).props = r.edgeProps := rfl

theorem get_edgeProps_line (r : Reference) :
    r.edgeProps["line"]? = r.line.map fun line : Nat => PropValue.int line := by
  unfold edgeProps
  cases r.line <;> simp [Props.get_ofList_cons, Props.get_ofList_nil]

@[simp] theorem edgeTo_unit? (r : Reference) (target : NodeId) (kind : NodeKind) :
    (r.edgeTo target kind).unit? = some r.unit := by
  unfold Edge.unit? Props.text?
  rw [edgeTo_props, edgeProps]
  cases r.line <;> simp [Props.get_ofList_cons, Props.get_ofList_nil, PropValue.asText?]

theorem text?_edgeProps_callee (r : Reference) : r.edgeProps.text? "callee" = some r.awaited := by
  unfold Props.text? edgeProps
  cases r.line <;> simp [Props.get_ofList_cons, Props.get_ofList_nil, PropValue.asText?]

/-- A line as an edge holds it, if it is one. -/
def fitLine? (line : Int) : Option Nat :=
  if 0 ≤ line ∧ line.toNat < UInt32.size then some line.toNat else none

theorem fitLine?_natCast (line : Nat) : fitLine? line = (some line).filter (· < UInt32.size) := by
  have fits : (0 ≤ (line : Int) ∧ (line : Int).toNat < UInt32.size) ↔ line < UInt32.size := by omega
  rw [fitLine?, Option.filter_some]
  by_cases h : line < UInt32.size
  · rw [if_pos (fits.mpr h), if_pos (decide_eq_true h), Int.toNat_natCast]
  · rw [if_neg fun hc => h (fits.mp hc), if_neg fun hc => h (of_decide_eq_true hc)]

theorem lineOf?_eq (edge : Edge) :
    lineOf? edge = (edge.props["line"]?.bind PropValue.asInt?).bind fitLine? := rfl

theorem lineOf?_edgeTo (r : Reference) (target : NodeId) (kind : NodeKind) :
    lineOf? (r.edgeTo target kind) = r.line.filter (· < UInt32.size) := by
  rw [lineOf?_eq, edgeTo_props, get_edgeProps_line]
  cases r.line with
  | none => rfl
  | some line =>
    have hint : PropValue.asInt? (.int line) = some (line : Int) := rfl
    rw [Option.map_some, Option.bind_some, hint, Option.bind_some, fitLine?_natCast]

/-! ## The way back -/

/-- Test cases make test calls, and nothing else does. -/
def FitsOwner (r : Reference) (ownerKind : Option NodeKind) : Prop :=
  (r.kind = .call → ownerKind ≠ some .testCase) ∧ (r.kind = .testCall → ownerKind = some .testCase)

/-- The reference as its edge recalls it. -/
def recalled (r : Reference) (moduleOf : NodeId → Option NodeId) : Reference :=
  { r with
    line := r.line.filter (· < UInt32.size)
    context := if r.kind.isCall then moduleOf r.owner else none }

theorem ownerOf?_edgeTo {r : Reference} {target : NodeId} (kind : NodeKind)
    {ownerKind : Option NodeKind} (hne : r.owner ≠ target) (fits : r.FitsOwner ownerKind) :
    ownerOf? (r.edgeTo target kind) target ownerKind = some (r.owner, r.kind) := by
  have hends : (r.owner == target) = false := by simpa using hne
  unfold ownerOf? edgeTo keyTo
  cases hk : r.kind with
  | call => simp [hends, fits.1 hk]
  | testCall =>
    by_cases htest : kind = .testCase
    · simp [htest, hends, fits.2 hk]
    · simp [htest]
  | metadata => simp [hends]
  | metadataType => simp [hends]
  | container => simp
  | child => simp [hends]

/-- The reference behind an edge is recovered from it when the target goes away. -/
theorem ofEdge?_edgeTo {r : Reference} {target : NodeId} (kind : NodeKind)
    {ownerKind : Option NodeKind} (goneName : String) (moduleOf : NodeId → Option NodeId)
    (hne : r.owner ≠ target) (fits : r.FitsOwner ownerKind) :
    ofEdge? (r.edgeTo target kind) target ownerKind goneName moduleOf =
      some (r.recalled moduleOf) := by
  simp [ofEdge?, ownerOf?_edgeTo kind hne fits, lineOf?_edgeTo, text?_edgeProps_callee, recalled]

theorem recalled_eq_self {r : Reference} {moduleOf : NodeId → Option NodeId}
    (hline : ∀ line, r.line = some line → line < UInt32.size)
    (hcontext : r.context = if r.kind.isCall then moduleOf r.owner else none) :
    r.recalled moduleOf = r := by
  have hl : r.line.filter (· < UInt32.size) = r.line := by
    cases h : r.line with
    | none => rfl
    | some line => rw [Option.filter_some, if_pos (decide_eq_true (hline line h))]
  cases r
  simp_all [recalled]

/-! ## Placeholders -/

theorem placeholderId_eq_iff {r s : Reference} :
    r.placeholderId = s.placeholderId ↔ lower r.awaited = lower s.awaited := by
  unfold placeholderId NodeId.placeholder
  constructor
  · intro h
    injection h with h
    simpa using h
  · intro h
    rw [h]

theorem isPlaceholder_placeholderId (r : Reference) : r.placeholderId.isPlaceholder = true := by
  simp [placeholderId, NodeId.placeholder, NodeId.isPlaceholder, String.toList_append]

theorem placeholderEdge_key (r : Reference) :
    r.placeholderEdge.key = r.keyTo r.placeholderId .unknown := rfl

@[simp] theorem placeholderEdge_unit? (r : Reference) : r.placeholderEdge.unit? = some r.unit :=
  edgeTo_unit? r _ _

/-- The edge to a placeholder is named by what tells waiting references apart. -/
theorem placeholderKey_of_keyOf {r s : Reference}
    (h : PendingQueue.keyOf r = PendingQueue.keyOf s) :
    r.placeholderEdge.key = s.placeholderEdge.key := by
  obtain ⟨hp, ho, hk⟩ : r.placeholderId = s.placeholderId ∧ r.owner = s.owner ∧ r.kind = s.kind := by
    simpa [PendingQueue.keyOf] using h
  simp [placeholderEdge_key, keyTo, hp, ho, hk]

theorem keyOf_eq_of_placeholderKey {r s : Reference} (hr : r.owner.isPlaceholder = false)
    (hs : s.owner.isPlaceholder = false) (h : r.placeholderEdge.key = s.placeholderEdge.key) :
    PendingQueue.keyOf r = PendingQueue.keyOf s := by
  have hrs : r.owner ≠ s.placeholderId := fun he => by
    rw [he, isPlaceholder_placeholderId] at hr; simp at hr
  have hsr : s.owner ≠ r.placeholderId := fun he => by
    rw [he, isPlaceholder_placeholderId] at hs; simp at hs
  have hsr' : r.placeholderId ≠ s.owner := fun he => hsr he.symm
  simp only [placeholderEdge_key, keyTo] at h
  cases hkr : r.kind <;> cases hks : s.kind <;>
    simp [hkr, hks, hrs, hsr'] at h <;> simp [PendingQueue.keyOf, hkr, hks, h]

end Reference

end CodeAtlas
