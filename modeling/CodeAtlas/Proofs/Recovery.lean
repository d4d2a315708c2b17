import CodeAtlas.Proofs.Fragment

/-!
# References survive their edges

Six kinds of references become edges of four kinds, with the owner at either end, and a call out of a test
turns round with the kind of its target. The way back knows the ends, what is gone and what kind of node is
left, and reads the rest from the edge. That this is enough rests on how fragments draw their references
(`Reference.Drawn`): an owner is never a placeholder, so that the two ends are told apart, and whether a call
is one of a test is a matter of its owner.
-/

set_option autoImplicit false

namespace CodeAtlas

/-! ## References as fragments draw them -/

namespace Reference

/-- A reference as a fragment draws it: its owner is a node that stands for something, of the given kind;
a call is looked for in its owner's module first, and it is a test call exactly if its owner is a test
case. Line numbers are 32-bit words. -/
structure Drawn (r : Reference) (ownerKind : NodeKind) (moduleOf : NodeId → Option NodeId) : Prop where
  owner : r.owner.isPlaceholder = false
  calls : r.kind.isCall = true → (r.kind = .testCall ↔ ownerKind = .testCase)
  context : r.context = if r.kind.isCall then moduleOf r.owner else none
  line : ∀ line, r.line = some line → line < UInt32.size

variable {r : Reference} {ownerKind : NodeKind} {moduleOf : NodeId → Option NodeId}

theorem Drawn.fitsOwner (drawn : r.Drawn ownerKind moduleOf) : r.FitsOwner (some ownerKind) := by
  constructor
  · intro hcall htest
    have hkind := (drawn.calls (by rw [hcall]; rfl)).mpr (Option.some.inj htest)
    rw [hcall] at hkind
    cases hkind
  · intro htest
    exact congrArg some ((drawn.calls (by rw [htest]; rfl)).mp htest)

theorem Drawn.owner_ne_placeholderId (drawn : r.Drawn ownerKind moduleOf) :
    r.owner ≠ r.placeholderId := by
  intro he
  have hreal := drawn.owner
  rw [he, isPlaceholder_placeholderId] at hreal
  cases hreal

end Reference

/-- A fragment draws its references as the way back from an edge needs them. -/
theorem Fragment.drawn_of_mem_refs {markers : List String} {p : ParsedUnit} {r : Reference}
    {moduleOf : NodeId → Option NodeId} (hr : r ∈ (Fragment.build markers p).refs)
    (real : r.owner.isPlaceholder = false) (fits : ∀ line, r.line = some line → line < UInt32.size)
    (known : ∀ node ∈ (Fragment.build markers p).nodes, moduleOf node.id = node.module?) :
    ∃ node ∈ (Fragment.build markers p).nodes, node.id = r.owner ∧ r.Drawn node.kind moduleOf := by
  obtain ⟨node, starts⟩ := (Fragment.wellFormed_build markers p).refs r hr
  refine ⟨node, starts.mem, starts.owner, real, fun hcall => ?_, ?_, fits⟩
  · have hkind := starts.kind
    cases hk : r.kind with
    | call =>
      rw [hk] at hkind
      refine iff_of_false (by simp) fun htest => ?_
      rw [htest] at hkind
      cases hkind
    | testCall =>
      rw [hk] at hkind
      exact iff_of_true rfl (of_decide_eq_true hkind)
    | metadata | metadataType | container | child =>
      rw [hk] at hcall
      cases hcall
  · rw [starts.context, ← starts.owner, known node starts.mem]

/-! ## There and back -/

namespace Reference

variable {r : Reference} {ownerKind : NodeKind} {moduleOf : NodeId → Option NodeId}

/-- A reference survives the trip through its edge, to whatever target it leads or to its placeholder; and
the edges to placeholders tell the references of one owner apart. -/
theorem ofEdge?_of_drawn (drawn : r.Drawn ownerKind moduleOf) :
    (∀ target targetKind goneName, target ≠ r.owner →
      ofEdge? (r.edgeTo target targetKind) target (some ownerKind) goneName moduleOf = some r) ∧
    (∀ goneName,
      ofEdge? r.placeholderEdge r.placeholderId (some ownerKind) goneName moduleOf = some r) ∧
    ∀ s : Reference, s.owner = r.owner → s.placeholderId ≠ r.placeholderId ∨ s.kind ≠ r.kind →
      s.placeholderEdge.key ≠ r.placeholderEdge.key := by
  have hback : ∀ target targetKind goneName, r.owner ≠ target →
      ofEdge? (r.edgeTo target targetKind) target (some ownerKind) goneName moduleOf = some r := by
    intro target targetKind goneName hne
    rw [ofEdge?_edgeTo targetKind goneName moduleOf hne drawn.fitsOwner,
      recalled_eq_self drawn.line drawn.context]
  refine ⟨fun target targetKind goneName hne => hback target targetKind goneName hne.symm,
    fun goneName => hback r.placeholderId .unknown goneName drawn.owner_ne_placeholderId, ?_⟩
  intro s howner hdiffers hkey
  obtain ⟨hplaceholder, -, hkind⟩ :
      s.placeholderId = r.placeholderId ∧ s.owner = r.owner ∧ s.kind = r.kind := by
    simpa [PendingQueue.keyOf] using
      keyOf_eq_of_placeholderKey (howner ▸ drawn.owner) drawn.owner hkey
  rcases hdiffers with hne | hne
  · exact hne hplaceholder
  · exact hne hkind

/-- A test that calls a function of a common module. -/
def sampleTest : ParsedUnit where
  unit := ⟨"Tests/T.bsl", .sourceModule, ⟨7⟩⟩
  outline :=
    { declarations := [{ name := "Check", firstLine := 1, lastLine := 3 }]
      calls := [⟨some "Check", "Round", some "Utils", 2⟩] }

/-- The call in it. -/
def sampleTestCall : Reference where
  owner := ⟨"Tests.T::Check"⟩
  awaited := "Utils.Round"
  kind := .testCall
  unit := "Tests/T.bsl"
  line := some 2
  context := some ⟨"Tests.T"⟩

/-- It comes back from the edge to another test case, from the edge to a function, and from the edge to its
placeholder; and a use of the same name has another edge. -/
theorem ofEdge?_of_drawn_sample :
    ∃ node ∈ (Fragment.build ["Tests"] sampleTest).nodes, node.id = sampleTestCall.owner ∧
      sampleTestCall.Drawn node.kind (fun _ => some ⟨"Tests.T"⟩) ∧
      ofEdge? (sampleTestCall.edgeTo ⟨"Tests.T::Setup"⟩ .testCase) ⟨"Tests.T::Setup"⟩ (some node.kind)
        "Setup" (fun _ => some ⟨"Tests.T"⟩) = some sampleTestCall ∧
      ofEdge? (sampleTestCall.edgeTo ⟨"M::Round"⟩ .function) ⟨"M::Round"⟩ (some node.kind) "Round"
        (fun _ => some ⟨"Tests.T"⟩) = some sampleTestCall ∧
      ofEdge? sampleTestCall.placeholderEdge sampleTestCall.placeholderId (some node.kind)
        "Unknown(Utils.Round)" (fun _ => some ⟨"Tests.T"⟩) = some sampleTestCall ∧
      ({ sampleTestCall with kind := .metadata } : Reference).placeholderEdge.key ≠
        sampleTestCall.placeholderEdge.key := by
  have hmem : sampleTestCall ∈ (Fragment.build ["Tests"] sampleTest).refs := by
    decide +kernel
  have hknown : ∀ node ∈ (Fragment.build ["Tests"] sampleTest).nodes,
      some ⟨"Tests.T"⟩ = node.module? := by
    decide +kernel
  have hline : ∀ line, sampleTestCall.line = some line → line < UInt32.size := by
    rintro line ⟨⟩
    decide
  obtain ⟨node, hnode, hid, drawn⟩ :
      ∃ node ∈ (Fragment.build ["Tests"] sampleTest).nodes, node.id = sampleTestCall.owner ∧
        sampleTestCall.Drawn node.kind (fun _ => some ⟨"Tests.T"⟩) :=
    Fragment.drawn_of_mem_refs hmem (by decide) hline hknown
  obtain ⟨hto, hplaceholder, hapart⟩ := ofEdge?_of_drawn drawn
  exact ⟨node, hnode, hid, drawn, hto _ _ _ (by decide), hto _ _ _ (by decide), hplaceholder _,
    hapart _ rfl (.inr (by decide))⟩

end Reference

end CodeAtlas
