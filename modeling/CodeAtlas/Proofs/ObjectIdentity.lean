import CodeAtlas.Proofs.Fragment
import CodeAtlas.Proofs.Text.Cuts

/-!
# Objects by their paths

A descriptor is told by its path: two segments, of which the first is the folder of a category and the
second ends in `.xml`, in any ASCII case. The object's identity is read off the same path once more, and
there the extension is known in two spellings only. So a descriptor is the object that its path names
exactly if its extension is uniform, or if its content happens to say the same (`identity_by_path_iff`).
Under any other extension the content decides, and the same path stands for different objects
(`mixed_extension_hides_object`).
-/

set_option autoImplicit false

namespace CodeAtlas

open Text

/-- What the path of a descriptor is made of: the folder of a category, and behind the slash a name and
some spelling of the extension. -/
structure DescriptorPath (path folder stem ending : String) (kind : MetadataKind) : Prop where
  segments : pathSegments path = [folder, stem ++ ending]
  folder_eq : MetadataKind.ofFolder? folder = some kind
  extension : sameAscii ".xml" ending = true

/-- A path is classified as that of a descriptor only if it is made so. -/
theorem exists_descriptorPath {path : String}
    (h : UnitKind.classify path = some .metadataDescriptor) :
    ∃ folder stem ending kind, DescriptorPath path folder stem ending kind := by
  unfold UnitKind.classify at h
  split at h
  · cases h
  split at h
  · cases h
  split at h
  next hextension =>
    split at h
    next folder file hsegments =>
      obtain ⟨kind, hkind, -⟩ := Option.map_eq_some_iff.mp h
      obtain ⟨front, ending, hpath, hending⟩ := hasSuffixAscii_iff.mp hextension
      obtain ⟨hslash, -, -⟩ := of_splitBy_eq_pair hsegments
      -- The whole path ends in the extension, and so does its last segment, as it holds no slash.
      have hnot : '/' ∉ ending.toList := by
        intro hmem
        have hlower := List.mem_map_of_mem (f := lowerAscii) hmem
        rw [hending] at hlower
        exact absurd hlower (by decide)
      rw [hpath, String.toList_append] at hslash
      obtain ⟨stem, hfile⟩ := suffix_of_suffix_append_cons ⟨_, hslash⟩ hnot
      have hcut : String.ofList stem ++ ending = file := by
        rw [← String.toList_inj, String.toList_append, String.toList_ofList, hfile]
      refine ⟨folder, String.ofList stem, ending, kind, ⟨hcut ▸ hsegments, hkind, ?_⟩⟩
      rw [sameAscii, sameAsciiChars, hending]
      decide
    next => cases h
  · cases h

namespace DescriptorPath

variable {path folder stem ending : String} {kind : MetadataKind}

/-- The object is found on its path if the extension is uniform, and not at all otherwise. -/
theorem descriptorObject?_eq (h : DescriptorPath path folder stem ending kind) :
    descriptorObject? path =
      if ending = ".xml" ∨ ending = ".XML" then some (kind, stem) else none := by
  obtain ⟨hslash, hfolder, -⟩ := of_splitBy_eq_pair h.segments
  have hcut : cutAt? '/' path = some (folder, stem ++ ending) :=
    cutAt?_eq_some_iff.mpr ⟨hslash, hfolder⟩
  have hlength : ending.toList.length = 4 := by
    have hsame := congrArg List.length (beq_iff_eq.mp h.extension)
    rw [List.length_map, List.length_map] at hsame
    exact hsame.symm
  have hsmall : stripSuffix? ".xml" (stem ++ ending) = if ending = ".xml" then some stem else none :=
    stripSuffix?_append hlength
  have hlarge : stripSuffix? ".XML" (stem ++ ending) = if ending = ".XML" then some stem else none :=
    stripSuffix?_append hlength
  simp only [descriptorObject?, Option.bind_eq_bind, hcut, Option.bind_some, h.folder_eq, hsmall,
    hlarge]
  by_cases h₁ : ending = ".xml"
  · simp [h₁]
  · by_cases h₂ : ending = ".XML"
    · simp [h₂]
    · simp [h₁, h₂]

theorem kind_ne_other (h : DescriptorPath path folder stem ending kind) : kind ≠ .other := by
  rintro rfl
  exact absurd (MetadataKind.ofFolder?_eq_some_iff.mp h.folder_eq).1 (by decide)

end DescriptorPath

theorem NodeId.metadataObject_inj {kind : MetadataKind} {a b : String}
    (h : NodeId.metadataObject kind a = .metadataObject kind b) : a = b := by
  have htext : kind.name ++ "." ++ a = kind.name ++ "." ++ b := congrArg NodeId.text h
  exact (String.append_right_inj _).mp htext

namespace Fragment

variable {parsed : ParsedUnit}

/-- The object is the one that the path names if the extension is uniform or the content agrees. -/
theorem objectIdentity_eq_iff {folder stem ending : String} {kind : MetadataKind}
    (h : DescriptorPath parsed.unit.path folder stem ending kind) :
    objectIdentity parsed = (kind, stem) ↔
      ending = ".xml" ∨ ending = ".XML" ∨
        ∃ d, parsed.outline.descriptor = some d ∧ d.kind = some kind ∧ d.name = stem := by
  rw [← or_assoc, objectIdentity, h.descriptorObject?_eq]
  by_cases huniform : ending = ".xml" ∨ ending = ".XML"
  · rw [if_pos huniform]
    exact iff_of_true rfl (.inl huniform)
  · rw [if_neg huniform, or_iff_right huniform, Option.none_or]
    have hfallback : ∀ name, (MetadataKind.other, name) ≠ (kind, stem) := fun name heq =>
      h.kind_ne_other (congrArg Prod.fst heq).symm
    cases hd : parsed.outline.descriptor with
    | none => simp [hfallback]
    | some d =>
      cases hkind : d.kind with
      | none => simp [hfallback, hkind]
      | some described => simp [hkind]

/-- The fragment of a descriptor has one node. It is the object that the path names, of the category of
the first segment and with the second segment's name without the extension, exactly if the extension is
in small or in capital letters throughout, or the content names the same object. -/
theorem identity_by_path_iff (markers : List String)
    (accepted : UnitKind.classify parsed.unit.path = some .metadataDescriptor)
    (asSuch : parsed.unit.kind = .metadataDescriptor) :
    ∃ folder stem ending kind node, DescriptorPath parsed.unit.path folder stem ending kind ∧
      (build markers parsed).nodes = [node] ∧
      (node.kind = .metadataObject kind ∧ node.id = .metadataObject kind stem ↔
        ending = ".xml" ∨ ending = ".XML" ∨
          ∃ d, parsed.outline.descriptor = some d ∧ d.kind = some kind ∧ d.name = stem) := by
  obtain ⟨folder, stem, ending, kind, hpath⟩ := exists_descriptorPath accepted
  obtain ⟨node, hnodes, -, hkind, hid⟩ := heads_ofMetadataObject parsed
  refine ⟨folder, stem, ending, kind, node, hpath, ?_, ?_⟩
  · rw [build, asSuch]
    exact hnodes
  rw [← objectIdentity_eq_iff hpath, hkind, hid]
  constructor
  · rintro ⟨hsame, hname⟩
    obtain rfl := NodeKind.metadataObject.inj hsame
    exact Prod.ext rfl (NodeId.metadataObject_inj hname)
  · intro h
    rw [h]
    exact ⟨rfl, rfl⟩

/-- A descriptor at a path, read as an outline. -/
def sampleDescriptor (path : String) (outline : Outline) : ParsedUnit :=
  ⟨⟨path, .metadataDescriptor, .ofText ""⟩, outline⟩

/-- The extension is mixed, and the content names the object of the path. -/
theorem identity_by_path_iff_sample :
    let parsed := sampleDescriptor "catalogs/Товары.Xml"
      { descriptor := some { kind := some .catalog, name := "Товары" } }
    UnitKind.classify parsed.unit.path = some .metadataDescriptor ∧
      parsed.unit.kind = .metadataDescriptor ∧
      ∃ folder stem ending kind node, DescriptorPath parsed.unit.path folder stem ending kind ∧
        (build [] parsed).nodes = [node] ∧
        (node.kind = .metadataObject kind ∧ node.id = .metadataObject kind stem ↔
          ending = ".xml" ∨ ending = ".XML" ∨
            ∃ d, parsed.outline.descriptor = some d ∧ d.kind = some kind ∧ d.name = stem) := by
  have accepted : UnitKind.classify "catalogs/Товары.Xml" = some .metadataDescriptor := by
    decide +kernel
  exact ⟨accepted, rfl, identity_by_path_iff [] accepted rfl⟩

/-- Under a mixed extension, a descriptor that cannot be read is no catalog, and one that can is the object
that its content names. -/
theorem mixed_extension_hides_object :
    UnitKind.classify "Catalogs/Products.Xml" = some .metadataDescriptor ∧
      MetadataKind.ofFolder? "Catalogs" = some .catalog ∧
      (build [] (sampleDescriptor "Catalogs/Products.Xml" .failed)).nodes.map (fun n => (n.kind, n.id)) =
        [(.metadataObject .other, ⟨"Other.Products.Xml"⟩)] ∧
      (build [] (sampleDescriptor "Catalogs/Products.Xml"
          { descriptor := some { kind := some .catalog, name := "Goods" } })).nodes.map
          (fun n => (n.kind, n.id)) =
        [(.metadataObject .catalog, ⟨"Catalog.Goods"⟩)] := by
  decide +kernel

end Fragment

end CodeAtlas
