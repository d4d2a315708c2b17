import CodeAtlas.Descriptor
import CodeAtlas.Proofs.Text.Cuts

/-!
# The grammar of type references

The types of attributes are names of the platform or references to objects. `Refers` says how the latter are
written, and nothing else is read as one (`typeReference?_eq_some_iff_refers`).

The reader cuts where the grammar only joins: at the mark in front, at the first dot, and at the `Ref` before
it. That the cuts meet the joints is due to the names of the categories, whose spellings hold neither the
colon of the mark nor a dot, and are none shorter than the mark.
-/

set_option autoImplicit false

namespace CodeAtlas

open Text

/-- The text of a type refers to an object: between blanks there is the mark or not, a spelling of the
category in any ASCII case, `Ref` and a dot, and a name without dots. -/
structure Refers (text : String) (kind : MetadataKind) (object : String) : Prop where
  named : kind ∈ MetadataKind.all
  body : ∃ mark ∈ ["", "cfg:"], ∃ spelling, sameAscii kind.name spelling = true ∧
    Trimmed text (mark ++ (spelling ++ "Ref." ++ object))
  filled : object ≠ ""
  undotted : '.' ∉ object.toList

namespace MetadataKind

variable {kind : MetadataKind} {spelling : String}

/-- What the names of categories have in common: no dot, no colon, and at least four characters. -/
theorem name_plain (kind : MetadataKind) :
    '.' ∉ kind.name.toList.map lowerAscii ∧ ':' ∉ kind.name.toList.map lowerAscii ∧
      4 ≤ (kind.name.toList.map lowerAscii).length := by
  cases kind <;> decide +kernel

/-- Every character of a spelling is one of the name's, up to case. -/
theorem notMem_spelling {c : Char} (hlower : lowerAscii c = c)
    (hname : c ∉ kind.name.toList.map lowerAscii) (h : sameAscii kind.name spelling = true) :
    c ∉ spelling.toList := by
  rw [sameAscii, sameAsciiChars, beq_iff_eq] at h
  intro hc
  rw [h] at hname
  exact hname (hlower ▸ List.mem_map_of_mem hc)

theorem dot_notMem_spelling (h : sameAscii kind.name spelling = true) : '.' ∉ spelling.toList :=
  notMem_spelling (by decide) kind.name_plain.1 h

theorem colon_notMem_spelling (h : sameAscii kind.name spelling = true) : ':' ∉ spelling.toList :=
  notMem_spelling (by decide) kind.name_plain.2.1 h

theorem four_le_length_spelling (h : sameAscii kind.name spelling = true) :
    4 ≤ spelling.toList.length := by
  rw [sameAscii, sameAsciiChars, beq_iff_eq] at h
  have hlong := kind.name_plain.2.2
  rwa [h, List.length_map] at hlong

theorem name_inj {a b : MetadataKind} (ha : a ∈ all) (hb : b ∈ all) (h : a.name = b.name) : a = b := by
  have hfound : ofName? a.name = some a := ofName?_eq_some_iff.mpr ⟨ha, sameAscii_self a.name⟩
  rw [h, ofName?_eq_some_iff.mpr ⟨hb, sameAscii_self b.name⟩] at hfound
  exact (Option.some.inj hfound).symm

end MetadataKind

/-! ## What the reader cuts -/

/-- Behind the mark, the reader finds a category's name, `Ref`, the first dot and the object. -/
theorem typeReference?_eq_some_iff_cut {text id : String} :
    typeReference? text = some id ↔
      ∃ spelling object kind,
        (stripPrefix? "cfg:" (trim text)).getD (trim text) = spelling ++ "Ref." ++ object ∧
        '.' ∉ spelling.toList ∧ MetadataKind.ofName? spelling = some kind ∧
        object ≠ "" ∧ '.' ∉ object.toList ∧ id = kind.name ++ "." ++ object := by
  have hjoin : ∀ body spelling object : String, body = spelling ++ "Ref." ++ object ↔
      body.toList = (spelling ++ "Ref").toList ++ '.' :: object.toList := by
    intro body spelling object
    rw [← String.toList_inj]
    simp [String.toList_append]
  have hdot : ∀ spelling : String, '.' ∉ (spelling ++ "Ref").toList ↔ '.' ∉ spelling.toList := by
    intro spelling
    simp [String.toList_append]
  simp only [typeReference?, Option.bind_eq_bind, Option.bind_eq_some_iff, Prod.exists,
    cutAt?_eq_some_iff, stripSuffix?_eq_some_iff]
  constructor
  · rintro ⟨_, object, ⟨hbody, htype⟩, spelling, rfl, kind, hkind, h⟩
    split at h
    · cases h
    next hobject =>
      obtain rfl := Option.some.inj h
      simp only [Bool.or_eq_true, String.isEmpty_iff, List.contains_eq_mem, decide_eq_true_eq, not_or]
        at hobject
      exact ⟨spelling, object, kind, (hjoin _ _ _).mpr hbody, (hdot _).mp htype, hkind,
        hobject.1, hobject.2, rfl⟩
  · rintro ⟨spelling, object, kind, hbody, hspelling, hkind, hfilled, hundotted, rfl⟩
    refine ⟨spelling ++ "Ref", object, ⟨(hjoin _ _ _).mp hbody, (hdot _).mpr hspelling⟩, spelling,
      rfl, kind, hkind, ?_⟩
    rw [if_neg (by simp [hfilled, hundotted])]
    rfl

/-- The mark is taken off where it stands, and nothing else is taken for it. -/
theorem getD_stripPrefix?_mark {mark spelling rest : String} (hmark : mark ∈ ["", "cfg:"])
    (hlong : 4 ≤ spelling.toList.length) (hcolon : ':' ∉ spelling.toList) :
    (stripPrefix? "cfg:" (mark ++ (spelling ++ rest))).getD (mark ++ (spelling ++ rest)) =
      spelling ++ rest := by
  rcases List.mem_pair.mp hmark with rfl | rfl
  · have hnone : stripPrefix? "cfg:" ("" ++ (spelling ++ rest)) = none := by
      refine Option.eq_none_iff_forall_ne_some.mpr fun other hother => hcolon ?_
      have hwhole := congrArg String.toList (stripPrefix?_eq_some_iff.mp hother)
      rw [String.empty_append, String.toList_append, String.toList_append] at hwhole
      have hmarked : "cfg:".toList <+: spelling.toList :=
        List.prefix_of_prefix_length_le ⟨other.toList, hwhole.symm⟩ (List.prefix_append _ _) hlong
      exact hmarked.mem (by decide)
    rw [hnone, String.empty_append]
    rfl
  · rw [stripPrefix?_eq_some_iff.mpr rfl]
    rfl

theorem refers_of_typeReference? {text id : String} (h : typeReference? text = some id) :
    ∃ kind object, Refers text kind object ∧ id = kind.name ++ "." ++ object := by
  obtain ⟨spelling, object, kind, hbody, -, hkind, hfilled, hundotted, rfl⟩ :=
    typeReference?_eq_some_iff_cut.mp h
  obtain ⟨hnamed, hsame⟩ := MetadataKind.ofName?_eq_some_iff.mp hkind
  refine ⟨kind, object, ⟨hnamed, ?_, hfilled, hundotted⟩, rfl⟩
  cases hstrip : stripPrefix? "cfg:" (trim text) with
  | none =>
    rw [hstrip] at hbody
    refine ⟨"", by decide, spelling, hsame, trim_eq_iff.mp ?_⟩
    rw [String.empty_append]
    exact hbody
  | some rest =>
    rw [hstrip] at hbody
    refine ⟨"cfg:", by decide, spelling, hsame, trim_eq_iff.mp ?_⟩
    rw [← show rest = spelling ++ "Ref." ++ object from hbody]
    exact stripPrefix?_eq_some_iff.mp hstrip

namespace Refers

variable {text object : String} {kind : MetadataKind}

/-- What is written as a reference is read as one. -/
theorem typeReference?_eq (h : Refers text kind object) :
    typeReference? text = some (kind.name ++ "." ++ object) := by
  obtain ⟨hnamed, ⟨mark, hmark, spelling, hsame, htrimmed⟩, hfilled, hundotted⟩ := h
  refine typeReference?_eq_some_iff_cut.mpr ⟨spelling, object, kind, ?_,
    MetadataKind.dot_notMem_spelling hsame, MetadataKind.ofName?_eq_some_iff.mpr ⟨hnamed, hsame⟩,
    hfilled, hundotted, rfl⟩
  rw [trim_eq_iff.mpr htrimmed, String.append_assoc]
  exact getD_stripPrefix?_mark hmark (MetadataKind.four_le_length_spelling hsame)
    (MetadataKind.colon_notMem_spelling hsame)

/-- A text refers to one object at most. -/
theorem unique {other : String} {otherKind : MetadataKind} (h : Refers text kind object)
    (ho : Refers text otherKind other) : otherKind = kind ∧ other = object := by
  have hid : otherKind.name ++ "." ++ other = kind.name ++ "." ++ object :=
    Option.some.inj (ho.typeReference?_eq.symm.trans h.typeReference?_eq)
  rw [← String.toList_inj] at hid
  simp only [String.toList_append, List.append_assoc] at hid
  have hdot := MetadataKind.dot_notMem_spelling (sameAscii_self otherKind.name)
  obtain ⟨hname, -, hobject⟩ := (List.append_cons_inj_of_notMem hdot ho.undotted).mp hid
  exact ⟨MetadataKind.name_inj ho.named h.named (String.toList_inj.mp hname), String.toList_inj.mp hobject⟩

end Refers

/-- A text is read as an id exactly if it refers to an object, and the id is the canonical name of its
category, a dot and the object's name. There is no more than one category and object that it can refer to. -/
theorem typeReference?_eq_some_iff_refers (text id : String) :
    (typeReference? text = some id ↔
      ∃ kind object, Refers text kind object ∧ id = kind.name ++ "." ++ object) ∧
    ((∃ kind object, Refers text kind object) ↔
      ∃! p : MetadataKind × String, Refers text p.1 p.2) := by
  refine ⟨⟨refers_of_typeReference?, ?_⟩, ?_, ?_⟩
  · rintro ⟨kind, object, h, rfl⟩
    exact h.typeReference?_eq
  · rintro ⟨kind, object, h⟩
    refine ⟨(kind, object), h, fun p hp => ?_⟩
    obtain ⟨hkind, hobject⟩ := h.unique hp
    exact Prod.ext hkind hobject
  · rintro ⟨p, h, -⟩
    exact ⟨p.1, p.2, h⟩

example : typeReference? " cfg:catalogRef.Units\n" = some "Catalog.Units" := by decide +kernel

end CodeAtlas
