import CodeAtlas.Proofs.Store.Rows
import CodeAtlas.SourceUnit.Basic
import Mathlib.Data.List.DropRight
import Mathlib.Data.List.TakeDrop
import Mathlib.Tactic.Common

/-!
# What cuts leave

Every cut of a text is told by how the text is put together again: a known piece is taken off an end
exactly if the text is the rest and the piece (`stripPrefix?_eq_some_iff`, `stripSuffix?_eq_some_iff`),
a text is cut at the first of its separators (`cutAt?_eq_some_iff`) and trimmed as far as it is blank
(`trim_eq_iff`). Two cuts are compared through the text that they were made from.

The names that the library fixes are found up to ASCII case, and each is found under its own spellings
only (`ofName?_eq_some_iff`, `ofFolder?_eq_some_iff`).
-/

set_option autoImplicit false

namespace CodeAtlas.Text

/-! ## Known ends -/

theorem stripPrefixChars?_eq_some_iff {piece cs rest : List Char} :
    stripPrefixChars? piece cs = some rest ↔ cs = piece ++ rest := by
  fun_induction stripPrefixChars? piece cs with
  | case1 cs => simp
  | case2 p ps c cs h ih =>
    rw [beq_iff_eq] at h
    rw [ih, h, List.cons_append, List.cons_inj_right]
  | case3 p ps c cs h =>
    rw [beq_iff_eq] at h
    simp [Ne.symm h]
  | case4 p ps => simp

theorem stripPrefix?_eq_some_iff {piece s rest : String} :
    stripPrefix? piece s = some rest ↔ s = piece ++ rest := by
  rw [stripPrefix?, Option.map_eq_some_iff, ← String.toList_inj, String.toList_append]
  constructor
  · rintro ⟨cs, h, rfl⟩
    rw [String.toList_ofList]
    exact stripPrefixChars?_eq_some_iff.mp h
  · intro h
    exact ⟨_, stripPrefixChars?_eq_some_iff.mpr h, String.ofList_toList⟩

theorem stripSuffix?_eq_some_iff {piece s rest : String} :
    stripSuffix? piece s = some rest ↔ s = rest ++ piece := by
  rw [stripSuffix?, Option.map_eq_some_iff, ← String.toList_inj, String.toList_append]
  constructor
  · rintro ⟨cs, h, rfl⟩
    rw [String.toList_ofList, ← List.reverse_inj, stripPrefixChars?_eq_some_iff.mp h,
      List.reverse_append, List.reverse_reverse]
  · intro h
    refine ⟨rest.toList.reverse, stripPrefixChars?_eq_some_iff.mpr ?_, ?_⟩
    · rw [h, List.reverse_append]
    · rw [List.reverse_reverse, String.ofList_toList]

/-- Of ends of the same length only one can be taken off a text. -/
theorem stripSuffix?_append {piece front ending : String}
    (h : ending.toList.length = piece.toList.length) :
    stripSuffix? piece (front ++ ending) = if ending = piece then some front else none := by
  split
  next heq => rw [stripSuffix?_eq_some_iff, heq]
  next hne =>
    refine Option.eq_none_iff_forall_ne_some.mpr fun rest hrest => hne ?_
    have hchars := congrArg String.toList (stripSuffix?_eq_some_iff.mp hrest)
    rw [String.toList_append, String.toList_append] at hchars
    exact String.toList_inj.mp (List.append_inj' hchars h).2

/-- A text ends in a piece up to ASCII case if what it really ends in is a spelling of the piece. -/
theorem hasSuffixAscii_iff {piece s : String} :
    hasSuffixAscii piece s = true ↔
      ∃ front ending, s = front ++ ending ∧ ending.toList.map lowerAscii = piece.toList := by
  rw [hasSuffixAscii, List.isSuffixOf_iff_suffix]
  constructor
  · rintro ⟨front, h⟩
    obtain ⟨before, ending, hs, -, hending⟩ := List.append_eq_map_iff.mp h
    refine ⟨String.ofList before, String.ofList ending, ?_, ?_⟩
    · rw [← String.ofList_append, ← hs, String.ofList_toList]
    · rw [String.toList_ofList, hending]
  · rintro ⟨front, ending, rfl, h⟩
    rw [String.toList_append, List.map_append, h]
    exact List.suffix_append _ _

/-- What ends a text and has no separator in it ends the last piece. -/
theorem suffix_of_suffix_append_cons {ending before after : List Char} {sep : Char}
    (h : ending <:+ before ++ sep :: after) (hsep : sep ∉ ending) : ending <:+ after := by
  rcases List.suffix_or_suffix_of_suffix h (List.suffix_append before (sep :: after)) with h | h
  · rcases List.suffix_cons_iff.mp h with rfl | h
    · exact absurd List.mem_cons_self hsep
    · exact h
  · exact absurd (h.mem List.mem_cons_self) hsep

theorem sameAscii_self (text : String) : sameAscii text text = true := by
  simp [sameAscii, sameAsciiChars]

/-! ## Separators -/

/-- A text is cut at the first of its separators. -/
theorem cutAt?_eq_some_iff {sep : Char} {s before after : String} :
    cutAt? sep s = some (before, after) ↔
      s.toList = before.toList ++ sep :: after.toList ∧ sep ∉ before.toList := by
  have hall : ∀ cs : List Char, sep ∉ cs ↔ ∀ c ∈ cs, (c != sep) = true := by
    intro cs
    simp only [bne_iff_ne, List.forall_mem_ne']
  rw [cutAt?, List.span_eq_takeWhile_dropWhile]
  constructor
  · intro h
    have hs := List.takeWhile_append_dropWhile (p := (· != sep)) (l := s.toList)
    cases hrest : s.toList.dropWhile (· != sep) with
    | nil => rw [hrest] at h; cases h
    | cons c rest =>
      have hc : c = sep := by
        simpa [hrest] using List.head?_dropWhile_not (· != sep) s.toList
      rw [hrest] at h hs
      obtain ⟨rfl, rfl⟩ := Prod.mk.inj (Option.some.inj h)
      rw [String.toList_ofList, String.toList_ofList, hall]
      exact ⟨hc ▸ hs.symm, fun d => List.mem_takeWhile_imp (p := (· != sep))⟩
  · rintro ⟨hs, hbefore⟩
    rw [hs, List.takeWhile_append_of_pos ((hall _).mp hbefore),
      List.dropWhile_append_of_pos ((hall _).mp hbefore), List.takeWhile_cons_of_neg (by simp),
      List.dropWhile_cons_of_neg (by simp), List.append_nil]
    simp [String.ofList_toList]

/-- The pieces are those of the library. -/
theorem splitOnChars_eq_splitOnP (sep : Char → Bool) (cs : List Char) :
    splitOnChars sep cs = cs.splitOnP sep := by
  fun_induction splitOnChars sep cs with
  | case1 => rfl
  | case2 c cs hc ih => rw [List.splitOnP_cons_eq_if_modifyHead, if_pos hc, ih]
  | case3 c cs piece pieces hsplit hc ih =>
    rw [List.splitOnP_cons_eq_if_modifyHead, if_neg (by simp [hc]), ← ih, hsplit]
    rfl
  | case4 c cs hsplit hc ih => exact absurd (ih ▸ hsplit) (List.splitOnP_ne_nil _ _)

/-- No piece has a separator in it. -/
theorem forall_mem_splitOnChars {sep : Char → Bool} {cs piece : List Char}
    (h : piece ∈ splitOnChars sep cs) : ∀ c ∈ piece, sep c = false := by
  fun_induction splitOnChars sep cs generalizing piece with
  | case1 => simp_all
  | case2 c cs hc ih =>
    rcases List.mem_cons.mp h with rfl | h
    · simp
    · exact ih h
  | case3 c cs first pieces hsplit hc ih =>
    rw [hsplit] at ih
    rcases List.mem_cons.mp h with rfl | h
    · simpa [hc] using ih List.mem_cons_self
    · exact ih (List.mem_cons_of_mem _ h)
  | case4 c cs hsplit hc ih => simp_all

/-- Between two pieces stands a separator, and there is no other one. -/
theorem of_splitBy_eq_pair {sep : Char} {s before after : String}
    (h : splitBy (· == sep) s = [before, after]) :
    s.toList = before.toList ++ sep :: after.toList ∧ sep ∉ before.toList ∧ sep ∉ after.toList := by
  obtain ⟨first, rest, hsplit, rfl, hrest⟩ := List.map_eq_cons_iff.mp h
  obtain ⟨second, none, rfl, rfl, hnone⟩ := List.map_eq_cons_iff.mp hrest
  obtain rfl := List.map_eq_nil_iff.mp hnone
  have hmem : ∀ piece ∈ [first, second], sep ∉ piece := by
    intro piece hpiece hsep
    have := forall_mem_splitOnChars (hsplit ▸ hpiece) sep hsep
    simp at this
  have hjoin : [sep].intercalate (s.toList.splitOn sep) = s.toList := List.intercalate_splitOn sep
  rw [List.splitOn_eq_splitOnP, ← splitOnChars_eq_splitOnP, hsplit] at hjoin
  simp only [String.toList_ofList]
  exact ⟨by simpa [List.intercalate_cons_cons] using hjoin.symm, hmem first (by simp),
    hmem second (by simp)⟩

/-! ## Blanks -/

/-- What is left of a text once it is trimmed: there are blanks around it, and none at its ends. -/
def Trimmed (text body : String) : Prop :=
  ∃ left right, text = left ++ body ++ right ∧
    (∀ c ∈ left.toList, isBlank c = true) ∧ (∀ c ∈ right.toList, isBlank c = true) ∧
    (∀ c ∈ body.toList.head?, isBlank c = false) ∧ ∀ c ∈ body.toList.getLast?, isBlank c = false

theorem dropWhile_of_head? {p : Char → Bool} {cs : List Char} (h : ∀ c ∈ cs.head?, p c = false) :
    cs.dropWhile p = cs := by
  cases cs with
  | nil => rfl
  | cons c cs => exact List.dropWhile_cons_of_neg (by simp [h c rfl])

/-- Trimming takes away what is blank at either end, and only that. -/
theorem trimmed_trim (text : String) : Trimmed text (trim text) := by
  have hfront := List.takeWhile_append_dropWhile (p := isBlank) (l := text.toList)
  have hback := List.rdropWhile_append_rtakeWhile (p := isBlank) (l := text.toList.dropWhile isBlank)
  have hbody : (trim text).toList = (text.toList.dropWhile isBlank).rdropWhile isBlank :=
    String.toList_ofList
  refine ⟨String.ofList (text.toList.takeWhile isBlank),
    String.ofList ((text.toList.dropWhile isBlank).rtakeWhile isBlank), ?_, ?_, ?_, ?_, ?_⟩
  · rw [← String.toList_inj, String.toList_append, String.toList_append, hbody,
      String.toList_ofList, String.toList_ofList, List.append_assoc, hback, hfront]
  · intro c hc
    exact List.mem_takeWhile_imp (String.toList_ofList ▸ hc)
  · intro c hc
    exact List.mem_rtakeWhile_imp (String.toList_ofList ▸ hc)
  · intro c hc
    rw [hbody] at hc
    have hhead : (text.toList.dropWhile isBlank).head? = some c := by
      rw [← hback, List.head?_append, hc]
      rfl
    simpa [hhead] using List.head?_dropWhile_not isBlank text.toList
  · intro c hc
    rw [hbody] at hc
    obtain ⟨hne, rfl⟩ := List.mem_getLast?_eq_getLast hc
    simpa using List.rdropWhile_last_not isBlank _ hne

theorem Trimmed.trim_eq {text body : String} (h : Trimmed text body) : trim text = body := by
  obtain ⟨left, right, rfl, hleft, hright, hhead, hlast⟩ := h
  have hfront : (body.toList ++ right.toList).dropWhile isBlank =
      if body.toList = [] then [] else body.toList ++ right.toList := by
    split
    next hnil => rw [hnil, List.nil_append, List.dropWhile_eq_nil_iff.mpr hright]
    next hne =>
      refine dropWhile_of_head? fun c hc => hhead c ?_
      rwa [List.head?_append_of_ne_nil _ hne] at hc
  have hback : (body.toList ++ right.toList).reverse.dropWhile isBlank = body.toList.reverse := by
    rw [List.reverse_append, List.dropWhile_append_of_pos (by simpa using hright)]
    exact dropWhile_of_head? (by simpa using hlast)
  rw [← String.toList_inj, trim, String.toList_ofList, trimChars, String.toList_append,
    String.toList_append, List.append_assoc, List.dropWhile_append_of_pos hleft, hfront]
  split
  next hnil => rw [hnil]; rfl
  next => rw [hback, List.reverse_reverse]

theorem trim_eq_iff {text body : String} : trim text = body ↔ Trimmed text body :=
  ⟨fun h => h ▸ trimmed_trim text, Trimmed.trim_eq⟩

end CodeAtlas.Text

namespace CodeAtlas.MetadataKind

open Text

/-! ## Names of categories -/

/-- Among names that differ by more than case, a text finds the one that it spells. -/
theorem find?_sameAscii_eq_some_iff (name : MetadataKind → String) {text : String} {kind : MetadataKind}
    (apart : (all.map fun k => (name k).toList.map lowerAscii).Nodup) :
    all.find? (fun k => sameAscii (name k) text) = some kind ↔
      kind ∈ all ∧ sameAscii (name kind) text = true := by
  constructor
  · intro h
    exact ⟨List.mem_of_find?_eq_some h, List.find?_some (p := fun k => sameAscii (name k) text) h⟩
  · rintro ⟨hmem, hsame⟩
    rw [sameAscii, sameAsciiChars, beq_iff_eq] at hsame
    have hself := find?_sameAscii apart hmem
    simp only [sameAscii, sameAsciiChars] at hself ⊢
    rw [← hsame, hself]

theorem ofName?_eq_some_iff {text : String} {kind : MetadataKind} :
    ofName? text = some kind ↔ kind ∈ all ∧ sameAscii kind.name text = true :=
  find?_sameAscii_eq_some_iff name (by decide +kernel)

theorem ofFolder?_eq_some_iff {text : String} {kind : MetadataKind} :
    ofFolder? text = some kind ↔ kind ∈ all ∧ sameAscii kind.folder text = true :=
  find?_sameAscii_eq_some_iff folder (by decide +kernel)

end CodeAtlas.MetadataKind
