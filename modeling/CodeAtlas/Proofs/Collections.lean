import Mathlib.Data.List.Pairwise
import Mathlib.Data.List.Sort
import Mathlib.Tactic.Common
import Std.Data.ExtTreeMap
import Std.Data.ExtTreeSet

/-!
# Maps and sets, key by key

The bookkeeping, the plans and the graph are sorted maps and sets that are built by folding lists into
them. What a fold leaves is read off key by key: a fold of insertions holds the value given for a
key, a fold of deletions holds nothing under the keys of the list. The order of the keys matters only
to the lists that are read out of a map. These are in strict order, so that their members decide about
them (`eq_of_strict`).
-/

set_option autoImplicit false

namespace CodeAtlas.Maps

open Std

/-- Lists in strict order are equal if they have the same members. -/
theorem eq_of_strict {α : Type} {cmp : α → α → Ordering} [TransCmp cmp] {a b : List α}
    (ha : a.Pairwise fun x y => cmp x y = .lt) (hb : b.Pairwise fun x y => cmp x y = .lt)
    (h : ∀ x, x ∈ a ↔ x ∈ b) : a = b := by
  have : Std.Irrefl fun x y => cmp x y = .lt := ⟨fun x hx => by
    have hself : cmp x x = .eq := ReflCmp.compare_self
    rw [hself] at hx
    cases hx⟩
  have : Std.Asymm fun x y => cmp x y = .lt := ⟨fun x y hxy hyx => by
    rw [OrientedCmp.gt_of_lt hxy] at hyx
    cases hyx⟩
  exact ha.eq_of_mem_iff hb h

theorem pairwise_mergeSort {α : Type} (cmp : α → α → Ordering) [TransCmp cmp] (items : List α) :
    (items.mergeSort fun x y => (cmp x y).isLE).Pairwise fun x y => (cmp x y).isLE = true := by
  refine List.pairwise_mergeSort (fun x y z => TransCmp.isLE_trans) (fun x y => ?_) items
  rw [Bool.or_eq_true]
  cases h : cmp x y with
  | lt => exact .inl rfl
  | eq => exact .inl rfl
  | gt =>
    refine .inr ?_
    rw [OrientedCmp.lt_of_gt h]
    rfl

/-- Sorting brings items into the strict order that their members have elsewhere. -/
theorem mergeSort_eq {α : Type} (cmp : α → α → Ordering) [TransCmp cmp] {a b : List α}
    (hb : b.Pairwise fun x y => cmp x y = .lt) (ha : a.Nodup) (h : ∀ x, x ∈ a ↔ x ∈ b) :
    (a.mergeSort fun x y => (cmp x y).isLE) = b := by
  have : Std.Symm fun x y => cmp x y = .eq → x = y :=
    ⟨fun x y hxy hyx => (hxy (OrientedCmp.eq_symm hyx)).symm⟩
  have apart : ∀ x ∈ b, ∀ y ∈ b, cmp x y = .eq → x = y := fun x hx y hy =>
    List.Pairwise.forall_of_forall (R := fun x y => cmp x y = .eq → x = y) (fun _ _ _ => rfl)
      (hb.imp fun hlt heq => by rw [hlt] at heq; cases heq) hx hy
  refine eq_of_strict ?_ hb fun x => by rw [List.mem_mergeSort, h]
  have hnodup : (a.mergeSort fun x y => (cmp x y).isLE).Nodup :=
    (List.mergeSort_perm a _).nodup_iff.mpr ha
  refine ((pairwise_mergeSort cmp a).and hnodup).imp_of_mem fun {x y} hx hy hle => ?_
  cases hxy : cmp x y with
  | lt => rfl
  | eq =>
    refine absurd (apart x ?_ y ?_ hxy) hle.2
    · exact (h x).mp (List.mem_mergeSort.mp hx)
    · exact (h y).mp (List.mem_mergeSort.mp hy)
  | gt =>
    rw [hxy] at hle
    cases hle.1

variable {κ : Type} [Ord κ] [TransOrd κ] {α β : Type}

theorem contains_iff (m : ExtTreeMap κ β) (k : κ) : m.contains k = true ↔ ∃ v, m[k]? = some v := by
  rw [ExtTreeMap.contains_eq_isSome_getElem?, Option.isSome_iff_exists]

theorem contains_eq_false_iff (m : ExtTreeMap κ β) (k : κ) :
    m.contains k = false ↔ m[k]? = none := by
  rw [ExtTreeMap.contains_eq_isSome_getElem?, Option.isSome_eq_false_iff, Option.isNone_iff_eq_none]

/-- The values are those of the list of pairs; the library has lemmas about the latter only. -/
theorem values_eq_map_toList (m : ExtTreeMap κ β) : m.values = m.toList.map (·.2) := by
  have h : m.values = m.foldr (fun _ v l => v :: l) [] := by
    obtain ⟨m⟩ := m
    induction m using ExtDTreeMap.inductionOn with
    | mk m => rfl
  rw [h, ExtTreeMap.foldr_eq_foldr_toList]
  induction m.toList with
  | nil => rfl
  | cons p rest ih => simp [ih]

theorem length_values (m : ExtTreeMap κ β) : m.values.length = m.size := by
  rw [values_eq_map_toList, List.length_map, ExtTreeMap.length_toList]

/-- A fold that inserts a part of each item finds that part of what the whole items give. -/
theorem get_foldl_insert_map (key : α → κ) (part : α → β) (items : List α) (m : ExtTreeMap κ β)
    (n : ExtTreeMap κ α) (k : κ) (h : m[k]? = n[k]?.map part) :
    (items.foldl (fun m x => m.insert (key x) (part x)) m)[k]? =
      (items.foldl (fun m x => m.insert (key x) x) n)[k]?.map part := by
  induction items generalizing m n with
  | nil => exact h
  | cons x rest ih =>
    rw [List.foldl_cons, List.foldl_cons]
    refine ih _ _ ?_
    rw [ExtTreeMap.getElem?_insert, ExtTreeMap.getElem?_insert]
    split
    · rfl
    · exact h

variable [LawfulEqOrd κ]

theorem mem_values (m : ExtTreeMap κ β) (v : β) : v ∈ m.values ↔ ∃ k : κ, m[k]? = some v := by
  rw [values_eq_map_toList]
  constructor
  · intro h
    obtain ⟨⟨k, w⟩, hm, rfl⟩ := List.mem_map.mp h
    exact ⟨k, ExtTreeMap.mem_toList_iff_getElem?_eq_some.mp hm⟩
  · rintro ⟨k, h⟩
    exact List.mem_map.mpr ⟨(k, v), ExtTreeMap.mem_toList_iff_getElem?_eq_some.mpr h, rfl⟩

/-- Items that stand under their own keys are listed by key. -/
theorem map_values {key : α → κ} {m : ExtTreeMap κ α}
    (keyed : ∀ (k : κ) (x : α), m[k]? = some x → key x = k) : m.values.map key = m.keys := by
  rw [values_eq_map_toList, List.map_map, ← ExtTreeMap.map_fst_toList_eq_keys]
  refine List.map_congr_left fun pair hp => ?_
  exact keyed pair.1 pair.2 (ExtTreeMap.mem_toList_iff_getElem?_eq_some.mp hp)

/-- Items that stand under their own keys are listed in strict order of these. -/
theorem pairwise_values {key : α → κ} {m : ExtTreeMap κ α}
    (keyed : ∀ (k : κ) (x : α), m[k]? = some x → key x = k) :
    m.values.Pairwise fun a b => compareOn key a b = .lt := by
  have hkeys : (m.values.map key).Pairwise fun a b => compare a b = .lt := by
    rw [map_values keyed]
    exact ExtTreeMap.ordered_keys
  exact List.pairwise_map.mp hkeys

/-- Where the key decides about the value, the values are listed as the keys are. -/
theorem values_eq_map_keys {f : κ → β} {m : ExtTreeMap κ β}
    (h : ∀ (k : κ) (v : β), m[k]? = some v → f k = v) : m.values = m.keys.map f := by
  rw [values_eq_map_toList, ← ExtTreeMap.map_fst_toList_eq_keys, List.map_map]
  refine List.map_congr_left fun pair hp => ?_
  exact (h pair.1 pair.2 (ExtTreeMap.mem_toList_iff_getElem?_eq_some.mp hp)).symm

/-- A set lists each of its members once. -/
theorem nodup_toList (members : ExtTreeSet κ) : members.toList.Nodup := by
  refine ExtTreeSet.distinct_toList.imp ?_
  intro a b hne he
  exact hne (by simp [he])

/-- A fold that inserts a key of each item adds these keys. -/
theorem mem_foldl_insert (key : α → κ) (items : List α) (members : ExtTreeSet κ) (k : κ) :
    k ∈ items.foldl (fun members x => members.insert (key x)) members ↔
      k ∈ members ∨ k ∈ items.map key := by
  induction items generalizing members with
  | nil => simp
  | cons x rest ih =>
    rw [List.foldl_cons, ih, ExtTreeSet.mem_insert, LawfulEqCmp.compare_eq_iff_eq, List.map_cons,
      List.mem_cons, or_comm (a := key x = k), or_assoc, eq_comm]

/-- Maps list the same keys if they have the same keys. -/
theorem keys_eq_iff {a b : ExtTreeMap κ β} :
    a.keys = b.keys ↔ ∀ k : κ, a.contains k = b.contains k := by
  constructor
  · intro h k
    rw [Bool.eq_iff_iff, ← ExtTreeMap.mem_iff_contains, ← ExtTreeMap.mem_iff_contains,
      ← ExtTreeMap.mem_keys, ← ExtTreeMap.mem_keys, h]
  · intro h
    have hmap : a.map (fun _ _ => ()) = b.map fun _ _ => () := by
      apply ExtTreeMap.ext_getElem?
      intro k
      have hk := h k
      rw [ExtTreeMap.contains_eq_isSome_getElem?, ExtTreeMap.contains_eq_isSome_getElem?] at hk
      rw [ExtTreeMap.getElem?_map, ExtTreeMap.getElem?_map]
      cases ha : a[k]? <;> cases hb : b[k]? <;> simp_all
    rw [← ExtTreeMap.keys_map (f := fun _ _ => ()), hmap, ExtTreeMap.keys_map]

/-- Inserting items under their own keys changes nothing under other keys. -/
theorem get_foldl_insert_of_forall_ne (key : α → κ) (items : List α) (m : ExtTreeMap κ α) (k : κ)
    (h : ∀ x ∈ items, key x ≠ k) :
    (items.foldl (fun m x => m.insert (key x) x) m)[k]? = m[k]? := by
  induction items generalizing m with
  | nil => rfl
  | cons x rest ih =>
    rw [List.foldl_cons, ih _ fun y hy => h y (List.mem_cons_of_mem x hy),
      ExtTreeMap.getElem?_insert]
    simp [h x List.mem_cons_self]

/-- An item that is the only one with its key is found under it. -/
theorem get_foldl_insert_of_mem (key : α → κ) (items : List α) (m : ExtTreeMap κ α) (x : α)
    (hx : x ∈ items) (only : ∀ y ∈ items, key y = key x → y = x) :
    (items.foldl (fun m x => m.insert (key x) x) m)[key x]? = some x := by
  induction items generalizing m with
  | nil => simp at hx
  | cons y rest ih =>
    rw [List.foldl_cons]
    by_cases hr : x ∈ rest
    · exact ih _ hr fun z hz => only z (List.mem_cons_of_mem y hz)
    · have hy : x = y := by
        rcases List.mem_cons.mp hx with h | h
        · exact h
        · exact absurd h hr
      subst hy
      rw [get_foldl_insert_of_forall_ne]
      · simp
      · intro z hz hk
        exact hr (only z (List.mem_cons_of_mem x hz) hk ▸ hz)

/-- Folding a keyed map into another lets the first win. -/
theorem get_foldl_insert_values (key : α → κ) (items m : ExtTreeMap κ α)
    (keyed : ∀ (k : κ) (x : α), items[k]? = some x → key x = k) (k : κ) :
    (items.values.foldl (fun m x => m.insert (key x) x) m)[k]? = items[k]?.or m[k]? := by
  cases hk : items[k]? with
  | none =>
    rw [get_foldl_insert_of_forall_ne]
    · rfl
    · intro x hx hkey
      obtain ⟨k', hk'⟩ := (mem_values items x).mp hx
      have : k' = k := (keyed k' x hk').symm.trans hkey
      rw [this, hk] at hk'
      simp at hk'
  | some x =>
    have hx : x ∈ items.values := (mem_values items x).mpr ⟨k, hk⟩
    have hkey : key x = k := keyed k x hk
    rw [← hkey, get_foldl_insert_of_mem key items.values m x hx]
    · rfl
    · intro y hy he
      obtain ⟨k', hk'⟩ := (mem_values items y).mp hy
      have : k' = k := (keyed k' y hk').symm.trans (he.trans hkey)
      rw [this, hk] at hk'
      exact (Option.some.inj hk').symm

variable [DecidableEq κ]

/-! ## One change at a time -/

theorem get_insert (m : ExtTreeMap κ β) (k a : κ) (v : β) :
    (m.insert k v)[a]? = if k = a then some v else m[a]? := by
  rw [ExtTreeMap.getElem?_insert]
  simp only [LawfulEqCmp.compare_eq_iff_eq]

theorem get_erase (m : ExtTreeMap κ β) (k a : κ) :
    (m.erase k)[a]? = if k = a then none else m[a]? := by
  rw [ExtTreeMap.getElem?_erase]
  simp only [LawfulEqCmp.compare_eq_iff_eq]

/-- The first value inserted under a key stays. -/
theorem get_insertIfNew (m : ExtTreeMap κ β) (k a : κ) (v : β) :
    (m.insertIfNew k v)[a]? = if k = a then some (m[a]?.getD v) else m[a]? := by
  rw [ExtTreeMap.getElem?_insertIfNew]
  by_cases h : k = a
  · subst h
    cases hm : m[k]? with
    | none =>
      have hk : ¬ k ∈ m := by simpa using hm
      simp [hk]
    | some w =>
      have hk : k ∈ m := by
        rw [← ExtTreeMap.isSome_getElem?_iff_mem, hm]; rfl
      simp [hk]
  · simp [h]

theorem get_modify (m : ExtTreeMap κ β) (k a : κ) (f : β → β) :
    (m.modify k f)[a]? = if k = a then m[a]?.map f else m[a]? := by
  rw [ExtTreeMap.getElem?_modify]
  by_cases h : k = a
  · subst h; simp
  · simp [h]

theorem get_alter (m : ExtTreeMap κ β) (k a : κ) (f : Option β → Option β) :
    (m.alter k f)[a]? = if k = a then f m[a]? else m[a]? := by
  rw [ExtTreeMap.getElem?_alter]
  by_cases h : k = a
  · subst h; simp
  · simp [h]

/-! ## Folds -/

theorem get_foldl_erase (keys : List κ) (m : ExtTreeMap κ β) (k : κ) :
    (keys.foldl (fun m key => m.erase key) m)[k]? = if k ∈ keys then none else m[k]? := by
  induction keys generalizing m with
  | nil => simp
  | cons key rest ih =>
    rw [List.foldl_cons, ih, ExtTreeMap.getElem?_erase]
    by_cases hr : k ∈ rest
    · simp [hr]
    · by_cases hk : key = k
      · simp [hr, hk]
      · have hk' : ¬ k = key := fun h => hk h.symm
        simp [hr, hk, hk']

/-- Under the key of an item some item with this key is found. -/
theorem get_foldl_insert_of_exists (key : α → κ) (items : List α) (m : ExtTreeMap κ α) (k : κ)
    (h : ∃ x ∈ items, key x = k) :
    ∃ x ∈ items, key x = k ∧ (items.foldl (fun m x => m.insert (key x) x) m)[k]? = some x := by
  induction items generalizing m with
  | nil => simp at h
  | cons y rest ih =>
    rw [List.foldl_cons]
    by_cases hr : ∃ x ∈ rest, key x = k
    · obtain ⟨x, hx, hk, hget⟩ := ih (m.insert (key y) y) hr
      exact ⟨x, List.mem_cons_of_mem y hx, hk, hget⟩
    · obtain ⟨x, hx, hk⟩ := h
      rcases List.mem_cons.mp hx with rfl | hx
      · refine ⟨x, List.mem_cons_self, hk, ?_⟩
        rw [get_foldl_insert_of_forall_ne _ _ _ _ fun z hz he => hr ⟨z, hz, he⟩, ← hk]
        simp
      · exact absurd ⟨x, hx, hk⟩ hr

/-- Under every key the last item with this key is found, or else what was there before. -/
theorem get_foldl_insert (key : α → κ) (items : List α) (m : ExtTreeMap κ α) (k : κ) :
    (items.foldl (fun m x => m.insert (key x) x) m)[k]? =
      (items.filter (key · = k)).getLast?.or m[k]? := by
  induction items generalizing m with
  | nil => simp
  | cons x rest ih =>
    rw [List.foldl_cons, ih, ExtTreeMap.getElem?_insert]
    by_cases hk : key x = k
    · rw [List.filter_cons_of_pos (by simpa using hk), List.getLast?_cons]
      cases (rest.filter (key · = k)).getLast? <;> simp [hk]
    · rw [List.filter_cons_of_neg (by simpa using hk)]
      simp [hk]

/-- Under every key the first item with this key is found, unless something was there before. -/
theorem get_foldl_insertIfNew (key : α → κ) (items : List α) (m : ExtTreeMap κ α) (k : κ) :
    (items.foldl (fun m x => m.insertIfNew (key x) x) m)[k]? =
      m[k]?.or (items.find? (key · = k)) := by
  induction items generalizing m with
  | nil => simp
  | cons x rest ih =>
    rw [List.foldl_cons, ih, get_insertIfNew]
    by_cases hk : key x = k
    · cases m[k]? <;> simp [hk]
    · simp [hk]

/-- Items stand under their own keys, so that those that are kept are listed by key. -/
theorem map_values_foldl_insertIfNew (key : α → κ) (items : List α) :
    (items.foldl (fun m x => m.insertIfNew (key x) x) (∅ : ExtTreeMap κ α)).values.map key =
      (items.foldl (fun m x => m.insertIfNew (key x) x) (∅ : ExtTreeMap κ α)).keys := by
  refine map_values fun k x h => ?_
  rw [get_foldl_insertIfNew] at h
  have hfound : items.find? (key · = k) = some x := by simpa using h
  simpa using List.find?_some hfound

/-- Where a key has one item only, none gets lost. -/
theorem mem_values_foldl_insertIfNew (key : α → κ) {items : List α}
    (agree : ∀ a ∈ items, ∀ b ∈ items, key a = key b → a = b) {x : α} :
    x ∈ (items.foldl (fun m x => m.insertIfNew (key x) x) (∅ : ExtTreeMap κ α)).values ↔
      x ∈ items := by
  rw [mem_values]
  simp only [get_foldl_insertIfNew, ExtTreeMap.getElem?_empty, Option.none_or]
  constructor
  · intro h
    obtain ⟨k, hk⟩ := h
    exact List.mem_of_find?_eq_some hk
  · intro h
    obtain ⟨y, hy⟩ : ∃ y, items.find? (key · = key x) = some y :=
      Option.isSome_iff_exists.mp (List.find?_isSome.mpr ⟨x, h, by simp⟩)
    have hkey : key y = key x := by simpa using List.find?_some hy
    rw [agree y (List.mem_of_find?_eq_some hy) x h hkey] at hy
    exact ⟨key x, hy⟩

theorem contains_foldl_insert (key : α → κ) (items : List α) (m : ExtTreeMap κ α) (k : κ) :
    (items.foldl (fun m x => m.insert (key x) x) m).contains k = true ↔
      (∃ x ∈ items, key x = k) ∨ m.contains k = true := by
  rw [contains_iff, contains_iff]
  by_cases h : ∃ x ∈ items, key x = k
  · obtain ⟨x, -, -, hget⟩ := get_foldl_insert_of_exists key items m k h
    exact iff_of_true ⟨x, hget⟩ (.inl h)
  · rw [get_foldl_insert_of_forall_ne key items m k fun x hx he => h ⟨x, hx, he⟩]
    exact ⟨.inr, fun hm => hm.resolve_left h⟩

end CodeAtlas.Maps
