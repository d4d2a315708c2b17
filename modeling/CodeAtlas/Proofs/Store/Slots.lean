import CodeAtlas.Graph.StableGraph
import Mathlib.Data.List.Nodup
import Mathlib.Tactic.Common

/-!
# Slots

What is found in a slot after each operation on the slots, and from it that two lists of slots make a
lawful store of nodes and links (`SlotGraph.lawful`). A slot that is given out is free: either it
lies behind all others, or it is the first one with nothing in it.
-/

set_option autoImplicit false

namespace CodeAtlas

namespace Slots

variable {α : Type}

@[simp] theorem get?_empty (i : Nat) : ({} : Slots α).get? i = none := rfl

theorem get?_free (s : Slots α) : s.get? s.free = none := by
  rw [get?, Option.join_eq_none_iff]
  by_cases h : s.free < s.slots.length
  · refine .inr ?_
    have hnone : (s.slots[s.free]).isNone = true := List.findIdx_getElem
    rw [List.getElem?_eq_getElem h, Option.isNone_iff_eq_none.mp hnone]
  · exact .inl (List.getElem?_eq_none (Nat.not_lt.mp h))

theorem get?_add (s : Slots α) (a : α) (j : Nat) :
    (s.add a).get? j = if s.free = j then some a else s.get? j := by
  unfold add
  split
  next hlt =>
    simp only [get?, List.getElem?_set, if_pos hlt]
    split <;> rfl
  next hge =>
    have hfree : s.free = s.slots.length :=
      Nat.le_antisymm List.findIdx_le_length (Nat.not_lt.mp hge)
    rw [hfree, get?, get?]
    by_cases hj : s.slots.length = j
    · rw [if_pos hj, ← hj, List.getElem?_concat_length]
      rfl
    · rw [if_neg hj]
      rcases Nat.lt_or_gt_of_ne hj with hlt | hgt
      · have hall : (s.slots ++ [some a]).length ≤ j := by
          rw [List.length_append]
          exact hlt
        rw [List.getElem?_eq_none hall, List.getElem?_eq_none (Nat.le_of_lt hlt)]
      · rw [List.getElem?_append_left hgt]

theorem lt_length_of_get? {s : Slots α} {i : Nat} (h : (s.get? i).isSome = true) :
    i < s.slots.length := by
  rw [get?] at h
  by_contra hge
  rw [List.getElem?_eq_none (Nat.not_lt.mp hge)] at h
  cases h

theorem isSome_set (s : Slots α) (i : Nat) (a : α) : (s.set i a).isSome = (s.get? i).isSome := by
  unfold set
  split
  next h => exact h.symm
  next h => exact (Bool.eq_false_iff.mpr h).symm

theorem get?_set {s s' : Slots α} {i : Nat} {a : α} (h : s.set i a = some s') (j : Nat) :
    s'.get? j = if i = j then some a else s.get? j := by
  unfold set at h
  split at h
  next hfilled =>
    cases h
    simp only [get?, List.getElem?_set, if_pos (lt_length_of_get? hfilled)]
    split <;> rfl
  next => cases h

theorem get?_remove (s : Slots α) (i j : Nat) :
    (s.remove i).get? j = if i = j then none else s.get? j := by
  simp only [remove, get?, List.getElem?_set]
  by_cases hj : i = j
  · rw [if_pos hj, if_pos hj]
    split <;> rfl
  · rw [if_neg hj, if_neg hj]

theorem get?_filter (s : Slots α) (keep : α → Bool) (i : Nat) :
    (s.filter keep).get? i = (s.get? i).filter keep := by
  rw [filter, get?, get?, List.getElem?_map]
  cases s.slots[i]? with
  | none => rfl
  | some slot => rfl

theorem mem_entries (s : Slots α) (i : Nat) (a : α) : (i, a) ∈ s.entries ↔ s.get? i = some a := by
  rw [entries, List.mem_filterMap]
  constructor
  · rintro ⟨j, -, hj⟩
    obtain ⟨b, hb, heq⟩ := Option.map_eq_some_iff.mp hj
    cases heq
    exact hb
  · intro h
    refine ⟨i, List.mem_range.mpr (lt_length_of_get? (by rw [h]; rfl)), ?_⟩
    rw [h]
    rfl

theorem nodup_entries (s : Slots α) : s.entries.Nodup := by
  refine List.Nodup.filterMap (fun i j entry hi hj => ?_) List.nodup_range
  obtain ⟨a, -, rfl⟩ := Option.map_eq_some_iff.mp hi
  obtain ⟨b, -, heq⟩ := Option.map_eq_some_iff.mp hj
  exact (Prod.mk.inj heq).1.symm

end Slots

open Slots in
instance SlotGraph.lawful {α β : Type} : LawfulStableGraph (SlotGraph α β) α β where
  node?_empty := get?_empty
  link?_empty := get?_empty
  mem_nodes g := g.nodes.mem_entries
  nodup_nodes g := g.nodes.nodup_entries
  mem_links g := g.links.mem_entries
  nodup_links g := g.links.nodup_entries
  mem_linksAt g heading i e l := by
    refine List.mem_filter.trans ?_
    rw [mem_entries, decide_eq_true_eq]
    rfl
  nodup_linksAt g heading i := g.links.nodup_entries.filter _
  node?_fresh g _ := g.nodes.get?_free
  node?_addNode g := g.nodes.get?_add
  link?_addNode _ _ _ := rfl
  isSome_setNode g i a := Option.isSome_map.trans (g.nodes.isSome_set i a)
  node?_setNode g g' i a h := by
    obtain ⟨slots, hslots, rfl⟩ := Option.map_eq_some_iff.mp h
    exact get?_set hslots
  link?_setNode g g' i a h := by
    obtain ⟨slots, -, rfl⟩ := Option.map_eq_some_iff.mp h
    exact fun _ => rfl
  node?_removeNode g := g.nodes.get?_remove
  link?_removeNode g i := g.links.get?_filter _
  isSome_addLink g i j b := by
    show (if _ then _ else _ : Option _).isSome = _
    split
    next h => exact h.symm
    next h => exact (Bool.eq_false_iff.mpr h).symm
  link?_fresh g g' i j e b h := by
    obtain ⟨-, heq⟩ := Option.ite_none_right_eq_some.mp h
    cases heq
    exact g.links.get?_free
  node?_addLink g g' i j e b h := by
    obtain ⟨-, heq⟩ := Option.ite_none_right_eq_some.mp h
    cases heq
    exact fun _ => rfl
  link?_addLink g g' i j e b h := by
    obtain ⟨-, heq⟩ := Option.ite_none_right_eq_some.mp h
    cases heq
    exact g.links.get?_add _
  isSome_setLink g e b := by
    show ((g.links.get? e).bind _).isSome = (g.links.get? e).isSome
    cases h : g.links.get? e with
    | none => rfl
    | some l => rw [Option.bind_some, Option.isSome_map, isSome_set, h]
  node?_setLink g g' e b h := by
    obtain ⟨l, -, hset⟩ := Option.bind_eq_some_iff.mp h
    obtain ⟨slots, -, rfl⟩ := Option.map_eq_some_iff.mp hset
    exact fun _ => rfl
  link?_setLink g g' e b h f := by
    obtain ⟨l, hl, hset⟩ := Option.bind_eq_some_iff.mp h
    obtain ⟨slots, hslots, rfl⟩ := Option.map_eq_some_iff.mp hset
    refine (get?_set hslots f).trans ?_
    by_cases hf : e = f
    · subst hf
      rw [if_pos rfl, if_pos rfl]
      show some _ = (g.links.get? e).map _
      rw [hl]
      rfl
    · rw [if_neg hf, if_neg hf]
      rfl
  node?_removeLink _ _ _ := rfl
  link?_removeLink g := g.links.get?_remove

end CodeAtlas
