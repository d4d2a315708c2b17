import CodeAtlas.Proofs.PendingQueue
import Mathlib.Data.List.Induction

/-!
# A history of the queue

The queue is filled, emptied reference by reference, and emptied unit by unit (`PendingQueue.Call`). Which
references wait after any history of calls is decided by the history alone (`mem_after_iff`): a reference
waits if it came while nothing waited under its key, and no call has taken it away since.

What a call does is told once, for all calls (`mem_call_iff`): it leaves what it does not take away, and adds
a reference at most, where there was none.
-/

set_option autoImplicit false

namespace CodeAtlas

open Std

namespace PendingQueue

/-! ## Calls -/

/-- What can be asked of the queue. -/
inductive Call where
  | insert (r : Reference)
  | remove (r : Reference)
  | drainUnit (unit : String)

/-- What the queue answers. -/
inductive Reply where
  /-- Whether the placeholder is new. -/
  | isNew (new : Bool)
  /-- The placeholder that nothing waits for any more, if there is one. -/
  | orphaned (placeholder : Option NodeId)
  /-- What was taken away. -/
  | drained (references : List Reference)

/-- What a call does to the queue, and what it answers. -/
def call (q : PendingQueue) : Call → PendingQueue × Reply
  | .insert r => (q.insert r, .isNew (!q.awaits r.placeholderId))
  | .remove r => (q.erase r, .orphaned (q.orphanedBy? r))
  | .drainUnit unit => (q.dropUnit unit, .drained (q.ofUnit unit))

/-- The queue after a history of calls. -/
def after (history : List Call) : PendingQueue := history.foldl (fun q c => (q.call c).1) {}

theorem after_append_singleton (history : List Call) (c : Call) :
    after (history ++ [c]) = ((after history).call c).1 := by
  rw [after, List.foldl_append]
  rfl

/-- Whether a call takes a reference away. -/
def Call.Takes : Call → Reference → Prop
  | .insert _, _ => False
  | .remove s, r => keyOf s = keyOf r
  | .drainUnit unit, r => r.unit = unit

variable {q : PendingQueue} {r s : Reference}

/-! ## One call -/

theorem Keyed.call (keyed : q.Keyed) (c : Call) : (q.call c).1.Keyed := by
  cases c with
  | insert r => exact keyed.insert r
  | remove r => exact keyed.erase r
  | drainUnit unit =>
    intro key r hr
    rw [PendingQueue.call, dropUnit, ExtTreeMap.getElem?_filter', Option.filter_eq_some_iff] at hr
    exact keyed key r hr.1

theorem keyed_after (history : List Call) : (after history).Keyed := by
  induction history using List.reverseRecOn with
  | nil => exact keyed_empty
  | append_singleton history c ih =>
    rw [after_append_singleton]
    exact ih.call c

/-- References wait in the order of their keys, one under each. -/
theorem pairwise_toList (keyed : q.Keyed) :
    q.toList.Pairwise fun a b => compare (keyOf a) (keyOf b) = .lt := by
  have hordered := ExtTreeMap.ordered_keys (t := q.waiting)
  rw [← Maps.map_values keyed, List.pairwise_map] at hordered
  exact hordered

/-- What is left of a sorted list without its repetitions is strictly sorted. -/
theorem pairwise_eraseDups : ∀ {ids : List NodeId},
    ids.Pairwise (fun a b => (compare a b).isLE = true) →
      ids.eraseDups.Pairwise fun a b => compare a b = .lt
  | [], _ => .nil
  | id :: ids, h => by
    obtain ⟨hle, hrest⟩ := List.pairwise_cons.mp h
    -- Everything that is left differs from the head, so that none of it is equally early.
    rw [List.eraseDups_cons]
    refine .cons (fun other hother => ?_) (pairwise_eraseDups (hrest.filter _))
    rw [List.mem_eraseDups, List.mem_filter, Bool.not_eq_true', beq_eq_false_iff_ne] at hother
    cases hcmp : compare id other with
    | lt => rfl
    | eq => exact absurd (LawfulEqCmp.eq_of_compare hcmp).symm hother.2
    | gt =>
      have := hle other hother.1
      rw [hcmp] at this
      cases this
termination_by ids => ids.length
decreasing_by
  exact Nat.lt_succ_of_le (List.length_filter_le _ _)

/-- Placeholders are listed in order, each once. -/
theorem pairwise_placeholderIds (q : PendingQueue) :
    q.placeholderIds.Pairwise fun a b => compare a b = .lt := by
  refine pairwise_eraseDups (List.pairwise_map.mpr ?_)
  refine (ExtTreeMap.ordered_keys (t := q.waiting)).imp fun {a b} h => ?_
  have hthen : (compare a.placeholder b.placeholder).then
      (compareLex (compareOn PendingKey.owner) (compareOn PendingKey.kind) a b) = .lt := h
  rw [Ordering.then_eq_lt] at hthen
  rcases hthen with hlt | ⟨heq, -⟩
  · rw [hlt]
    rfl
  · rw [heq]
    rfl

theorem mem_placeholderIds_iff (keyed : q.Keyed) (id : NodeId) :
    id ∈ q.placeholderIds ↔ ∃ r ∈ q.toList, r.placeholderId = id := by
  rw [mem_placeholderIds]
  constructor
  · rintro ⟨key, r, hr, rfl⟩
    obtain rfl := keyed key r hr
    exact ⟨r, (mem_toList keyed).mpr hr, rfl⟩
  · rintro ⟨r, hr, rfl⟩
    exact ⟨keyOf r, r, (mem_toList keyed).mp hr, rfl⟩

theorem get_waiting_eq_none_iff (keyed : q.Keyed) (key : PendingKey) :
    q.waiting[key]? = none ↔ ∀ s ∈ q.toList, keyOf s ≠ key := by
  constructor
  · rintro h s hs rfl
    rw [mem_toList keyed, h] at hs
    cases hs
  · intro h
    refine Option.eq_none_iff_forall_ne_some.mpr fun s hs => ?_
    obtain rfl := keyed key s hs
    exact h s ((mem_toList keyed).mpr hs) rfl

/-- What is left of the queue without a unit is the same in the same order. -/
theorem toList_dropUnit (q : PendingQueue) (unit : String) :
    (q.dropUnit unit).toList = q.toList.filter fun r => r.unit ≠ unit := by
  rw [toList, toList, dropUnit, Maps.values_eq_map_toList, Maps.values_eq_map_toList,
    ExtTreeMap.toList_filter, List.filter_map]
  rfl

/-- After a call there wait those that waited before and were not taken away, and one that was inserted where
nothing waited under its key. -/
theorem mem_call_iff (keyed : q.Keyed) (c : Call) :
    s ∈ (q.call c).1.toList ↔
      (s ∈ q.toList ∧ ¬ c.Takes s) ∨ (c = .insert s ∧ ∀ t ∈ q.toList, keyOf t ≠ keyOf s) := by
  cases c with
  | insert r =>
    have hget : (q.call (.insert r)).1.waiting[keyOf s]? =
        if keyOf r = keyOf s then some (q.waiting[keyOf s]?.getD r) else q.waiting[keyOf s]? :=
      Maps.get_insertIfNew _ _ _ _
    rw [mem_toList (keyed.call _), mem_toList keyed, ← get_waiting_eq_none_iff keyed, hget]
    cases hs : q.waiting[keyOf s]? with
    | none =>
      by_cases hkey : keyOf r = keyOf s
      · simp [hkey]
      · have hne : r ≠ s := fun h => hkey (congrArg keyOf h)
        simp [hkey, hne]
    | some t => simp [Call.Takes]
  | remove r =>
    have hget : (q.call (.remove r)).1.waiting[keyOf s]? =
        if keyOf r = keyOf s then none else q.waiting[keyOf s]? := Maps.get_erase _ _ _
    rw [mem_toList (keyed.call _), mem_toList keyed, hget]
    by_cases hkey : keyOf r = keyOf s <;> simp [Call.Takes, hkey]
  | drainUnit unit =>
    rw [PendingQueue.call, toList_dropUnit]
    simp [Call.Takes]

/-! ## Answers -/

/-- A reference makes a placeholder new if none waits for the same one. -/
theorem call_insert_eq_isNew_iff (q : PendingQueue) (r : Reference) :
    (q.call (.insert r)).2 = .isNew true ↔ ∀ s ∈ q.toList, s.placeholderId ≠ r.placeholderId := by
  simp [call, awaits]

/-- Taking a reference away orphans its placeholder if one waited for it, and none does any more. -/
theorem call_remove_eq_orphaned_iff (q : PendingQueue) (r : Reference) (id : NodeId) :
    (q.call (.remove r)).2 = .orphaned (some id) ↔ r.placeholderId = id ∧
      (∃ s ∈ q.toList, s.placeholderId = id) ∧
      ∀ s ∈ (q.call (.remove r)).1.toList, s.placeholderId ≠ id := by
  simp only [call, orphanedBy?, awaits, Reply.orphaned.injEq, Option.ite_none_right_eq_some,
    Bool.and_eq_true, Bool.not_eq_true', List.any_eq_true, List.any_eq_false, decide_eq_true_eq,
    Option.some.injEq]
  constructor
  · rintro ⟨⟨hbefore, hafter⟩, rfl⟩
    exact ⟨rfl, hbefore, hafter⟩
  · rintro ⟨rfl, hbefore, hafter⟩
    exact ⟨⟨hbefore, hafter⟩, rfl⟩

theorem size_eq_length (q : PendingQueue) : q.size = q.toList.length := by
  rw [size, toList, Maps.length_values]

theorem isEmpty_iff_size_eq_zero (q : PendingQueue) : q.isEmpty = true ↔ q.size = 0 := by
  rw [isEmpty, size, ExtTreeMap.isEmpty_eq_size_beq_zero, beq_iff_eq]

theorem references_eq_length {u : Unresolved} (h : u ∈ q.placeholders) :
    u.references = (q.waitingFor u.placeholder).length := by
  obtain ⟨id, -, hu⟩ := List.mem_filterMap.mp h
  obtain ⟨first, -, rfl⟩ := Option.map_eq_some_iff.mp hu
  rfl

/-! ## A whole history -/

/-- One of the calls of a longer history is the last one, or it comes before. -/
theorem append_singleton_eq_iff {α : Type} {history before later : List α} {c x : α} :
    history ++ [c] = before ++ x :: later ↔
      (later = [] ∧ before = history ∧ x = c) ∨
        ∃ between, later = between ++ [c] ∧ history = before ++ x :: between := by
  constructor
  · intro h
    rcases List.eq_nil_or_concat' later with rfl | ⟨between, last, rfl⟩
    · obtain ⟨rfl, hlast⟩ := List.append_inj' h rfl
      exact .inl ⟨rfl, rfl, (List.singleton_inj.mp hlast).symm⟩
    · rw [← List.cons_append, ← List.append_assoc] at h
      obtain ⟨rfl, hlast⟩ := List.append_inj' h rfl
      exact .inr ⟨between, by rw [hlast], rfl⟩
  · rintro (⟨rfl, rfl, rfl⟩ | ⟨between, rfl, rfl⟩)
    · rfl
    · rw [List.append_assoc, List.cons_append]

/-- A reference waits exactly if it was inserted while nothing waited under its key, and was not taken away
since then. -/
theorem mem_after_iff (history : List Call) (r : Reference) :
    r ∈ (after history).toList ↔
      ∃ before later, history = before ++ .insert r :: later ∧
        (∀ s ∈ (after before).toList, keyOf s ≠ keyOf r) ∧ ∀ c ∈ later, ¬ c.Takes r := by
  induction history using List.reverseRecOn with
  | nil =>
    refine iff_of_false (by simp [after, toList, Maps.values_eq_map_toList]) ?_
    rintro ⟨before, later, h, -⟩
    simp at h
  | append_singleton history c ih =>
    -- The last call is the insertion itself, or it comes behind it and lets the reference stay.
    rw [after_append_singleton, mem_call_iff (keyed_after history), ih]
    simp only [append_singleton_eq_iff]
    constructor
    · rintro (⟨⟨before, later, rfl, habsent, hkept⟩, htakes⟩ | ⟨rfl, habsent⟩)
      · refine ⟨before, later ++ [c], .inr ⟨later, rfl, rfl⟩, habsent, ?_⟩
        simpa [or_imp, forall_and] using ⟨hkept, htakes⟩
      · exact ⟨history, [], .inl ⟨rfl, rfl, rfl⟩, habsent, by simp⟩
    · rintro ⟨before, later, ⟨rfl, rfl, rfl⟩ | ⟨between, rfl, rfl⟩, habsent, hkept⟩
      · exact .inr ⟨rfl, habsent⟩
      · refine .inl ⟨⟨before, between, rfl, habsent, fun d hd => hkept d (by simp [hd])⟩, ?_⟩
        exact hkept c (by simp)

end PendingQueue

end CodeAtlas
