import CodeAtlas.Builder.PendingQueue
import CodeAtlas.Proofs.Reference
import Mathlib.Data.List.Nodup
import Mathlib.Data.List.Perm.Subperm

/-!
# What the queue shows

A reference waits under its own key. From this it follows that what the queue shows, its placeholders
and how many references wait for each, depends on its keys alone (`counts_eq_of_keys`), and
that the queue shows more as soon as it holds one key more (`keys_of_counts`).
-/

set_option autoImplicit false

namespace CodeAtlas

open Std

namespace PendingQueue

/-- Every reference waits under its own key. -/
def Keyed (q : PendingQueue) : Prop :=
  ∀ (key : PendingKey) r, q.waiting[key]? = some r → keyOf r = key

/-- Whether a placeholder is in use. -/
def Awaits (q : PendingQueue) (id : NodeId) : Prop :=
  ∃ (key : PendingKey) (r : Reference), q.waiting[key]? = some r ∧ key.placeholder = id

theorem keyed_empty : Keyed {} := by
  intro key r h
  simp at h

/-- What waits stays, and a new reference waits if nothing waits under its key. -/
theorem waiting_insert_iff {q : PendingQueue} {r s : Reference} {key : PendingKey} :
    (q.insert s).waiting[key]? = some r ↔
      q.waiting[key]? = some r ∨ q.waiting[key]? = none ∧ keyOf s = key ∧ s = r := by
  rw [PendingQueue.insert, Maps.get_insertIfNew]
  by_cases hk : keyOf s = key
  · cases q.waiting[key]? <;> simp [hk]
  · simp [hk]

theorem Keyed.insert {q : PendingQueue} (h : q.Keyed) (r : Reference) : (q.insert r).Keyed := by
  intro key s hs
  rcases waiting_insert_iff.mp hs with hs | ⟨-, hk, rfl⟩
  · exact h key s hs
  · exact hk

theorem Keyed.erase {q : PendingQueue} (h : q.Keyed) (r : Reference) : (q.erase r).Keyed := by
  intro key s hs
  rw [PendingQueue.erase, ExtTreeMap.getElem?_erase] at hs
  split at hs
  · simp at hs
  · exact h key s hs

theorem mem_toList {q : PendingQueue} {r : Reference} (keyed : q.Keyed) :
    r ∈ q.toList ↔ q.waiting[keyOf r]? = some r := by
  rw [toList, Maps.mem_values]
  constructor
  · rintro ⟨key, h⟩
    rw [keyed key r h]
    exact h
  · intro h
    exact ⟨_, h⟩

theorem mem_placeholderIds (q : PendingQueue) (id : NodeId) :
    id ∈ q.placeholderIds ↔ q.Awaits id := by
  rw [placeholderIds, List.mem_eraseDups]
  constructor
  · intro h
    obtain ⟨key, hk, rfl⟩ := List.mem_map.mp h
    obtain ⟨r, hr⟩ := (Maps.contains_iff _ _).mp (ExtTreeMap.mem_keys.mp hk)
    exact ⟨key, r, hr, rfl⟩
  · rintro ⟨key, r, hr, rfl⟩
    have hmem : key ∈ q.waiting := (Maps.contains_iff _ _).mpr ⟨r, hr⟩
    exact List.mem_map.mpr ⟨key, ExtTreeMap.mem_keys.mpr hmem, rfl⟩

/-- Queues with the same keys have the same placeholders in use. -/
theorem awaits_of_keys {a b : PendingQueue}
    (h : ∀ key : PendingKey, a.waiting.contains key = b.waiting.contains key) (id : NodeId) :
    a.Awaits id ↔ b.Awaits id := by
  have hsome : ∀ key : PendingKey, (∃ r, a.waiting[key]? = some r) ↔ ∃ r, b.waiting[key]? = some r :=
    fun key => by rw [← Maps.contains_iff, ← Maps.contains_iff, h]
  constructor
  · rintro ⟨key, r, hr, hid⟩
    obtain ⟨s, hs⟩ := (hsome key).mp ⟨r, hr⟩
    exact ⟨key, s, hs, hid⟩
  · rintro ⟨key, r, hr, hid⟩
    obtain ⟨s, hs⟩ := (hsome key).mpr ⟨r, hr⟩
    exact ⟨key, s, hs, hid⟩

/-! ## Counting by keys -/

/-- The keys of the references that wait for a placeholder. -/
def keysFor (q : PendingQueue) (id : NodeId) : List PendingKey :=
  q.waiting.keys.filter (·.placeholder = id)

theorem length_waitingFor {q : PendingQueue} (keyed : q.Keyed) (id : NodeId) :
    (q.waitingFor id).length = (q.keysFor id).length := by
  have hkeys : q.waiting.keys = q.toList.map keyOf := (Maps.map_values keyed).symm
  rw [waitingFor, keysFor, hkeys, List.filter_map, List.length_map]
  rfl

/-- What a queue shows: each placeholder with the number of references that wait for it. -/
def counts (q : PendingQueue) : List (NodeId × Nat) :=
  q.placeholders.map fun u => (u.placeholder, u.references)

theorem keysFor_ne_nil {q : PendingQueue} {id : NodeId} (h : id ∈ q.placeholderIds) :
    q.keysFor id ≠ [] := by
  rw [placeholderIds, List.mem_eraseDups] at h
  obtain ⟨key, hk, hid⟩ := List.mem_map.mp h
  have hmem : key ∈ q.keysFor id := List.mem_filter.mpr ⟨hk, by simpa using hid⟩
  intro hnil
  rw [hnil] at hmem
  simp at hmem

theorem counts_eq {q : PendingQueue} (keyed : q.Keyed) :
    q.counts = q.placeholderIds.map fun id => (id, (q.keysFor id).length) := by
  unfold counts placeholders
  rw [List.map_filterMap]
  refine List.filterMap_eq_map_iff_forall_eq_some.mpr fun id hid => ?_
  cases hw : q.waitingFor id with
  | nil =>
    have hlen := length_waitingFor keyed id
    rw [hw, List.length_nil] at hlen
    exact absurd (List.length_eq_zero_iff.mp hlen.symm) (keysFor_ne_nil hid)
  | cons first rest =>
    rw [← length_waitingFor keyed id, hw]
    rfl

/-- Queues with the same keys show the same. -/
theorem counts_eq_of_keys {a b : PendingQueue} (ha : a.Keyed) (hb : b.Keyed)
    (h : ∀ key : PendingKey, a.waiting.contains key = b.waiting.contains key) :
    a.counts = b.counts := by
  rw [counts_eq ha, counts_eq hb]
  simp only [placeholderIds, keysFor, Maps.keys_eq_iff.mpr h]

theorem nodup_keysFor (q : PendingQueue) (id : NodeId) : (q.keysFor id).Nodup :=
  List.Nodup.filter _ ExtTreeMap.nodup_keys

/-- A queue that holds one key more shows more. -/
theorem keys_of_counts {a b : PendingQueue} (ha : a.Keyed) (hb : b.Keyed)
    (hsub : ∀ key : PendingKey, a.waiting.contains key = true → b.waiting.contains key = true)
    (h : a.counts = b.counts) (key : PendingKey) (hkey : b.waiting.contains key = true) :
    a.waiting.contains key = true := by
  have hmem : key ∈ b.keysFor key.placeholder :=
    List.mem_filter.mpr ⟨ExtTreeMap.mem_keys.mpr hkey, by simp⟩
  have hid : key.placeholder ∈ b.placeholderIds := by
    obtain ⟨r, hr⟩ := (Maps.contains_iff _ _).mp hkey
    exact (mem_placeholderIds b _).mpr ⟨key, r, hr, rfl⟩
  have hcount : (key.placeholder, (b.keysFor key.placeholder).length) ∈ a.counts := by
    rw [h, counts_eq hb]
    exact List.mem_map.mpr ⟨_, hid, rfl⟩
  rw [counts_eq ha] at hcount
  obtain ⟨id, -, hpair⟩ := List.mem_map.mp hcount
  obtain ⟨rfl, hlen⟩ := Prod.mk.inj hpair
  have hsubset : a.keysFor key.placeholder ⊆ b.keysFor key.placeholder := by
    intro k hk
    obtain ⟨hk, hp⟩ := List.mem_filter.mp hk
    exact List.mem_filter.mpr ⟨ExtTreeMap.mem_keys.mpr (hsub k (ExtTreeMap.mem_keys.mp hk)), hp⟩
  have hperm := ((nodup_keysFor a key.placeholder).subperm hsubset).perm_of_length_le (Nat.le_of_eq hlen.symm)
  have hmem' := hperm.mem_iff.mpr hmem
  exact ExtTreeMap.mem_keys.mp (List.mem_filter.mp hmem').1

/-! ## Placeholders -/

/-- The name shown for a placeholder is one that it stands for. -/
theorem placeholder_awaited {q : PendingQueue} {u : Unresolved} (h : u ∈ q.placeholders) :
    NodeId.placeholder u.awaited = u.placeholder := by
  obtain ⟨id, -, hu⟩ := List.mem_filterMap.mp h
  obtain ⟨first, hfirst, rfl⟩ := Option.map_eq_some_iff.mp hu
  have hmem := List.mem_filter.mp (List.mem_of_mem_head? hfirst)
  exact of_decide_eq_true hmem.2

theorem map_placeholder_placeholders {q : PendingQueue} (keyed : q.Keyed) :
    q.placeholders.map (·.placeholder) = q.placeholderIds := by
  have h := congrArg (List.map Prod.fst) (counts_eq keyed)
  rw [counts, List.map_map, List.map_map] at h
  simpa [Function.comp_def] using h

end PendingQueue

end CodeAtlas
