import CodeAtlas.Proofs.Queue.Calls
import Mathlib.Algebra.Ring.Nat

/-!
# The queue, shelf by shelf

The queue can be kept on two levels: a shelf for each placeholder, and on it the references that wait for it
by owner and kind (`Shelves`). Then a call has to look after the shelves: it puts up a shelf for the first
reference of a placeholder, and has to take it down with the last one on every way on which references leave.

Both forms answer alike after every history (`holds_after`), and no shelf is ever left empty. So a placeholder
is in use as long as its shelf stands, which is how the two-level form knows what is new and what is orphaned
without looking at any reference.
-/

set_option autoImplicit false

namespace CodeAtlas

open Std

namespace PendingQueue

/-! ## Shelves -/

/-- What tells the references on one shelf apart. -/
structure Place where
  owner : NodeId
  kind : RefKind
deriving DecidableEq

namespace Place

instance : Ord Place := ⟨compareLex (compareOn owner) (compareOn kind)⟩

instance : TransOrd Place :=
  inferInstanceAs (TransCmp (compareLex (compareOn owner) (compareOn kind)))

instance : LawfulEqOrd Place where
  eq_of_compare {a b} h := by
    have h' : compareLex (compareOn owner) (compareOn kind) a b = .eq := h
    simp only [compareLex, compareOn, Ordering.then_eq_eq, LawfulEqOrd.compare_eq_iff_eq] at h'
    cases a; cases b; simp_all

end Place

/-- The place of a reference on its shelf. -/
def placeOf (r : Reference) : Place := ⟨r.owner, r.kind⟩

/-- The place on the shelf of its placeholder. -/
def placeFor (key : PendingKey) : Place := ⟨key.owner, key.kind⟩

theorem keyOf_eq_iff (r : Reference) (key : PendingKey) :
    keyOf r = key ↔ r.placeholderId = key.placeholder ∧ placeOf r = placeFor key := by
  cases key
  simp [keyOf, placeOf, placeFor]

/-- A shelf for each placeholder. -/
structure Shelves where
  shelves : ExtTreeMap NodeId (ExtTreeMap Place Reference) := ∅

namespace Shelves

/-- Every waiting reference, shelf by shelf. -/
def toList (s : Shelves) : List Reference := s.shelves.toList.flatMap fun p => p.2.values

def size (s : Shelves) : Nat := (s.shelves.toList.map fun p => p.2.size).sum

def isEmpty (s : Shelves) : Bool := s.shelves.isEmpty

/-- The placeholders with the name that the first reference on their shelf has. -/
def placeholders (s : Shelves) : List Unresolved :=
  s.shelves.toList.filterMap fun (id, shelf) =>
    shelf.values.head?.map fun first => ⟨id, first.awaited, shelf.size⟩

/-- A reference is put on the shelf of its placeholder, which is put up if it is missing. -/
def insert (s : Shelves) (r : Reference) : Shelves × Reply :=
  let shelf := s.shelves[r.placeholderId]?.getD ∅
  (⟨s.shelves.insert r.placeholderId (shelf.insertIfNew (placeOf r) r)⟩,
    .isNew (!s.shelves.contains r.placeholderId))

/-- A reference is taken from its shelf, which is taken down if it is empty then. -/
def remove (s : Shelves) (r : Reference) : Shelves × Reply :=
  match s.shelves[r.placeholderId]? with
  | none => (s, .orphaned none)
  | some shelf =>
    let rest := shelf.erase (placeOf r)
    if rest.isEmpty then (⟨s.shelves.erase r.placeholderId⟩, .orphaned (some r.placeholderId))
    else (⟨s.shelves.insert r.placeholderId rest⟩, .orphaned none)

/-- The references of a unit are taken from all shelves, and shelves that are empty then are taken down. -/
def drainUnit (s : Shelves) (unit : String) : Shelves × Reply :=
  (⟨s.shelves.filterMap fun _ shelf =>
      let rest := shelf.filter fun _ r => r.unit ≠ unit
      if rest.isEmpty then none else some rest⟩,
    .drained (s.shelves.toList.flatMap fun p => p.2.values.filter (·.unit = unit)))

def call (s : Shelves) : Call → Shelves × Reply
  | .insert r => s.insert r
  | .remove r => s.remove r
  | .drainUnit unit => s.drainUnit unit

/-- The shelves after a history of calls. -/
def after (history : List Call) : Shelves := history.foldl (fun s c => (s.call c).1) {}

theorem after_append_singleton (history : List Call) (c : Call) :
    after (history ++ [c]) = ((after history).call c).1 := by
  rw [after, List.foldl_append]
  rfl

/-- The reference that stands under a key. -/
def get? (s : Shelves) (key : PendingKey) : Option Reference :=
  s.shelves[key.placeholder]?.bind fun shelf => shelf[placeFor key]?

/-- No shelf is empty. -/
def Filled (s : Shelves) : Prop :=
  ∀ (id : NodeId) shelf, s.shelves[id]? = some shelf → shelf.isEmpty = false

/-- The shelves hold a queue: each reference stands in its place, and no shelf is empty. -/
structure Holds (s : Shelves) (q : PendingQueue) : Prop where
  get : ∀ key : PendingKey, q.waiting[key]? = s.get? key
  filled : s.Filled
  keyed : q.Keyed

variable {s : Shelves} {q : PendingQueue} {r : Reference}

/-! ## One shelf -/

theorem get?_putUp (s : Shelves) (id : NodeId) (shelf : ExtTreeMap Place Reference) (key : PendingKey) :
    get? ⟨s.shelves.insert id shelf⟩ key =
      if id = key.placeholder then shelf[placeFor key]? else s.get? key := by
  rw [get?, Maps.get_insert]
  split
  · rfl
  · rfl

theorem get?_takeDown (s : Shelves) (id : NodeId) (key : PendingKey) :
    get? ⟨s.shelves.erase id⟩ key = if id = key.placeholder then none else s.get? key := by
  rw [get?, Maps.get_erase]
  split
  · rfl
  · rfl

theorem Filled.putUp (h : s.Filled) {id : NodeId} {shelf : ExtTreeMap Place Reference}
    (hshelf : shelf.isEmpty = false) : Filled ⟨s.shelves.insert id shelf⟩ := by
  intro id' shelf' hget
  rw [Maps.get_insert] at hget
  split at hget
  · rw [← Option.some.inj hget]
    exact hshelf
  · exact h id' shelf' hget

theorem Filled.takeDown (h : s.Filled) (id : NodeId) : Filled ⟨s.shelves.erase id⟩ := by
  intro id' shelf' hget
  rw [Maps.get_erase] at hget
  split at hget
  · cases hget
  · exact h id' shelf' hget

/-- A shelf that is missing holds as much as an empty one. -/
theorem get?_eq_getD (s : Shelves) (key : PendingKey) :
    s.get? key = (s.shelves[key.placeholder]?.getD ∅)[placeFor key]? := by
  rw [get?]
  cases s.shelves[key.placeholder]? with
  | none => rw [Option.getD_none, ExtTreeMap.getElem?_empty, Option.bind_none]
  | some shelf => rfl

theorem values_ne_nil_of_isEmpty_eq_false {shelf : ExtTreeMap Place Reference}
    (h : shelf.isEmpty = false) : shelf.values ≠ [] := by
  rw [ExtTreeMap.isEmpty_eq_size_beq_zero, beq_eq_false_iff_ne, ← Maps.length_values] at h
  exact fun hnil => h (congrArg List.length hnil)

/-! ## One call -/

theorem get?_insert (s : Shelves) (r : Reference) (key : PendingKey) :
    (s.insert r).1.get? key =
      if keyOf r = key then some ((s.get? key).getD r) else s.get? key := by
  rw [Shelves.insert, get?_putUp, Maps.get_insertIfNew, get?_eq_getD s key]
  simp only [keyOf_eq_iff]
  by_cases hid : r.placeholderId = key.placeholder
  · simp only [hid, true_and, if_true]
  · simp only [hid, false_and, if_false]

/-- Where a shelf is taken down, nothing is left on it that could be under a key. -/
theorem get?_remove (s : Shelves) (r : Reference) (key : PendingKey) :
    (s.remove r).1.get? key = if keyOf r = key then none else s.get? key := by
  -- What is left on the shelf answers the same, whether the shelf stands or not.
  have hrest : ∀ shelf, s.shelves[r.placeholderId]? = some shelf →
      (if r.placeholderId = key.placeholder then (shelf.erase (placeOf r))[placeFor key]?
        else s.get? key) = if keyOf r = key then none else s.get? key := by
    intro shelf hshelf
    rw [Maps.get_erase]
    simp only [keyOf_eq_iff]
    by_cases hid : r.placeholderId = key.placeholder
    · simp only [hid, true_and, if_true, get?, hid ▸ hshelf, Option.bind_some]
    · simp only [hid, false_and, if_false]
  rw [Shelves.remove]
  split
  next hnone =>
    split
    next hkey => rw [get?, ← ((keyOf_eq_iff r key).mp hkey).1, hnone, Option.bind_none]
    next => rfl
  next shelf hshelf =>
    rw [← hrest shelf hshelf]
    dsimp only
    split
    next hempty => rw [get?_takeDown, ExtTreeMap.isEmpty_iff.mp hempty, ExtTreeMap.getElem?_empty]
    next => rw [get?_putUp]

theorem get?_drainUnit (s : Shelves) (unit : String) (key : PendingKey) :
    (s.drainUnit unit).1.get? key = (s.get? key).filter fun r => r.unit ≠ unit := by
  rw [get?, get?, Shelves.drainUnit, ExtTreeMap.getElem?_filterMap']
  cases s.shelves[key.placeholder]? with
  | none => rfl
  | some shelf =>
    have hrest : (shelf.filter fun _ r => decide (r.unit ≠ unit))[placeFor key]? =
        shelf[placeFor key]?.filter fun r => decide (r.unit ≠ unit) := ExtTreeMap.getElem?_filter'
    dsimp only [Option.bind_some]
    rw [← hrest]
    split
    next hempty => rw [ExtTreeMap.isEmpty_iff.mp hempty, ExtTreeMap.getElem?_empty, Option.bind_none]
    next => rfl

/-- On every way on which references leave, a shelf is taken down with the last of them. -/
theorem Filled.call (h : s.Filled) (c : Call) : (s.call c).1.Filled := by
  cases c with
  | insert r => exact h.putUp (ExtTreeMap.isEmpty_eq_false_iff.mpr ExtTreeMap.insertIfNew_ne_empty)
  | remove r =>
    rw [Shelves.call, Shelves.remove]
    split
    next => exact h
    next =>
      dsimp only
      split
      next => exact h.takeDown _
      next hrest => exact h.putUp (Bool.eq_false_iff.mpr hrest)
  | drainUnit unit =>
    intro id shelf hget
    rw [Shelves.call, Shelves.drainUnit, ExtTreeMap.getElem?_filterMap'] at hget
    obtain ⟨old, -, hrest⟩ := Option.bind_eq_some_iff.mp hget
    dsimp only at hrest
    split at hrest
    next => cases hrest
    next hfilled =>
      rw [← Option.some.inj hrest]
      exact Bool.eq_false_iff.mpr hfilled

/-- The step: whatever is asked, the shelves hold the queue afterwards. -/
theorem Holds.call (h : s.Holds q) (c : Call) : (s.call c).1.Holds (q.call c).1 where
  get key := by
    cases c with
    | insert r =>
      rw [Shelves.call, get?_insert, PendingQueue.call, PendingQueue.insert, Maps.get_insertIfNew, h.get]
    | remove r =>
      rw [Shelves.call, get?_remove, PendingQueue.call, PendingQueue.erase, Maps.get_erase, h.get]
    | drainUnit unit =>
      rw [Shelves.call, get?_drainUnit, PendingQueue.call, dropUnit, ExtTreeMap.getElem?_filter', h.get]
  filled := h.filled.call c
  keyed := h.keyed.call c

theorem holds_empty : Holds {} {} where
  get key := by simp [get?]
  filled id shelf h := by simp at h
  keyed := keyed_empty

theorem holds_after (history : List Call) :
    (after history).Holds (PendingQueue.after history) := by
  induction history using List.reverseRecOn with
  | nil => exact holds_empty
  | append_singleton history c ih =>
    rw [after_append_singleton, PendingQueue.after_append_singleton]
    exact ih.call c

/-! ## What the shelves show -/

variable {id : NodeId} {shelf : ExtTreeMap Place Reference}

/-- Keys are compared shelf first. -/
theorem compare_eq_then (a b : PendingKey) : compare a b =
    (compare a.placeholder b.placeholder).then (compare (placeFor a) (placeFor b)) := rfl

theorem compare_keyOf (a b : Reference) : compare (keyOf a) (keyOf b) =
    (compare a.placeholderId b.placeholderId).then (compare (placeOf a) (placeOf b)) :=
  compare_eq_then (keyOf a) (keyOf b)

/-- A reference stands on the shelf of its placeholder, in its place. -/
theorem Holds.stands (h : s.Holds q) (hshelf : s.shelves[id]? = some shelf) {place : Place}
    (hr : shelf[place]? = some r) : r.placeholderId = id ∧ placeOf r = place := by
  have hwaiting : q.waiting[(⟨id, place.owner, place.kind⟩ : PendingKey)]? = some r := by
    rw [h.get, get?, hshelf]
    exact hr
  exact (keyOf_eq_iff r _).mp (h.keyed _ r hwaiting)

theorem Holds.mem_values (h : s.Holds q) (hshelf : s.shelves[id]? = some shelf) :
    r ∈ shelf.values ↔ r ∈ q.toList ∧ r.placeholderId = id := by
  rw [Maps.mem_values, mem_toList h.keyed, h.get, get?]
  constructor
  · rintro ⟨place, hr⟩
    obtain ⟨rfl, rfl⟩ := h.stands hshelf hr
    refine ⟨?_, rfl⟩
    rw [show (keyOf r).placeholder = r.placeholderId from rfl, hshelf]
    exact hr
  · rintro ⟨hr, rfl⟩
    rw [show (keyOf r).placeholder = r.placeholderId from rfl, hshelf] at hr
    exact ⟨_, hr⟩

theorem Holds.exists_shelf (h : s.Holds q) (hr : r ∈ q.toList) :
    ∃ shelf, s.shelves[r.placeholderId]? = some shelf := by
  rw [mem_toList h.keyed, h.get] at hr
  obtain ⟨shelf, hshelf, -⟩ := Option.bind_eq_some_iff.mp hr
  exact ⟨shelf, hshelf⟩

/-- A shelf stands as long as something waits for its placeholder. -/
theorem Holds.contains_eq (h : s.Holds q) (id : NodeId) : s.shelves.contains id = q.awaits id := by
  rw [Bool.eq_iff_iff, Maps.contains_iff, awaits, List.any_eq_true]
  simp only [decide_eq_true_eq]
  constructor
  · rintro ⟨shelf, hshelf⟩
    have hfilled := values_ne_nil_of_isEmpty_eq_false (h.filled id shelf hshelf)
    obtain ⟨r, hr⟩ := List.exists_mem_of_ne_nil _ hfilled
    exact ⟨r, (h.mem_values hshelf).mp hr⟩
  · rintro ⟨r, hr, rfl⟩
    exact h.exists_shelf hr

theorem Holds.pairwise_values (h : s.Holds q) (hshelf : s.shelves[id]? = some shelf) :
    shelf.values.Pairwise fun a b => compare (keyOf a) (keyOf b) = .lt := by
  have hordered := ExtTreeMap.ordered_keys (t := shelf)
  rw [← Maps.map_values fun place r hr => (h.stands hshelf hr).2, List.pairwise_map] at hordered
  refine hordered.imp_of_mem fun {a b} ha hb hlt => ?_
  have hid : a.placeholderId = b.placeholderId :=
    ((h.mem_values hshelf).mp ha).2.trans ((h.mem_values hshelf).mp hb).2.symm
  have hsame : compare b.placeholderId b.placeholderId = .eq := ReflCmp.compare_self
  rw [compare_keyOf, hid, hsame]
  exact hlt

/-- Shelf by shelf the references stand in the order of the queue. -/
theorem Holds.toList_eq (h : s.Holds q) : s.toList = q.toList := by
  have get : ∀ p ∈ s.shelves.toList, s.shelves[p.1]? = some p.2 :=
    fun p hp => ExtTreeMap.mem_toList_iff_getElem?_eq_some.mp hp
  have hordered : s.toList.Pairwise fun a b => compareOn keyOf a b = .lt := by
    -- On a shelf the places decide, and between two shelves their placeholders do.
    refine List.pairwise_flatMap.mpr ⟨fun p hp => h.pairwise_values (get _ hp), ?_⟩
    have hshelves := ExtTreeMap.ordered_keys_toList (t := s.shelves)
    refine hshelves.imp_of_mem fun {p p'} hp hp' hlt a ha b hb => ?_
    rw [compareOn, compare_keyOf, ((h.mem_values (get _ hp)).mp ha).2,
      ((h.mem_values (get _ hp')).mp hb).2, hlt]
    rfl
  refine Maps.eq_of_strict hordered (pairwise_toList h.keyed) fun r => ?_
  rw [toList, List.mem_flatMap]
  constructor
  · rintro ⟨p, hp, hr⟩
    exact ((h.mem_values (get _ hp)).mp hr).1
  · intro hr
    obtain ⟨shelf, hshelf⟩ := h.exists_shelf hr
    exact ⟨_, ExtTreeMap.mem_toList_iff_getElem?_eq_some.mpr hshelf,
      (h.mem_values hshelf).mpr ⟨hr, rfl⟩⟩

theorem size_eq_length (s : Shelves) : s.size = s.toList.length := by
  simp only [size, toList, List.length_flatMap, Maps.length_values]

theorem Holds.size_eq (h : s.Holds q) : s.size = q.size := by
  rw [size_eq_length, h.toList_eq, PendingQueue.size_eq_length]

theorem Holds.isEmpty_eq (h : s.Holds q) : s.isEmpty = q.isEmpty := by
  rw [Bool.eq_iff_iff, isEmpty_iff_size_eq_zero, PendingQueue.size_eq_length, ← h.toList_eq,
    isEmpty, ExtTreeMap.isEmpty_eq_size_beq_zero, beq_iff_eq, ← ExtTreeMap.length_toList,
    List.length_eq_zero_iff, List.length_eq_zero_iff, toList, List.flatMap_eq_nil_iff]
  constructor
  · intro hnil
    simp [hnil]
  · intro hvalues
    refine List.eq_nil_iff_forall_not_mem.mpr fun p hp => ?_
    exact values_ne_nil_of_isEmpty_eq_false
      (h.filled _ _ (ExtTreeMap.mem_toList_iff_getElem?_eq_some.mp hp)) (hvalues p hp)

theorem Holds.keys_eq (h : s.Holds q) : s.shelves.keys = q.placeholderIds := by
  refine Maps.eq_of_strict ExtTreeMap.ordered_keys q.pairwise_placeholderIds fun id => ?_
  rw [ExtTreeMap.mem_keys, ExtTreeMap.mem_iff_contains, h.contains_eq, awaits, List.any_eq_true,
    mem_placeholderIds_iff h.keyed]
  simp only [decide_eq_true_eq]

theorem Holds.waitingFor_eq (h : s.Holds q) (hshelf : s.shelves[id]? = some shelf) :
    q.waitingFor id = shelf.values := by
  have hordered : (q.waitingFor id).Pairwise fun a b => compareOn keyOf a b = .lt :=
    (pairwise_toList h.keyed).filter _
  refine Maps.eq_of_strict hordered (h.pairwise_values hshelf) fun r => ?_
  rw [h.mem_values hshelf, waitingFor, List.mem_filter, decide_eq_true_eq]

theorem Holds.placeholders_eq (h : s.Holds q) : s.placeholders = q.placeholders := by
  rw [PendingQueue.placeholders, ← h.keys_eq, ← ExtTreeMap.map_fst_toList_eq_keys,
    List.filterMap_map, placeholders]
  refine List.filterMap_congr fun p hp => ?_
  have hshelf := ExtTreeMap.mem_toList_iff_getElem?_eq_some.mp hp
  simp only [Function.comp_apply, h.waitingFor_eq hshelf, Maps.length_values]

/-- As no shelf is empty, each is counted among the placeholders. -/
theorem Holds.sum_references (h : s.Holds q) : (s.placeholders.map (·.references)).sum = s.size := by
  rw [placeholders, List.map_filterMap, size]
  congr 1
  refine List.filterMap_eq_map_iff_forall_eq_some.mpr fun p hp => ?_
  have hshelf := ExtTreeMap.mem_toList_iff_getElem?_eq_some.mp hp
  obtain ⟨first, rest, hvalues⟩ := List.exists_cons_of_ne_nil
    (values_ne_nil_of_isEmpty_eq_false (h.filled _ _ hshelf))
  simp [hvalues]

/-! ## What the shelves answer -/

theorem Holds.reply_eq (h : s.Holds q) (c : Call) : (s.call c).2 = (q.call c).2 := by
  cases c with
  | insert r =>
    rw [Shelves.call, Shelves.insert, PendingQueue.call, h.contains_eq]
  | remove r =>
    -- The queue looks for references before and after; that is whether the shelf stands, both times.
    have hafter : (s.call (.remove r)).1.shelves.contains r.placeholderId =
        (q.erase r).awaits r.placeholderId := (h.call (.remove r)).contains_eq _
    rw [PendingQueue.call, orphanedBy?, ← h.contains_eq, ← hafter, Shelves.call, Shelves.remove]
    split
    next => simp
    next shelf hshelf =>
      have hstood : r.placeholderId ∈ s.shelves := (Maps.contains_iff _ _).mpr ⟨shelf, hshelf⟩
      dsimp only
      split <;> simp [hstood]
  | drainUnit unit =>
    rw [Shelves.call, PendingQueue.call, ofUnit, ← h.toList_eq, toList, List.filter_flatMap]
    rfl

/-- The shelves show and answer what the queue does, and none of them is empty. -/
structure Shows (s : Shelves) (q : PendingQueue) : Prop where
  toList_eq : s.toList = q.toList
  size_eq : s.size = q.size
  isEmpty_eq : s.isEmpty = q.isEmpty
  keys_eq : s.shelves.keys = q.placeholderIds
  placeholders_eq : s.placeholders = q.placeholders
  reply_eq : ∀ c, (s.call c).2 = (q.call c).2
  filled : s.Filled

theorem Holds.shows (h : s.Holds q) : s.Shows q where
  toList_eq := h.toList_eq
  size_eq := h.size_eq
  isEmpty_eq := h.isEmpty_eq
  keys_eq := h.keys_eq
  placeholders_eq := h.placeholders_eq
  reply_eq := h.reply_eq
  filled := h.filled

end Shelves

/-! ## Every history -/

/-- What the queue shows after a history, and what it answers next. -/
structure FirstWins (history : List Call) (q : PendingQueue) : Prop where
  /-- References are listed by their keys, one for each. -/
  ordered : q.toList.Pairwise fun a b => compare (keyOf a) (keyOf b) = .lt
  /-- It is the first that came since nothing waited under the key. -/
  mem_iff : ∀ r, r ∈ q.toList ↔ ∃ before later, history = before ++ .insert r :: later ∧
    (∀ s ∈ (after before).toList, keyOf s ≠ keyOf r) ∧ ∀ c ∈ later, ¬ c.Takes r
  size_eq : q.size = q.toList.length
  isEmpty_iff : q.isEmpty = true ↔ q.size = 0
  /-- A placeholder is listed exactly if something waits for it. -/
  mem_placeholders_iff : ∀ id, id ∈ q.placeholders.map (·.placeholder) ↔
    ∃ r ∈ q.toList, r.placeholderId = id
  references_eq : ∀ u ∈ q.placeholders, u.references = (q.waitingFor u.placeholder).length
  sum_references : (q.placeholders.map (·.references)).sum = q.size
  insert_iff : ∀ r, (q.call (.insert r)).2 = .isNew true ↔
    ∀ s ∈ q.toList, s.placeholderId ≠ r.placeholderId
  /-- A placeholder is orphaned by the call that takes its last reference away. -/
  remove_iff : ∀ r id, (q.call (.remove r)).2 = .orphaned (some id) ↔ r.placeholderId = id ∧
    (∃ s ∈ q.toList, s.placeholderId = id) ∧
    ∀ s ∈ (q.call (.remove r)).1.toList, s.placeholderId ≠ id
  drained_eq : ∀ unit, (q.call (.drainUnit unit)).2 = .drained (q.toList.filter (·.unit = unit))
  left_eq : ∀ unit, (q.call (.drainUnit unit)).1.toList = q.toList.filter (·.unit ≠ unit)

/-- The queue is a map in which the first wins, and no shelf of its two-level form is ever left empty. -/
theorem first_wins_after (history : List Call) :
    FirstWins history (after history) ∧ (Shelves.after history).Shows (after history) := by
  have holds := Shelves.holds_after history
  have keyed := holds.keyed
  refine ⟨?_, holds.shows⟩
  exact {
    ordered := pairwise_toList keyed
    mem_iff := mem_after_iff history
    size_eq := size_eq_length _
    isEmpty_iff := isEmpty_iff_size_eq_zero _
    mem_placeholders_iff := fun id => by
      rw [map_placeholder_placeholders keyed, mem_placeholderIds_iff keyed]
    references_eq := fun u hu => references_eq_length hu
    sum_references := by
      rw [← holds.placeholders_eq, ← holds.size_eq, holds.sum_references]
    insert_iff := call_insert_eq_isNew_iff _
    remove_iff := call_remove_eq_orphaned_iff _
    drained_eq := fun _ => rfl
    left_eq := toList_dropUnit _ }

end PendingQueue

end CodeAtlas
