import CodeAtlas.Proofs.Query.Hop
import Mathlib.Data.List.Cycle
import Mathlib.Data.Set.Card

/-!
# Trails and circles

A trail goes along dependencies and does not meet itself; a circle is a trail whose end depends on its
beginning. A trail grows at its end by a node that is not on it yet (`Trail.snoc`), and every trail comes
about in this way (`Trail.induct`). It can be cut in two at any node (`trail_split_iff`).

Where a search comes across a circle depends on the way it took, for it sees the circle begin at the first
of its nodes on that way. Not every node of a circle need be such an entrance, but one of them is: the one
that is nearest to the start (`Circle.exists_entrance`).
-/

set_option autoImplicit false

namespace CodeAtlas

/-- A list without repetitions is as long as it has members. -/
theorem encard_eq_length {α : Type} {items : List α} (nodup : items.Nodup) :
    Set.encard {x | x ∈ items} = items.length := by
  classical
  have hset : {x | x ∈ items} = (items.toFinset : Set α) := by
    ext x
    simp
  rw [hset, Set.encard_coe_eq_coe_finsetCard, List.toFinset_card_of_nodup nodup]

/-- A list without repetitions is no longer than a set that has all its members. -/
theorem length_le_encard {α : Type} {items : List α} (nodup : items.Nodup) {s : Set α}
    (h : ∀ x ∈ items, x ∈ s) : items.length ≤ s.encard := by
  rw [← encard_eq_length nodup]
  exact Set.encard_le_encard h

namespace PropertyGraph

variable {g : PropertyGraph} {a b c start : NodeId} {path left right : List NodeId}

/-- Whether a node depends on another directly. -/
def DependsOn (g : PropertyGraph) (a b : NodeId) : Prop :=
  g.Leads EdgeKind.structural .outgoing a b

/-- Whether a node is another one or what that depends on, directly or through others. -/
def Reachable (g : PropertyGraph) (start id : NodeId) : Prop :=
  ∃ n, g.Walk EdgeKind.structural .outgoing start n id

/-- Different nodes from one to another, each of which depends on the next. -/
structure Trail (g : PropertyGraph) (first last : NodeId) (path : List NodeId) : Prop where
  head : path.head? = some first
  last : path.getLast? = some last
  linked : path.IsChain g.DependsOn
  nodup : path.Nodup

/-- Different nodes, each of which depends on the next, and the last on the first. -/
def Circle (g : PropertyGraph) (circle : List NodeId) : Prop :=
  ∃ first last, g.Trail first last circle ∧ g.DependsOn last first

/-- Whether a trail from the start meets a circle at its first node and nowhere else. -/
def Enters (g : PropertyGraph) (start : NodeId) (circle : List NodeId) : Prop :=
  ∃ first way, circle.head? = some first ∧ g.Trail start first way ∧ ∀ id ∈ way, id ∉ circle.tail

/-! ## Trails -/

theorem Trail.ne_nil (h : g.Trail a b path) : path ≠ [] := by
  intro hnil
  have hhead := h.head
  simp [hnil] at hhead

theorem trail_singleton (g : PropertyGraph) (a : NodeId) : g.Trail a a [a] :=
  ⟨rfl, rfl, .singleton a, List.nodup_singleton a⟩

theorem Trail.snoc (h : g.Trail a b path) (depends : g.DependsOn b c) (fresh : c ∉ path) :
    g.Trail a c (path ++ [c]) := by
  constructor
  case head =>
    rw [List.head?_append_of_ne_nil _ h.ne_nil]
    exact h.head
  case last => simp
  case linked =>
    refine h.linked.append (.singleton c) fun x hx y hy => ?_
    rw [h.last, Option.mem_some_iff] at hx
    rw [List.head?_singleton, Option.mem_some_iff] at hy
    subst hx hy
    exact depends
  case nodup =>
    refine List.nodup_append'.mpr ⟨h.nodup, List.nodup_singleton c, ?_⟩
    rw [List.disjoint_singleton]
    exact fresh

/-- A trail is two trails that have the node between them in common and nothing else. -/
theorem trail_split_iff : g.Trail a c (left ++ b :: right) ↔
    g.Trail a b (left ++ [b]) ∧ g.Trail b c (b :: right) ∧ left.Disjoint right := by
  have hhead : (left ++ b :: right).head? = (left ++ [b]).head? := by cases left <;> rfl
  have hlast : (left ++ b :: right).getLast? = (b :: right).getLast? := by
    rw [List.getLast?_append_of_ne_nil _ (by simp)]
  constructor
  · intro h
    obtain ⟨hl, hr⟩ := List.isChain_split.mp h.linked
    obtain ⟨nodupLeft, nodupRight, apart⟩ := List.nodup_append'.mp h.nodup
    refine ⟨⟨hhead ▸ h.head, by simp, hl, ?_⟩, ⟨rfl, hlast ▸ h.last, hr, nodupRight⟩, ?_⟩
    · refine List.nodup_append'.mpr ⟨nodupLeft, List.nodup_singleton b, ?_⟩
      rw [List.disjoint_singleton]
      exact fun hb => apart hb List.mem_cons_self
    · exact fun x hx hx' => apart hx (List.mem_cons_of_mem b hx')
  · intro h
    obtain ⟨hleft, hright, apart⟩ := h
    obtain ⟨nodupLeft, -, hb⟩ := List.nodup_append'.mp hleft.nodup
    refine ⟨hhead ▸ hleft.head, hlast ▸ hright.last,
      List.isChain_split.mpr ⟨hleft.linked, hright.linked⟩,
      List.nodup_append'.mpr ⟨nodupLeft, hright.nodup, fun x hx hx' => ?_⟩⟩
    rcases List.mem_cons.mp hx' with rfl | hx'
    · exact hb hx (List.mem_singleton_self x)
    · exact apart hx hx'

/-- Every trail grows out of its first node. -/
theorem Trail.induct {motive : List NodeId → NodeId → Prop} (h : g.Trail a b path)
    (here : motive [a] a)
    (step : ∀ path b c, g.Trail a b path → g.DependsOn b c → c ∉ path → motive path b →
      motive (path ++ [c]) c) : motive path b := by
  induction path using List.reverseRecOn generalizing b with
  | nil => exact absurd rfl h.ne_nil
  | append_singleton path c ih =>
    obtain rfl : c = b := by simpa using h.last
    rcases List.eq_nil_or_concat path with rfl | ⟨front, d, hpath⟩
    · obtain rfl : c = a := by simpa using h.head
      exact here
    · rw [List.concat_eq_append] at hpath
      have hsplit : g.Trail a c (front ++ d :: [c]) := by
        rw [hpath, List.append_assoc] at h
        exact h
      obtain ⟨hfront, hstep, -⟩ := trail_split_iff.mp hsplit
      rw [← hpath] at hfront
      refine step path d c hfront (List.isChain_pair.mp hstep.linked) ?_ (ih hfront)
      intro hc
      exact (List.nodup_append'.mp h.nodup).2.2 hc (List.mem_singleton_self c)

theorem Trail.reachable (h : g.Trail a b path) : g.Reachable a b := by
  refine h.induct (motive := fun _ b => g.Reachable a b) ⟨0, .here⟩ fun _ _ _ _ depends _ ih => ?_
  obtain ⟨n, walk⟩ := ih
  exact ⟨n + 1, walk.step depends⟩

theorem Trail.reachable_of_mem (h : g.Trail a b path) (hc : c ∈ path) : g.Reachable a c := by
  obtain ⟨left, right, rfl⟩ := List.append_of_mem hc
  exact (trail_split_iff.mp h).1.reachable

/-- A shortest walk is a trail, and all but its end lies nearer. -/
theorem Distance.exists_trail {n : Nat}
    (h : g.Distance EdgeKind.structural .outgoing start b n) :
    ∃ way, g.Trail start b way ∧ ∀ id ∈ way, id = b ∨
      ∃ m < n, g.Distance EdgeKind.structural .outgoing start id m := by
  induction n generalizing b with
  | zero =>
    obtain rfl := distance_zero_iff.mp h
    exact ⟨[b], trail_singleton g b, fun id hid => .inl (List.mem_singleton.mp hid)⟩
  | succ n ih =>
    obtain ⟨⟨a, ha, depends⟩, -⟩ := distance_succ_iff.mp h
    obtain ⟨way, trail, near⟩ := ih ha
    have hnear : ∀ id ∈ way, ∃ m < n + 1,
        g.Distance EdgeKind.structural .outgoing start id m := by
      intro id hid
      rcases near id hid with rfl | ⟨m, hlt, hm⟩
      · exact ⟨n, Nat.lt_succ_self n, ha⟩
      · exact ⟨m, Nat.lt_succ_of_lt hlt, hm⟩
    have hfresh : b ∉ way := by
      intro hb
      obtain ⟨m, hlt, hm⟩ := hnear b hb
      have := h.unique hm
      omega
    refine ⟨way ++ [b], trail.snoc depends hfresh, fun id hid => ?_⟩
    rcases List.mem_append.mp hid with hid | hid
    · exact .inr (hnear id hid)
    · exact .inl (List.mem_singleton.mp hid)

/-- A trail is no longer than there are nodes in reach. -/
theorem Trail.length_le (h : g.Trail start b path) :
    path.length ≤ Set.encard {id | g.Reachable start id} :=
  length_le_encard h.nodup fun _ hid => h.reachable_of_mem hid

/-! ## Circles -/

/-- A circle is one wherever it is thought to begin. -/
theorem Circle.rotate (h : g.Circle (left ++ b :: right)) : g.Circle (b :: right ++ left) := by
  obtain ⟨first, last, trail, closes⟩ := h
  rcases List.eq_nil_or_concat left with rfl | ⟨front, d, hleft⟩
  · obtain rfl : b = first := by simpa using trail.head
    exact ⟨b, last, by simpa using trail, closes⟩
  · rw [List.concat_eq_append] at hleft
    have hchain := List.isChain_append.mp trail.linked
    refine ⟨b, d, ⟨rfl, ?_, ?_, ?_⟩, ?_⟩
    · rw [List.getLast?_append_of_ne_nil _ (by simp [hleft]), hleft, List.getLast?_concat]
    · refine hchain.2.1.append hchain.1 fun x hx y hy => ?_
      have hlast := trail.last
      rw [List.getLast?_append_of_ne_nil _ (by simp), hx] at hlast
      have hhead := trail.head
      rw [List.head?_append_of_ne_nil _ (by simp [hleft]), hy] at hhead
      rw [Option.some.inj hlast, Option.some.inj hhead]
      exact closes
    · exact (List.perm_append_comm.nodup_iff).mp trail.nodup
    · exact hchain.2.2 d (by simp [hleft]) b rfl

/-- A circle of which anything can be reached has an entrance. -/
theorem Circle.exists_entrance {circle : List NodeId} (h : g.Circle circle) {id : NodeId}
    (hid : id ∈ circle) (reachable : g.Reachable start id) :
    ∃ rotated, rotated ~r circle ∧ g.Circle rotated ∧ g.Enters start rotated := by
  classical
  -- The nearest node: what lies before it on a shortest way is nearer still, so not on the circle.
  have hex : ∃ n, ∃ id ∈ circle, g.Walk EdgeKind.structural .outgoing start n id := by
    obtain ⟨n, walk⟩ := reachable
    exact ⟨n, id, hid, walk⟩
  obtain ⟨first, hfirst, walk⟩ := Nat.find_spec hex
  have hnearest : ∀ m, ∀ id ∈ circle, g.Walk EdgeKind.structural .outgoing start m id →
      Nat.find hex ≤ m := fun m id hid walk => Nat.find_min' hex ⟨id, hid, walk⟩
  obtain ⟨way, trail, near⟩ := Distance.exists_trail
    ⟨walk, fun m walk => hnearest m first hfirst walk⟩
  obtain ⟨left, right, rfl⟩ := List.append_of_mem hfirst
  have hrotated : g.Circle (first :: right ++ left) := h.rotate
  refine ⟨first :: right ++ left, List.isRotated_append, hrotated,
    first, way, rfl, trail, fun id hway htail => ?_⟩
  have hmem : id ∈ left ++ first :: right := by
    rcases List.mem_append.mp htail with hr | hl
    · exact List.mem_append_right left (List.mem_cons_of_mem first hr)
    · exact List.mem_append_left _ hl
  rcases near id hway with rfl | ⟨m, hlt, hm⟩
  · obtain ⟨_, _, trail', -⟩ := hrotated
    exact (List.nodup_cons.mp trail'.nodup).1 htail
  · have := hnearest m id hmem hm.walk
    omega

end PropertyGraph

end CodeAtlas
