import CodeAtlas.Proofs.Store.Laws

/-!
# Walks and distances

A walk goes along edges of some kinds, in one direction or in both, and the distance of a node is the
length of a shortest walk to it. Distances grow by one from level to level: a node lies on the next
level exactly if an edge leads to it from this one and it has not been seen on any level before
(`distance_succ_iff`). Nothing lies behind an empty level (`Distance.exists_before`).
-/

set_option autoImplicit false

namespace CodeAtlas.PropertyGraph

/-- Whether an edge of one of the kinds leads from a node to another, in the given direction. An empty
list of kinds admits every edge. -/
def Leads (g : PropertyGraph) (kinds : List EdgeKind) (direction : Direction) (a b : NodeId) : Prop :=
  ∃ edge ∈ g.allEdges, wants kinds edge.kind = true ∧
    ((direction.followsOut = true ∧ edge.source = a ∧ edge.target = b) ∨
      (direction.followsIn = true ∧ edge.target = a ∧ edge.source = b))

/-- Whether a node can be reached by going along as many edges. -/
inductive Walk (g : PropertyGraph) (kinds : List EdgeKind) (direction : Direction) (start : NodeId) :
    Nat → NodeId → Prop
  | here : Walk g kinds direction start 0 start
  | step {n : Nat} {a b : NodeId} (walk : Walk g kinds direction start n a)
      (leads : g.Leads kinds direction a b) : Walk g kinds direction start (n + 1) b

/-- Whether a shortest walk to a node has a length. -/
structure Distance (g : PropertyGraph) (kinds : List EdgeKind) (direction : Direction)
    (start id : NodeId) (n : Nat) : Prop where
  walk : g.Walk kinds direction start n id
  least : ∀ m, g.Walk kinds direction start m id → n ≤ m

variable {g : PropertyGraph} {kinds : List EdgeKind} {direction : Direction} {start a b : NodeId}
  {m n : Nat}

/-- In a graph the edges lead to the neighbours. -/
theorem leads_iff (keyed : g.Keyed) (closed : g.Closed) :
    g.Leads kinds direction a b ↔ ∃ hop ∈ g.neighbors a kinds direction, hop.node.id = b := by
  constructor
  · rintro ⟨edge, he, hw, hends⟩
    obtain ⟨k, hk⟩ := (Maps.mem_values _ _).mp he
    obtain ⟨hs, ht⟩ := closed k ((Maps.contains_iff _ _).mpr ⟨edge, hk⟩)
    rw [← keyed.edges k edge hk] at hs ht
    rcases hends with ⟨hd, rfl, rfl⟩ | ⟨hd, rfl, rfl⟩
    · obtain ⟨node, hn⟩ := (Maps.contains_iff _ _).mp ht
      exact ⟨⟨edge, node, .outgoing⟩, mem_neighbors_iff.mpr ⟨⟨k, hk⟩, hw, .inl ⟨hd, rfl, hn, rfl⟩⟩,
        keyed.nodes _ _ hn⟩
    · obtain ⟨node, hn⟩ := (Maps.contains_iff _ _).mp hs
      exact ⟨⟨edge, node, .incoming⟩, mem_neighbors_iff.mpr ⟨⟨k, hk⟩, hw, .inr ⟨hd, rfl, hn, rfl⟩⟩,
        keyed.nodes _ _ hn⟩
  · rintro ⟨hop, hm, rfl⟩
    obtain ⟨hk, hw, hends⟩ := mem_neighbors_iff.mp hm
    refine ⟨hop.edge, (Maps.mem_values _ _).mpr hk, hw, ?_⟩
    rcases hends with ⟨hd, hs, hn, -⟩ | ⟨hd, ht, hn, -⟩
    · exact .inl ⟨hd, hs, (keyed.nodes _ _ hn).symm⟩
    · exact .inr ⟨hd, ht, (keyed.nodes _ _ hn).symm⟩

theorem Distance.unique (hm : g.Distance kinds direction start a m)
    (hn : g.Distance kinds direction start a n) : m = n :=
  le_antisymm (hm.least n hn.walk) (hn.least m hm.walk)

theorem distance_zero_iff : g.Distance kinds direction start a 0 ↔ a = start := by
  constructor
  · rintro ⟨⟨⟩, -⟩
    rfl
  · rintro rfl
    exact ⟨.here, fun _ _ => Nat.zero_le _⟩

/-- Among the walks to a node there is a shortest one. -/
theorem Walk.exists_distance (h : g.Walk kinds direction start n a) :
    ∃ m ≤ n, g.Distance kinds direction start a m := by
  classical
  have hex : ∃ m, g.Walk kinds direction start m a := ⟨n, h⟩
  exact ⟨Nat.find hex, Nat.find_min' hex h, Nat.find_spec hex, fun m hm => Nat.find_min' hex hm⟩

/-- The next level: what this one leads to and no level before had. -/
theorem distance_succ_iff : g.Distance kinds direction start b (n + 1) ↔
    (∃ a, g.Distance kinds direction start a n ∧ g.Leads kinds direction a b) ∧
      ∀ m ≤ n, ¬ g.Distance kinds direction start b m := by
  constructor
  · intro h
    refine ⟨?_, fun m hm hd => by have := h.unique hd; omega⟩
    cases h.walk with
    | @step _ a _ walk leads =>
      -- A shorter walk to the last node but one would make the whole walk shorter.
      obtain ⟨k, hk, hd⟩ := walk.exists_distance
      have hle := h.least _ (hd.walk.step leads)
      obtain rfl : k = n := by omega
      exact ⟨a, hd, leads⟩
  · rintro ⟨⟨a, hd, leads⟩, fresh⟩
    obtain ⟨k, hk, hb⟩ := (hd.walk.step leads).exists_distance
    obtain rfl : k = n + 1 := by
      by_contra hne
      exact fresh k (by omega) hb
    exact hb

/-- A shortest walk passes through all the levels before its end. -/
theorem Distance.exists_before (h : g.Distance kinds direction start a n) (hm : m ≤ n) :
    ∃ b, g.Distance kinds direction start b m := by
  induction n generalizing a with
  | zero =>
    obtain rfl : m = 0 := by omega
    exact ⟨a, h⟩
  | succ n ih =>
    rcases Nat.lt_or_ge n m with hlt | hle
    · obtain rfl : m = n + 1 := by omega
      exact ⟨a, h⟩
    · obtain ⟨⟨b, hb, -⟩, -⟩ := distance_succ_iff.mp h
      exact ih hb hle

end CodeAtlas.PropertyGraph
