import CodeAtlas.Proofs.Query.Distance
import CodeAtlas.Proofs.Store.Rows
import CodeAtlas.Query.Expansion

/-!
# Expansions are exact

An expansion goes from level to level, and its levels are those of the distance from the start: what it
finds on one is what an edge leads to and no level before had (`spread_run`). A deadline can end it
before any node. Then a level may be cut short, but what was found lies where it was said to lie; only
what is missing is not known. Without a deadline nothing is missing, and the expansion is a function of the
graph (`expand_never`).

All that an expansion asks of its backend is that it names the neighbours that the graph has, so that it
does not matter which backend it is (`TellsNeighbors`).
-/

set_option autoImplicit false

namespace CodeAtlas

open Std

namespace Reached

instance : TransCmp compareListed :=
  inferInstanceAs (TransCmp (compareLex (compareOn depth) (compareOn fun r : Reached => r.node.id)))

/-- Nodes that are told apart by their ids are listed in strict order. -/
theorem pairwise_sort {reached : List Reached} (h : (reached.map (·.node.id)).Nodup) :
    (sort reached).Pairwise fun a b => compareListed a b = .lt := by
  have hperm : (sort reached).Perm reached := List.mergeSort_perm reached _
  have happart : (sort reached).Pairwise fun a b => a.node.id ≠ b.node.id :=
    List.pairwise_map.mp ((hperm.map _).nodup_iff.mpr h)
  refine ((Maps.pairwise_mergeSort compareListed reached).and happart).imp fun {a b} hab => ?_
  cases hc : compareListed a b with
  | lt => rfl
  | eq =>
    simp only [compareListed, compareLex, compareOn, Ordering.then_eq_eq,
      LawfulEqOrd.compare_eq_iff_eq] at hc
    exact absurd hc.2 hab.2
  | gt =>
    have hle := hab.1
    rw [hc] at hle
    cases hle

end Reached

/-! ## One level -/

section Level

variable {σ : Type} [Backend σ] {s : σ} {g : PropertyGraph} {kinds : List EdgeKind}
  {direction : Direction} {frontier : List NodeId} {base : ExtTreeSet NodeId} {w : Wave}

theorem Deadline.of_check_passed {deadline left : Deadline} (h : deadline.check = (true, left)) :
    left = .passed := by
  rcases deadline with ⟨_ | _ | _⟩ <;> cases h
  rfl

/-- A store that names the neighbours of a graph. -/
def TellsNeighbors (s : σ) (g : PropertyGraph) : Prop :=
  ∀ id kinds direction, Backend.neighbors id kinds direction s = (.ok (g.neighbors id kinds direction), s)

theorem tellsNeighbors_graph (g : PropertyGraph) : TellsNeighbors g g := fun _ _ _ => rfl

theorem Tables.Stores.tellsNeighbors {t : Tables} (h : t.Stores g) : TellsNeighbors t g :=
  fun id kinds direction => Prod.ext (h.shows.neighbors id kinds direction) rfl

namespace Wave

/-- What a level has found beyond the nodes that were known before it: neighbours of its nodes, each
once. -/
structure Grown (g : PropertyGraph) (kinds : List EdgeKind) (direction : Direction)
    (frontier : List NodeId) (base : ExtTreeSet NodeId) (w : Wave) : Prop where
  seen : ∀ id, id ∈ w.seen ↔ id ∈ base ∨ id ∈ w.found.map (·.id)
  fresh : ∀ node ∈ w.found, node.id ∉ base
  nodup : (w.found.map (·.id)).Nodup
  source : ∀ node ∈ w.found,
    ∃ id ∈ frontier, ∃ hop ∈ g.neighbors id kinds direction, hop.node.summary = node

theorem mem_seen_add {node : NodeSummary} {id : NodeId} :
    id ∈ (w.add node).seen ↔ id ∈ w.seen ∨ node.id = id := by
  unfold add
  split
  next h =>
    refine ⟨.inl, ?_⟩
    rintro (hm | rfl)
    · exact hm
    · exact ExtTreeSet.mem_iff_contains.mpr h
  next => rw [ExtTreeSet.mem_insert, LawfulEqCmp.compare_eq_iff_eq, or_comm]

theorem Grown.add (h : w.Grown g kinds direction frontier base) {id : NodeId} (hid : id ∈ frontier)
    {hop : Neighbor} (hhop : hop ∈ g.neighbors id kinds direction) :
    (w.add hop.node.summary).Grown g kinds direction frontier base := by
  unfold Wave.add
  split
  next => exact h
  next hnew =>
    have hunseen : hop.node.summary.id ∉ w.seen := fun hm =>
      hnew (ExtTreeSet.mem_iff_contains.mp hm)
    rw [h.seen, not_or] at hunseen
    constructor
    case seen =>
      intro id
      rw [ExtTreeSet.mem_insert, LawfulEqCmp.compare_eq_iff_eq, h.seen]
      simp only [List.map_append, List.map_cons, List.map_nil, List.mem_append, List.mem_singleton]
      tauto
    case fresh =>
      intro node hm
      rcases List.mem_append.mp hm with hm | hm
      · exact h.fresh node hm
      · rw [List.mem_singleton.mp hm]
        exact hunseen.1
    case nodup =>
      rw [List.map_append]
      refine List.nodup_append'.mpr ⟨h.nodup, List.nodup_singleton _, ?_⟩
      rw [List.map_singleton, List.disjoint_singleton]
      exact hunseen.2
    case source =>
      intro node hm
      rcases List.mem_append.mp hm with hm | hm
      · exact h.source node hm
      · exact ⟨id, hid, hop, hhop, (List.mem_singleton.mp hm).symm⟩

theorem foldl_add_deadline (nodes : List NodeSummary) (w : Wave) :
    (nodes.foldl add w).deadline = w.deadline ∧ (nodes.foldl add w).truncated = w.truncated := by
  refine List.foldlRecOn (motive := fun v : Wave => v.deadline = w.deadline ∧
    v.truncated = w.truncated) nodes add ⟨rfl, rfl⟩ fun v hv node _ => ?_
  unfold add
  split
  · exact hv
  · exact hv

theorem mem_seen_foldl_add {nodes : List NodeSummary} {id : NodeId} :
    id ∈ (nodes.foldl add w).seen ↔ id ∈ w.seen ∨ id ∈ nodes.map (·.id) := by
  induction nodes generalizing w with
  | nil => simp
  | cons node rest ih =>
    rw [List.foldl_cons, ih, mem_seen_add, List.map_cons, List.mem_cons, or_assoc, eq_comm]

/-- What came of looking at the neighbours of some nodes of a level. -/
structure Swept (g : PropertyGraph) (kinds : List EdgeKind) (direction : Direction)
    (ids : List NodeId) (w w' : Wave) : Prop where
  seen : ∀ id ∈ w.seen, id ∈ w'.seen
  /-- A deadline that has not passed has left nothing out. -/
  complete : w'.truncated = false →
    ∀ id ∈ ids, ∀ hop ∈ g.neighbors id kinds direction, hop.node.id ∈ w'.seen
  /-- Only a deadline that has passed leaves something out. -/
  passed : w'.truncated = true → w.truncated = true ∨ w'.deadline = .passed
  never : w.deadline = .never → w'.deadline = .never

end Wave

theorem Query.sweep_run (tells : TellsNeighbors s g) {ids : List NodeId}
    (hids : ∀ id ∈ ids, id ∈ frontier) (grown : w.Grown g kinds direction frontier base) :
    ∃ w', sweep kinds direction ids w s = (.ok w', s) ∧ w'.Grown g kinds direction frontier base ∧
      w.Swept g kinds direction ids w' := by
  induction ids generalizing w with
  | nil => exact ⟨w, rfl, grown, fun _ h => h, fun _ => by simp, .inl, fun h => h⟩
  | cons id rest ih =>
    unfold sweep
    rcases hcheck : w.deadline.check with ⟨passed, deadline⟩
    have hnever : w.deadline = .never → deadline = .never := by
      intro h
      rw [h] at hcheck
      cases hcheck
      rfl
    cases passed with
    | true =>
      have hpassed : deadline = .passed := Deadline.of_check_passed hcheck
      exact ⟨_, rfl, ⟨grown.seen, grown.fresh, grown.nodup, grown.source⟩, fun _ h => h,
        fun h => by simp at h, fun _ => .inr hpassed, hnever⟩
    | false =>
      dsimp only
      rw [Session.bind_ok (tells id kinds direction)]
      have hstart : Wave.Grown g kinds direction frontier base { w with deadline } :=
        ⟨grown.seen, grown.fresh, grown.nodup, grown.source⟩
      have hfold : Wave.Grown g kinds direction frontier base
          (((g.neighbors id kinds direction).map (·.node.summary)).foldl Wave.add
            { w with deadline }) := by
        rw [List.foldl_map]
        exact List.foldlRecOn _ _ hstart fun v hv hop hm => hv.add (hids id List.mem_cons_self) hm
      obtain ⟨hdeadline, htruncated⟩ := Wave.foldl_add_deadline
        ((g.neighbors id kinds direction).map (·.node.summary)) { w with deadline }
      obtain ⟨w', hrun, grown', swept⟩ := ih (fun i hi => hids i (List.mem_cons_of_mem id hi)) hfold
      refine ⟨w', hrun, grown', fun i hi => ?_, fun hfull i hi hop hm => ?_, fun h => ?_,
        fun h => swept.never (hdeadline.trans (hnever h))⟩
      · exact swept.seen i (Wave.mem_seen_foldl_add.mpr (.inl hi))
      · rcases List.mem_cons.mp hi with rfl | hi
        · refine swept.seen _ (Wave.mem_seen_foldl_add.mpr (.inr ?_))
          rw [List.map_map]
          exact List.mem_map.mpr ⟨hop, hm, rfl⟩
        · exact swept.complete hfull i hi hop hm
      · rw [← htruncated]
        exact swept.passed h

end Level

/-! ## From level to level -/

namespace Wave

variable {g : PropertyGraph} {kinds : List EdgeKind} {direction : Direction} {start : NodeId}
  {frontier : List NodeId} {seen : ExtTreeSet NodeId} {depth : Nat} {v w : Wave}

theorem Grown.node (keyed : g.Keyed) (grown : w.Grown g kinds direction frontier seen) :
    ∀ node ∈ w.found, ∃ full, g.get? node.id = some full ∧ full.summary = node := by
  intro node hm
  obtain ⟨id, -, hop, hhop, rfl⟩ := grown.source node hm
  obtain ⟨-, -, hends⟩ := PropertyGraph.mem_neighbors_iff.mp hhop
  rcases hends with ⟨-, -, hn, -⟩ | ⟨-, -, hn, -⟩
  · exact ⟨hop.node, (congrArg (g.nodes[·]?) (keyed.nodes _ _ hn)).trans hn, rfl⟩
  · exact ⟨hop.node, (congrArg (g.nodes[·]?) (keyed.nodes _ _ hn)).trans hn, rfl⟩

/-- What a level finds is one step further away. -/
theorem Grown.distance (keyed : g.Keyed) (closed : g.Closed)
    (grown : w.Grown g kinds direction frontier seen)
    (hfrontier : ∀ id, id ∈ frontier ↔ g.Distance kinds direction start id depth)
    (hseen : ∀ id, id ∈ seen ↔ ∃ m ≤ depth, g.Distance kinds direction start id m) :
    ∀ node ∈ w.found, g.Distance kinds direction start node.id (depth + 1) := by
  intro node hm
  obtain ⟨id, hid, hop, hhop, rfl⟩ := grown.source node hm
  refine PropertyGraph.distance_succ_iff.mpr ⟨⟨id, (hfrontier id).mp hid,
    (PropertyGraph.leads_iff keyed closed).mpr ⟨hop, hhop, rfl⟩⟩, fun m hle hd => ?_⟩
  exact grown.fresh _ hm ((hseen _).mpr ⟨m, hle, hd⟩)

/-- A level that was looked at to its end has found everything one step further away. -/
theorem Swept.mem_found_iff (keyed : g.Keyed) (closed : g.Closed)
    (swept : v.Swept g kinds direction frontier w)
    (grown : w.Grown g kinds direction frontier seen)
    (hfrontier : ∀ id, id ∈ frontier ↔ g.Distance kinds direction start id depth)
    (hseen : ∀ id, id ∈ seen ↔ ∃ m ≤ depth, g.Distance kinds direction start id m)
    (hfull : w.truncated = false) (id : NodeId) :
    id ∈ w.found.map (·.id) ↔ g.Distance kinds direction start id (depth + 1) := by
  constructor
  · intro hm
    obtain ⟨node, hfound, rfl⟩ := List.mem_map.mp hm
    exact grown.distance keyed closed hfrontier hseen node hfound
  · intro hd
    obtain ⟨⟨a, ha, leads⟩, fresh⟩ := PropertyGraph.distance_succ_iff.mp hd
    obtain ⟨hop, hhop, rfl⟩ := (PropertyGraph.leads_iff keyed closed).mp leads
    have hm := swept.complete hfull a ((hfrontier a).mpr ha) hop hhop
    refine ((grown.seen _).mp hm).resolve_left fun hbase => ?_
    obtain ⟨m, hle, hd'⟩ := (hseen _).mp hbase
    exact fresh m hle hd'

end Wave

namespace Expansion

/-- What an expansion has found between two depths. -/
structure Covers (g : PropertyGraph) (kinds : List EdgeKind) (direction : Direction)
    (start : NodeId) (depth levels : Nat) (e : Expansion) : Prop where
  nodup : (e.reached.map (·.node.id)).Nodup
  node : ∀ r ∈ e.reached, ∃ node, g.get? r.node.id = some node ∧ node.summary = r.node
  distance : ∀ r ∈ e.reached, depth < r.depth ∧ r.depth ≤ depth + levels ∧
    g.Distance kinds direction start r.node.id r.depth
  complete : e.truncated = false → ∀ id n, g.Distance kinds direction start id n →
    depth < n → n ≤ depth + levels → id ∈ e.reached.map (·.node.id)

variable {g : PropertyGraph} {kinds : List EdgeKind} {direction : Direction} {start : NodeId}
  {depth levels : Nat} {found : List NodeSummary} {e : Expansion}

/-- Where nothing is found, nothing lies behind. -/
theorem covers_empty
    (h : ∀ id n, depth < n → n ≤ depth + levels → ¬ g.Distance kinds direction start id n) :
    Covers g kinds direction start depth levels {} where
  nodup := List.nodup_nil
  node := by simp
  distance := by simp
  complete _ id n hd hlt hle := absurd hd (h id n hlt hle)

/-- The nodes of one level before those of the levels behind it. -/
theorem Covers.cons (covers : e.Covers g kinds direction start (depth + 1) levels)
    (nodup : (found.map (·.id)).Nodup)
    (hnode : ∀ node ∈ found, ∃ full, g.get? node.id = some full ∧ full.summary = node)
    (hdistance : ∀ node ∈ found, g.Distance kinds direction start node.id (depth + 1))
    (hall : e.truncated = false → ∀ id, g.Distance kinds direction start id (depth + 1) →
      id ∈ found.map (·.id)) :
    Covers g kinds direction start depth (levels + 1)
      { e with reached := found.map (⟨·, depth + 1⟩) ++ e.reached } := by
  have hids : (found.map (⟨·, depth + 1⟩ : NodeSummary → Reached)).map (·.node.id) =
      found.map (·.id) := by simp
  constructor
  case nodup =>
    rw [List.map_append, hids]
    refine List.nodup_append'.mpr ⟨nodup, covers.nodup, fun id hhere hthere => ?_⟩
    obtain ⟨node, hm, rfl⟩ := List.mem_map.mp hhere
    obtain ⟨r, hr, hid⟩ := List.mem_map.mp hthere
    obtain ⟨hlt, -, hd⟩ := covers.distance r hr
    have := hd.unique (hid ▸ hdistance node hm)
    omega
  case node =>
    intro r hr
    rcases List.mem_append.mp hr with hr | hr
    · obtain ⟨node, hm, rfl⟩ := List.mem_map.mp hr
      exact hnode node hm
    · exact covers.node r hr
  case distance =>
    intro r hr
    rcases List.mem_append.mp hr with hr | hr
    · obtain ⟨node, hm, rfl⟩ := List.mem_map.mp hr
      exact ⟨Nat.lt_succ_self _, by simp, hdistance node hm⟩
    · obtain ⟨hlt, hle, hd⟩ := covers.distance r hr
      exact ⟨by omega, by omega, hd⟩
  case complete =>
    intro hfull id n hd hlt hle
    rw [List.map_append, hids, List.mem_append]
    rcases Nat.lt_or_ge (depth + 1) n with hbehind | hhere
    · exact .inr (covers.complete hfull id n hd hbehind (by omega))
    · obtain rfl : n = depth + 1 := by omega
      exact .inl (hall hfull id hd)

/-- What an expansion from a node has to be: listed by distance and then by id, each node once and at
its distance, and without a gap unless it was cut short. -/
structure Exact (g : PropertyGraph) (kinds : List EdgeKind) (direction : Direction)
    (start : NodeId) (maxDepth : Nat) (e : Expansion) : Prop where
  sorted : e.reached.Pairwise fun a b => Reached.compareListed a b = .lt
  nodup : (e.reached.map (·.node.id)).Nodup
  node : ∀ r ∈ e.reached, r.node.id ≠ start ∧
    ∃ node, g.get? r.node.id = some node ∧ node.summary = r.node
  distance : ∀ r ∈ e.reached,
    r.depth ≤ maxDepth ∧ g.Distance kinds direction start r.node.id r.depth
  complete : e.truncated = false → ∀ id n, g.Distance kinds direction start id n →
    1 ≤ n → n ≤ maxDepth → ∃ r ∈ e.reached, r.node.id = id

theorem Covers.exact {maxDepth : Nat} (h : e.Covers g kinds direction start 0 maxDepth) :
    Exact g kinds direction start maxDepth { e with reached := Reached.sort e.reached } := by
  have hperm : (Reached.sort e.reached).Perm e.reached := List.mergeSort_perm e.reached _
  constructor
  case sorted => exact Reached.pairwise_sort h.nodup
  case nodup => exact (hperm.map _).nodup_iff.mpr h.nodup
  case node =>
    intro r hr
    refine ⟨fun he => ?_, h.node r (hperm.mem_iff.mp hr)⟩
    obtain ⟨hlt, -, hd⟩ := h.distance r (hperm.mem_iff.mp hr)
    have := hd.unique (PropertyGraph.distance_zero_iff.mpr he)
    omega
  case distance =>
    intro r hr
    obtain ⟨-, hle, hd⟩ := h.distance r (hperm.mem_iff.mp hr)
    exact ⟨by omega, hd⟩
  case complete =>
    intro hfull id n hd hlt hle
    obtain ⟨r, hr, hid⟩ := List.mem_map.mp (h.complete hfull id n hd hlt (by omega))
    exact ⟨r, hperm.mem_iff.mpr hr, hid⟩

end Expansion

namespace PropertyGraph

/-- The neighbours of some nodes, one node after the other. -/
def summariesAt (g : PropertyGraph) (kinds : List EdgeKind) (direction : Direction)
    (ids : List NodeId) : List NodeSummary :=
  ids.flatMap fun id => (g.neighbors id kinds direction).map (·.node.summary)

/-- The nodes on some further levels, beginning with the nodes at a depth. -/
def levels (g : PropertyGraph) (kinds : List EdgeKind) (direction : Direction) :
    (levels depth : Nat) → List NodeId → ExtTreeSet NodeId → List Reached
  | 0, _, _, _ => []
  | _ + 1, _, [], _ => []
  | levels + 1, depth, frontier, seen =>
    let wave := (g.summariesAt kinds direction frontier).foldl Wave.add { seen, deadline := .never }
    wave.found.map (⟨·, depth + 1⟩) ++
      g.levels kinds direction levels (depth + 1) (wave.found.map (·.id)) wave.seen

end PropertyGraph

namespace Query

variable {σ : Type} [Backend σ] {s : σ} {g : PropertyGraph} {kinds : List EdgeKind}
  {direction : Direction} {start : NodeId} {frontier : List NodeId} {seen : ExtTreeSet NodeId}

/-- A level that is not empty is swept, and unless this is cut short, the levels behind it follow. -/
theorem spread_cons (levels depth : Nat) (first : NodeId) (others : List NodeId) (deadline : Deadline) :
    (spread kinds direction (levels + 1) depth (first :: others) seen deadline :
      Session σ (Expansion × Deadline)) = do
    let wave ← sweep kinds direction (first :: others) { seen, deadline }
    let here := wave.found.map (⟨·, depth + 1⟩)
    if wave.truncated then return (⟨here, true⟩, wave.deadline)
    let further ←
      spread kinds direction levels (depth + 1) (wave.found.map (·.id)) wave.seen wave.deadline
    return ({ further.1 with reached := here ++ further.1.reached }, further.2) := rfl

/-- The induction is on the levels that are left. It is carried by what the two sets are: the frontier
is the last level, and what has been seen are all the levels so far. -/
theorem spread_run (keyed : g.Keyed) (closed : g.Closed) (tells : TellsNeighbors s g)
    (levels depth : Nat) (deadline : Deadline)
    (hfrontier : ∀ id, id ∈ frontier ↔ g.Distance kinds direction start id depth)
    (hseen : ∀ id, id ∈ seen ↔ ∃ m ≤ depth, g.Distance kinds direction start id m) :
    ∃ e left, spread kinds direction levels depth frontier seen deadline s = (.ok (e, left), s) ∧
      e.Covers g kinds direction start depth levels ∧ (e.truncated = true → left = .passed) ∧
      (deadline = .never → left = .never) := by
  induction levels generalizing depth frontier seen deadline with
  | zero =>
    exact ⟨{}, deadline, rfl, Expansion.covers_empty fun id n hlt hle => by omega, by simp,
      fun h => h⟩
  | succ levels ih =>
    cases hf : frontier with
    | nil =>
      refine ⟨{}, deadline, rfl, Expansion.covers_empty fun id n hlt _ hd => ?_, by simp,
        fun h => h⟩
      obtain ⟨b, hb⟩ := hd.exists_before (Nat.le_of_lt hlt)
      have hm := (hfrontier b).mpr hb
      simp [hf] at hm
    | cons first others =>
      have hstart : Wave.Grown g kinds direction frontier seen { seen, deadline } :=
        ⟨by simp, by simp, List.nodup_nil, by simp⟩
      obtain ⟨w, hrun, grown, swept⟩ := sweep_run tells (fun _ h => h) hstart
      have hdistance := grown.distance keyed closed hfrontier hseen
      rw [spread_cons, ← hf, Session.bind_ok hrun]
      cases htruncated : w.truncated with
      | true =>
        have hrest : Expansion.Covers g kinds direction start (depth + 1) levels ⟨[], true⟩ :=
          ⟨List.nodup_nil, by simp, by simp, by simp⟩
        have hcut := hrest.cons grown.nodup (grown.node keyed) hdistance (by simp)
        rw [List.append_nil] at hcut
        exact ⟨_, _, rfl, hcut, fun _ => (swept.passed htruncated).resolve_left (by simp), swept.never⟩
      | false =>
        have hfound := swept.mem_found_iff keyed closed grown hfrontier hseen htruncated
        have hwave : ∀ id, id ∈ w.seen ↔ ∃ m ≤ depth + 1, g.Distance kinds direction start id m := by
          intro id
          rw [grown.seen, hseen, hfound]
          constructor
          · rintro (⟨m, hle, hd⟩ | hd)
            · exact ⟨m, by omega, hd⟩
            · exact ⟨depth + 1, le_rfl, hd⟩
          · rintro ⟨m, hle, hd⟩
            rcases Nat.lt_or_ge depth m with hlt | hle'
            · obtain rfl : m = depth + 1 := by omega
              exact .inr hd
            · exact .inl ⟨m, hle', hd⟩
        obtain ⟨e, left, hbeyond, covers, hpassed, hnever⟩ := ih (depth + 1) w.deadline hfound hwave
        simp only [Bool.false_eq_true, if_false]
        rw [Session.bind_ok hbeyond]
        exact ⟨_, _, rfl, covers.cons grown.nodup (grown.node keyed) hdistance
          fun _ id => (hfound id).mpr, hpassed, fun h => hnever (swept.never h)⟩

/-- An expansion finds what lies within its depth, whenever the deadline passes. It is cut short only by a
deadline that has passed, and one that never passes stays so. -/
theorem expand_run (keyed : g.Keyed) (closed : g.Closed) (tells : TellsNeighbors s g) (start : NodeId)
    (kinds : List EdgeKind) (direction : Direction) (maxDepth : Nat) (deadline : Deadline) :
    ∃ e left, expand start kinds direction maxDepth deadline s = (.ok (e, left), s) ∧
      e.Exact g kinds direction start maxDepth ∧ (e.truncated = true → left = .passed) ∧
      (deadline = .never → e.truncated = false ∧ left = .never) := by
  have hfrontier : ∀ id, id ∈ [start] ↔ g.Distance kinds direction start id 0 := by
    intro id
    rw [List.mem_singleton, PropertyGraph.distance_zero_iff]
  have hseen : ∀ id, id ∈ ({start} : ExtTreeSet NodeId) ↔ ∃ m ≤ 0,
      g.Distance kinds direction start id m := by
    intro id
    have hstart : ({start} : ExtTreeSet NodeId) = (∅ : ExtTreeSet NodeId).insert start := rfl
    rw [hstart, ExtTreeSet.mem_insert, LawfulEqCmp.compare_eq_iff_eq, eq_comm]
    simp [PropertyGraph.distance_zero_iff]
  obtain ⟨e, left, hrun, covers, hpassed, hnever⟩ :=
    spread_run keyed closed tells maxDepth 0 deadline hfrontier hseen
  refine ⟨_, left, ?_, covers.exact, hpassed, fun h => ⟨?_, hnever h⟩⟩
  · unfold expand
    rw [Session.bind_ok hrun]
    rfl
  · cases htruncated : e.truncated with
    | false => rfl
    | true =>
      have hleft := hpassed htruncated
      rw [hnever h] at hleft
      cases hleft

/-- The graph of a node and what can be reached from it is expanded exactly, whenever the deadline
passes. The expansion is cut short only by a deadline that has passed, and one that never passes stays
so. What a node depends on and what depends on it are two cases. -/
theorem expand_exact (ops : List Operation) (tells : TellsNeighbors s (Operation.after {} ops)) :
    (∀ (start : NodeId) (kinds : List EdgeKind) (direction : Direction) (maxDepth : Nat)
        (deadline : Deadline), ∃ e left,
      expand start kinds direction maxDepth deadline s = (.ok (e, left), s) ∧
        e.Exact (Operation.after {} ops) kinds direction start maxDepth ∧
        (e.truncated = true → left = .passed) ∧ (deadline = .never → e.truncated = false)) ∧
    ∀ (start : NodeId) (maxDepth : Nat) (deadline : Deadline),
      transitiveDependencies start maxDepth deadline s =
          expand start [.calls, .usesMetadata, .dependsOn] .outgoing maxDepth deadline s ∧
        transitiveDependents start maxDepth deadline s =
          expand start [.calls, .usesMetadata, .dependsOn] .incoming maxDepth deadline s := by
  refine ⟨fun start kinds direction maxDepth deadline => ?_, fun _ _ _ => ⟨rfl, rfl⟩⟩
  obtain ⟨e, left, hrun, exact, hpassed, hnever⟩ := expand_run (PropertyGraph.keyed_after ops)
    (PropertyGraph.closed_after ops) tells start kinds direction maxDepth deadline
  exact ⟨e, left, hrun, exact, hpassed, fun h => (hnever h).1⟩

/-! ## Without a deadline -/

theorem sweep_never (tells : TellsNeighbors s g) (ids : List NodeId) {w : Wave}
    (hnever : w.deadline = .never) :
    sweep kinds direction ids w s = (.ok ((g.summariesAt kinds direction ids).foldl Wave.add w), s) := by
  induction ids generalizing w with
  | nil => rfl
  | cons id rest ih =>
    have hcheck : w.deadline.check = (false, .never) := by rw [hnever]; rfl
    have hsame : { w with deadline := .never } = w := by rw [← hnever]
    unfold sweep
    rw [hcheck]
    dsimp only
    rw [hsame, Session.bind_ok (tells id kinds direction),
      ih ((Wave.foldl_add_deadline _ w).1.trans hnever), ← List.foldl_append]
    rfl

theorem spread_never (tells : TellsNeighbors s g) (levels depth : Nat) :
    spread kinds direction levels depth frontier seen .never s =
      (.ok ({ reached := g.levels kinds direction levels depth frontier seen }, .never), s) := by
  induction levels generalizing depth frontier seen with
  | zero => rfl
  | succ levels ih =>
    cases frontier with
    | nil => rfl
    | cons first others =>
      obtain ⟨hdeadline, htruncated⟩ := Wave.foldl_add_deadline
        (g.summariesAt kinds direction (first :: others)) { seen, deadline := .never }
      rw [spread_cons, Session.bind_ok (sweep_never tells _ rfl)]
      simp only [htruncated, hdeadline, Bool.false_eq_true, if_false]
      rw [Session.bind_ok (ih (depth + 1))]
      rfl

/-- An expansion with all the time it needs is a function of the graph. -/
theorem expand_never (tells : TellsNeighbors s g) (start : NodeId) (kinds : List EdgeKind)
    (direction : Direction) (maxDepth : Nat) :
    expand start kinds direction maxDepth .never s =
      (.ok ({ reached := Reached.sort (g.levels kinds direction maxDepth 0 [start] {start}) },
        .never), s) := by
  unfold expand
  rw [Session.bind_ok (spread_never tells maxDepth 0)]
  rfl

/-- A circle of three calls, seen from one of its functions, and a dependency that is not followed. -/
def sampleCircle : List Operation :=
  [.upsert [⟨⟨"a"⟩, .function, "a", ∅⟩, ⟨⟨"b"⟩, .function, "b", ∅⟩, ⟨⟨"c"⟩, .function, "c", ∅⟩]
    [⟨⟨"a"⟩, ⟨"b"⟩, .calls, ∅⟩, ⟨⟨"b"⟩, ⟨"c"⟩, .calls, ∅⟩, ⟨⟨"c"⟩, ⟨"a"⟩, .calls, ∅⟩,
      ⟨⟨"a"⟩, ⟨"c"⟩, .dependsOn, ∅⟩]]

theorem expand_exact_circle :
    TellsNeighbors (Operation.after ({} : PropertyGraph) sampleCircle)
        (Operation.after {} sampleCircle) ∧
      ∃ e left, expand ⟨"a"⟩ [.calls] .outgoing 5 .never
          (Operation.after ({} : PropertyGraph) sampleCircle) =
            (.ok (e, left), Operation.after {} sampleCircle) ∧
        e.Exact (Operation.after {} sampleCircle) [.calls] .outgoing ⟨"a"⟩ 5 ∧
        e.truncated = false ∧ e.reached.map (fun r => (r.node.id, r.depth)) = [(⟨"b"⟩, 1), (⟨"c"⟩, 2)] := by
  have tells := tellsNeighbors_graph (Operation.after {} sampleCircle)
  obtain ⟨e, left, hrun, exact, -, -⟩ :=
    (expand_exact sampleCircle tells).1 ⟨"a"⟩ [.calls] .outgoing 5 .never
  have hlevels : (Operation.after ({} : PropertyGraph) sampleCircle).levels [.calls] .outgoing 5 0
      [⟨"a"⟩] {⟨"a"⟩} = [⟨⟨⟨"b"⟩, .function, "b"⟩, 1⟩, ⟨⟨⟨"c"⟩, .function, "c"⟩, 2⟩] := by
    rw [sampleCircle, PropertyGraph.after_upsert]
    cbv
  have hsorted : Reached.sort [⟨⟨⟨"b"⟩, .function, "b"⟩, 1⟩, ⟨⟨⟨"c"⟩, .function, "c"⟩, 2⟩] =
      [⟨⟨⟨"b"⟩, .function, "b"⟩, 1⟩, ⟨⟨⟨"c"⟩, .function, "c"⟩, 2⟩] :=
    List.mergeSort_of_pairwise (by decide)
  have hfound := hrun
  rw [expand_never tells, hlevels, hsorted] at hfound
  cases hfound
  exact ⟨tells, _, _, hrun, exact, rfl, rfl⟩

end Query

end CodeAtlas
