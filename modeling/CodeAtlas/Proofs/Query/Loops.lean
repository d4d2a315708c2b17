import CodeAtlas.Proofs.Query.Expansion
import CodeAtlas.Query.Loops
import Mathlib.Data.List.TakeWhile

/-!
# Loops and recursions come to the same

Whatever the backend answers, and whether it fails or not, an expansion over a queue ends as the
expansion from level to level does (`Query.expand_eq_loop`), and a cycle search over a stack ends as the
recursive one (`Query.findCycles_eq_loop`).

In the middle of a level, the queue holds what is left of this level and then what was found on it
(`QueueWalk.onLevel`). The frames of a stack are the nodes of the path, and the positions are theirs
(`Numbers`). Going into a child puts a frame on top, and coming back from it leaves stack and positions as
they were, so that a search below a path is followed without regard to what lies beneath
(`StackWalk.Follows`).
-/

set_option autoImplicit false

namespace CodeAtlas

open Std

/-! ## Rounds -/

namespace Session

variable {σ α : Type} {round : α → Option (Session σ α)} {a b : α} {s t : σ}
  {x : Except GraphError α × σ}

/-- Where some rounds lead: to a state of the loop, or to a failure that ends it. -/
inductive Leads (round : α → Option (Session σ α)) : α → σ → Except GraphError α × σ → Prop
  | refl (a : α) (s : σ) : Leads round a s (.ok a, s)
  | step {a b : α} {s t : σ} {next : Session σ α} {x : Except GraphError α × σ}
      (hround : round a = some next) (hnext : next s = (.ok b, t)) (rest : Leads round b t x) :
      Leads round a s x
  | fail {a : α} {s t : σ} {next : Session σ α} {e : GraphError} (hround : round a = some next)
      (hnext : next s = (.error e, t)) : Leads round a s (.error e, t)

namespace Leads

theorem trans (h : Leads round a s (.ok b, t)) (rest : Leads round b t x) : Leads round a s x := by
  generalize hy : ((.ok b, t) : Except GraphError α × σ) = y at h
  induction h with
  | refl a s =>
    cases hy
    exact rest
  | step hround hnext _ ih => exact .step hround hnext (ih hy)
  | fail => cases hy

/-- A loop that has come to its end stays there, however many rounds it may take. -/
theorem loop_eq (h : Leads round a s x) (final : ∀ b, x.1 = .ok b → round b = none) :
    ∃ enough, ∀ rounds ≥ enough, loop round rounds a s = x := by
  induction h with
  | refl a s =>
    refine ⟨0, fun rounds _ => ?_⟩
    cases rounds with
    | zero => rfl
    | succ rounds =>
      rw [loop, final a rfl]
      rfl
  | step hround hnext _ ih =>
    obtain ⟨enough, ih⟩ := ih final
    refine ⟨enough + 1, fun rounds hrounds => ?_⟩
    obtain ⟨rounds, rfl⟩ := Nat.exists_eq_add_of_le' (Nat.le_of_add_left_le hrounds)
    rw [loop, hround]
    exact (bind_ok hnext).trans (ih rounds (Nat.le_of_succ_le_succ hrounds))
  | fail hround hnext =>
    refine ⟨1, fun rounds hrounds => ?_⟩
    obtain ⟨rounds, rfl⟩ := Nat.exists_eq_add_of_le' hrounds
    rw [loop, hround]
    exact bind_error hnext

end Leads

end Session

/-! ## The queue -/

namespace QueueWalk

open Session Query

variable {σ : Type} [Backend σ] {kinds : List EdgeKind} {direction : Direction} {maxDepth depth : Nat}
  {before : List Reached} {ids : List NodeId} {wave : Wave} {s : σ}

/-- A walk on a level: first in the queue are the nodes of the level that are left, behind them those
that were found on it. -/
def onLevel (before : List Reached) (depth : Nat) (ids : List NodeId) (wave : Wave) : QueueWalk where
  queue := ids.map (·, depth) ++ wave.found.map (·.id, depth + 1)
  seen := wave.seen
  reached := before ++ wave.found.map (⟨·, depth + 1⟩)
  truncated := wave.truncated
  deadline := wave.deadline

/-- At the end of a level the next one stands in the queue. -/
theorem onLevel_nil (before : List Reached) (depth : Nat) (wave : Wave) :
    onLevel before depth [] wave =
      onLevel (before ++ wave.found.map (⟨·, depth + 1⟩)) (depth + 1) (wave.found.map (·.id))
        { wave with found := [] } := by
  simp [onLevel]

theorem foldl_add_onLevel (nodes : List NodeSummary) :
    nodes.foldl (add (depth + 1)) (onLevel before depth ids wave) =
      onLevel before depth ids (nodes.foldl Wave.add wave) := by
  induction nodes generalizing wave with
  | nil => rfl
  | cons node rest ih =>
    have hadd : (onLevel before depth ids wave).add (depth + 1) node =
        onLevel before depth ids (wave.add node) := by
      show (if wave.seen.contains node.id then _ else _) = _
      unfold Wave.add
      split
      · rfl
      · simp [onLevel]
    rw [List.foldl_cons, List.foldl_cons, hadd, ih]

/-- A round on a level is a step of its sweep. -/
theorem round_onLevel (kinds : List EdgeKind) (direction : Direction) (hdepth : depth < maxDepth)
    (before : List Reached) (id : NodeId) (ids : List NodeId) (going : wave.truncated = false) :
    (round kinds direction maxDepth (onLevel before depth (id :: ids) wave) :
      Option (Session σ QueueWalk)) =
    match wave.deadline.check with
    | (true, deadline) =>
      some (pure (onLevel before depth ids { wave with deadline, truncated := true }))
    | (false, deadline) => some do
      let neighbors ← Backend.neighbors id kinds direction
      return onLevel before depth ids
        ((neighbors.map (·.node.summary)).foldl Wave.add { wave with deadline }) := by
  unfold round
  rw [if_neg (by simpa [onLevel] using going)]
  simp only [← foldl_add_onLevel]
  exact if_neg (Nat.not_le.mpr hdepth)

/-- A level is gone through as it is swept. Only a walk that has been cut short leaves some of it. -/
theorem leads_level (kinds : List EdgeKind) (direction : Direction) (hdepth : depth < maxDepth)
    (before : List Reached) (ids : List NodeId) (going : wave.truncated = false) (s : σ) :
    ∃ left, (∀ wave', (sweep kinds direction ids wave s).1 = .ok wave' →
        wave'.truncated = false → left = []) ∧
      Leads (round kinds direction maxDepth) (onLevel before depth ids wave) s
        ((sweep kinds direction ids wave s).1.map (onLevel before depth left),
          (sweep kinds direction ids wave s).2) := by
  induction ids generalizing wave s with
  | nil => exact ⟨[], fun _ _ _ => rfl, .refl _ _⟩
  | cons id rest ih =>
    have hround := round_onLevel (σ := σ) kinds direction hdepth before id rest going
    unfold sweep
    rcases hcheck : wave.deadline.check with ⟨passed, deadline⟩
    rw [hcheck] at hround
    cases passed with
    | true =>
      refine ⟨rest, fun wave' h hfull => ?_, .step hround rfl (.refl _ _)⟩
      cases h
      cases hfull
    | false =>
      dsimp only
      rcases hneighbors : Backend.neighbors id kinds direction s with ⟨e | neighbors, t⟩
      · rw [bind_error hneighbors]
        exact ⟨[], fun _ h => (by cases h), .fail hround (bind_error hneighbors)⟩
      · rw [bind_ok hneighbors]
        have going' := (Wave.foldl_add_deadline (neighbors.map (·.node.summary))
          { wave with deadline }).2.trans going
        obtain ⟨left, hleft, hleads⟩ := ih going' t
        exact ⟨left, hleft, .step hround (bind_ok hneighbors) hleads⟩

/-- Nodes at the greatest depth are only taken off the queue. -/
theorem leads_deepest (hdepth : maxDepth ≤ depth) {seen : ExtTreeSet NodeId} {deadline : Deadline} :
    Leads (round kinds direction maxDepth) (onLevel before depth ids { seen, deadline }) s
      (.ok (onLevel before depth [] { seen, deadline }), s) := by
  induction ids with
  | nil => exact .refl _ _
  | cons id rest ih => exact .step (if_pos hdepth) rfl ih

/-- What a walk has found, and the deadline that it leaves. -/
def result (w : QueueWalk) : Expansion × Deadline :=
  ({ reached := w.reached, truncated := w.truncated }, w.deadline)

/-- Level by level, a walk finds what an expansion finds. The induction is on the levels that are
left. -/
theorem leads_spread (kinds : List EdgeKind) (direction : Direction) (levels : Nat)
    (hdepth : depth + levels = maxDepth) (before : List Reached) (ids : List NodeId)
    (seen : ExtTreeSet NodeId) (deadline : Deadline) (s : σ) :
    ∃ x, Leads (round kinds direction maxDepth) (onLevel before depth ids { seen, deadline }) s
        (x, (spread kinds direction levels depth ids seen deadline s).2) ∧
      (∀ w, x = .ok w → (round kinds direction maxDepth w : Option (Session σ QueueWalk)) = none) ∧
      x.map result = (spread kinds direction levels depth ids seen deadline s).1.map
        fun found => ({ found.1 with reached := before ++ found.1.reached }, found.2) := by
  induction levels generalizing depth before ids seen deadline s with
  | zero =>
    refine ⟨_, leads_deepest (Nat.le_of_eq hdepth.symm), ?_, ?_⟩
    · rintro w ⟨⟩
      rfl
    · simp [onLevel, result, Except.map, spread, Session.pure_run]
  | succ levels ih =>
    cases ids with
    | nil =>
      refine ⟨_, .refl _ _, ?_, ?_⟩
      · rintro w ⟨⟩
        rfl
      · simp [onLevel, result, Except.map, spread, Session.pure_run]
    | cons first others =>
      rw [spread_cons]
      have hlevel : depth < maxDepth := by omega
      have going : ({ seen, deadline } : Wave).truncated = false := rfl
      obtain ⟨left, hleft, hleads⟩ :=
        leads_level kinds direction hlevel before (first :: others) going s
      rcases hsweep : sweep kinds direction (first :: others) { seen, deadline } s with ⟨e | wave, t⟩
      · rw [hsweep] at hleads
        rw [bind_error hsweep]
        exact ⟨_, hleads, fun w h => (by cases h), rfl⟩
      · rw [hsweep] at hleads hleft
        rw [bind_ok hsweep]
        cases htruncated : wave.truncated with
        | true =>
          refine ⟨_, hleads, ?_, ?_⟩
          · rintro w ⟨⟩
            exact if_pos htruncated
          · simp [onLevel, result, Except.map, htruncated, Session.pure_run]
        | false =>
          have hwave : { wave with found := [] } =
              ({ seen := wave.seen, deadline := wave.deadline } : Wave) := by
            rw [htruncated]
          rw [hleft wave rfl htruncated, Except.map, onLevel_nil, hwave] at hleads
          have hnext : depth + 1 + levels = maxDepth := by omega
          obtain ⟨x, hrest, hstops, hx⟩ := ih hnext (before ++ wave.found.map (⟨·, depth + 1⟩))
            (wave.found.map (·.id)) wave.seen wave.deadline t
          dsimp only
          rw [if_neg Bool.false_ne_true]
          rcases hspread : spread kinds direction levels (depth + 1) (wave.found.map (·.id)) wave.seen
            wave.deadline t with ⟨e | ⟨beyond, left⟩, t'⟩
          · rw [hspread] at hrest hx
            rw [bind_error hspread]
            exact ⟨x, hleads.trans hrest, hstops, hx⟩
          · rw [hspread] at hrest hx
            rw [bind_ok hspread]
            refine ⟨x, hleads.trans hrest, hstops, hx.trans ?_⟩
            simp [Except.map, Session.pure_run]

end QueueWalk

/-! ## The stack -/

/-- The positions on a path without repetition. -/
structure Numbers (path : List NodeId) (positions : ExtTreeMap NodeId Nat) : Prop where
  nodup : path.Nodup
  at_iff : ∀ (id : NodeId) i, positions[id]? = some i ↔ path[i]? = some id

namespace Numbers

variable {path : List NodeId} {positions : ExtTreeMap NodeId Nat} {child : NodeId}

theorem singleton (start : NodeId) : Numbers [start] (.ofList [(start, 0)]) where
  nodup := List.nodup_singleton start
  at_iff id i := by
    have hone : (.ofList [(start, 0)] : ExtTreeMap NodeId Nat) =
        (∅ : ExtTreeMap NodeId Nat).insert start 0 :=
      rfl
    rw [hone, Maps.get_insert, ExtTreeMap.getElem?_empty, List.getElem?_singleton]
    by_cases hi : i = 0
    · by_cases hid : start = id <;> simp [hi, hid]
    · by_cases hid : start = id <;> simp [hi, hid, Ne.symm hi]

theorem get_of_not_mem (h : Numbers path positions) (fresh : child ∉ path) : positions[child]? = none :=
  Option.eq_none_iff_forall_ne_some.mpr fun i hi =>
    fresh (List.mem_of_getElem? ((h.at_iff child i).mp hi))

/-- From its position on, the path is what a node on it leads back to. -/
theorem exists_position (h : Numbers path positions) (back : child ∈ path) :
    ∃ i, positions[child]? = some i ∧ path.drop i = path.dropWhile (· ≠ child) := by
  obtain ⟨left, right, rfl, hleft⟩ := List.eq_append_cons_of_mem back
  refine ⟨left.length, (h.at_iff child _).mpr (by simp), ?_⟩
  have hskipped : left.dropWhile (· ≠ child) = [] :=
    List.dropWhile_eq_nil_iff.mpr fun x hx => by simpa using ne_of_mem_of_not_mem hx hleft
  rw [List.drop_left, List.dropWhile_append, hskipped]
  simp

theorem snoc (h : Numbers path positions) (fresh : child ∉ path) :
    Numbers (path ++ [child]) (positions.insert child path.length) where
  nodup := List.nodup_append'.mpr
    ⟨h.nodup, List.nodup_singleton child, List.disjoint_singleton.mpr fresh⟩
  at_iff id i := by
    rw [Maps.get_insert]
    split
    next hid =>
      subst hid
      have hold : path[i]? ≠ some child := fun hi => fresh (List.mem_of_getElem? hi)
      rcases Nat.lt_trichotomy i path.length with hi | hi | hi
      · simp [List.getElem?_append_left hi, hold, hi.ne']
      · simp [hi]
      · simp [List.getElem?_append_right hi.le, hi.ne, Nat.sub_ne_zero_of_lt hi]
    next hid =>
      rw [h.at_iff]
      rcases Nat.lt_trichotomy i path.length with hi | hi | hi
      · rw [List.getElem?_append_left hi]
      · simp [hi, hid]
      · simp [List.getElem?_append_right hi.le, hi.le, Nat.sub_ne_zero_of_lt hi]

theorem erase_insert (h : Numbers path positions) (fresh : child ∉ path) (i : Nat) :
    (positions.insert child i).erase child = positions := by
  refine ExtTreeMap.ext_getElem? fun id => ?_
  rw [Maps.get_erase, Maps.get_insert]
  split
  next hid => rw [← hid, h.get_of_not_mem fresh]
  next => rfl

end Numbers

theorem Query.stopped_of_successors {σ : Type} [Backend σ] {id : NodeId} {t t' : CycleSearch} {s s' : σ}
    {ids : List NodeId} (h : successors id t s = (.ok (ids, t'), s')) : t'.stopped = t.stopped := by
  unfold successors at h
  cases hknown : t.known[id]? with
  | some known =>
    rw [hknown] at h
    cases h
    rfl
  | none =>
    rw [hknown] at h
    obtain ⟨found, s'', -, h⟩ := Session.of_bind_ok h
    cases h
    rfl

namespace StackWalk

open Session Query

variable {σ : Type} [Backend σ] {budget maxDepth : Nat} {w w' : StackWalk} {s s' : σ}
  {result : Except GraphError CycleSearch × σ} {back : CycleSearch → StackWalk}

/-- The loop runs as a search does: it fails with it, and where the search comes to its end without
having stopped, the loop comes back. -/
def Follows (budget maxDepth : Nat) (w : StackWalk) (s : σ) (result : Except GraphError CycleSearch × σ)
    (back : CycleSearch → StackWalk) : Prop :=
  ∃ arrive : CycleSearch → StackWalk, (∀ t, (arrive t).search = t) ∧
    (∀ t, result.1 = .ok t → t.stopped = false → arrive t = back t) ∧
    Leads (round budget maxDepth) w s (result.1.map arrive, result.2)

theorem Follows.cons {next : Session σ StackWalk} (hround : round budget maxDepth w = some next)
    (hnext : next s = (.ok w', s')) (h : Follows budget maxDepth w' s' result back) :
    Follows budget maxDepth w s result back := by
  obtain ⟨arrive, hsearch, hback, hleads⟩ := h
  exact ⟨arrive, hsearch, hback, .step hround hnext hleads⟩

/-- One search after another, unless the first one has stopped. -/
theorem Follows.bind {x : Session σ CycleSearch} {k : CycleSearch → Session σ CycleSearch}
    {onward : CycleSearch → StackWalk} (h : Follows budget maxDepth w s (x s) onward)
    (hk : ∀ t s', t.stopped = false → Follows budget maxDepth (onward t) s' (k t s') back) :
    Follows budget maxDepth w s ((x >>= fun t => if t.stopped then pure t else k t) s) back := by
  obtain ⟨arrive, hsearch, honward, hleads⟩ := h
  rcases hx : x s with ⟨e | t, s'⟩
  · rw [hx] at hleads
    rw [bind_error hx]
    exact ⟨arrive, hsearch, fun _ h => (by cases h), hleads⟩
  · rw [hx] at hleads honward
    rw [bind_ok hx]
    cases hstopped : t.stopped with
    | true =>
      refine ⟨arrive, hsearch, fun t' h going => ?_, hleads⟩
      cases h
      rw [hstopped] at going
      cases going
    | false =>
      obtain ⟨arrive', hsearch', hback, hrest⟩ := hk t s' hstopped
      rw [← honward t rfl hstopped] at hrest
      exact ⟨arrive', hsearch', hback, hleads.trans hrest⟩

/-! ### Frames -/

variable {below : List Frame} {node : NodeId} {children : List NodeId}
  {positions : ExtTreeMap NodeId Nat} {next room : Nat} {path : List NodeId} {t : CycleSearch}

/-- A walk whose last frame is given, with the child that is next. -/
def onFrame (below : List Frame) (node : NodeId) (children : List NodeId)
    (positions : ExtTreeMap NodeId Nat) (next : Nat) (search : CycleSearch) : StackWalk :=
  { stack := below ++ [⟨node, children, next⟩], positions, search }

/-- When a frame has no child left, the walk goes back. -/
theorem round_onFrame_none (going : t.stopped = false) (hnone : children[next]? = none) :
    (round budget maxDepth (onFrame below node children positions next t) :
      Option (Session σ StackWalk)) = some (pure ⟨below, positions.erase node, t⟩) := by
  simp [round, onFrame, going, hnone]

/-- What a round makes of a child. -/
theorem round_onFrame_some (budget maxDepth : Nat) (below : List Frame) (node : NodeId)
    (positions : ExtTreeMap NodeId Nat) (going : t.stopped = false) {child : NodeId}
    (hsome : children[next]? = some child) :
    (round budget maxDepth (onFrame below node children positions next t) :
      Option (Session σ StackWalk)) =
    if (t.step budget).stopped then
      some (pure (onFrame below node children positions (next + 1) (t.step budget)))
    else
      match positions[child]? with
      | some position => some (pure (onFrame below node children positions (next + 1)
          ((t.step budget).addCycle ((below.map (·.node) ++ [node]).drop position))))
      | none =>
        if maxDepth ≤ below.length + 1 then
          some (pure (onFrame below node children positions (next + 1) (t.step budget).cut))
        else some do
          let (found, search) ← successors child (t.step budget)
          return onFrame (below ++ [⟨node, children, next + 1⟩]) child found
            (positions.insert child (below.length + 1)) 0 search := by
  simp only [round, onFrame, List.getLast?_concat, List.dropLast_concat, hsome, List.map_drop,
    List.map_append, List.map_singleton, List.length_append, List.length_singleton]
  exact if_neg (Bool.eq_false_iff.mp going)

variable (numbers : Numbers path positions) (hpath : below.map (·.node) ++ [node] = path)

include numbers hpath in
/-- The children of a frame are tried one after the other, and then the walk goes back. What is done about
a child that is not on the path has to be followed by itself. -/
theorem follows_tryChildren {descend : NodeId → CycleSearch → Session σ CycleSearch}
    (hdescend : ∀ child next t s, children[next]? = some child → child ∉ path → t.stopped = false →
      (t.step budget).stopped = false →
      Follows budget maxDepth (onFrame below node children positions next t) s
        (descend child (t.step budget) s) (onFrame below node children positions (next + 1)))
    (next : Nat) (going : t.stopped = false) (s : σ) :
    Follows budget maxDepth (onFrame below node children positions next t) s
      (tryChildren budget descend path (children.drop next) t s)
      (⟨below, positions.erase node, ·⟩) := by
  generalize hrest : children.drop next = rest
  induction rest generalizing next t s with
  | nil =>
    have hnone : children[next]? = none := List.getElem?_eq_none (List.drop_eq_nil_iff.mp hrest)
    exact ⟨fun t => ⟨below, positions.erase node, t⟩, fun _ => rfl, fun _ _ _ => rfl,
      .step (round_onFrame_none going hnone) rfl (.refl _ _)⟩
  | cons child rest ih =>
    have hsome : children[next]? = some child := by
      rw [← List.head?_drop, hrest]
      rfl
    have hrest' : children.drop (next + 1) = rest := by
      rw [← List.tail_drop, hrest]
      rfl
    have hround := round_onFrame_some (σ := σ) budget maxDepth below node positions going hsome
    unfold tryChildren
    cases hstopped : (t.step budget).stopped with
    | true =>
      rw [hstopped, if_pos rfl] at hround
      simp only [hstopped, if_true]
      refine ⟨fun t => onFrame below node children positions (next + 1) t, fun _ => rfl, fun t' h going => ?_,
        .step hround rfl (.refl _ _)⟩
      cases h
      rw [hstopped] at going
      cases going
    | false =>
      rw [hstopped, if_neg Bool.false_ne_true] at hround
      simp only [hstopped, Bool.false_eq_true, if_false]
      have hgo : ∀ t' s', t'.stopped = false →
          Follows budget maxDepth (onFrame below node children positions (next + 1) t') s'
            (tryChildren budget descend path rest t' s') (⟨below, positions.erase node, ·⟩) :=
        fun t' s' going' => ih (next + 1) going' s' hrest'
      by_cases hback : child ∈ path
      · rw [if_pos (List.contains_iff_mem.mpr hback)]
        obtain ⟨position, hposition, hdrop⟩ := numbers.exists_position hback
        simp only [hposition, hpath, hdrop] at hround
        refine Follows.bind ?_ hgo
        exact ⟨onFrame below node children positions (next + 1), fun _ => rfl, fun _ _ _ => rfl,
          .step hround rfl (.refl _ _)⟩
      · rw [if_neg (fun h => hback (List.contains_iff_mem.mp h))]
        exact Follows.bind (hdescend child next t s hsome hback going hstopped) hgo

/-- A search below a path is followed by the loop. The induction is on the room that is left. -/
theorem follows_search (budget room : Nat) (below : List Frame) (node : NodeId) (children : List NodeId)
    (hpath : below.map (·.node) ++ [node] = path) (hroom : path.length + room = max 1 maxDepth)
    (numbers : Numbers path positions) (going : t.stopped = false) (s : σ) :
    Follows budget maxDepth (onFrame below node children positions 0 t) s
      (Query.search budget room path children t s) (⟨below, positions.erase node, ·⟩) := by
  have hlength : path.length = below.length + 1 := by
    rw [← hpath, List.length_append, List.length_map, List.length_singleton]
  induction room generalizing path below node children positions t s with
  | zero =>
    refine follows_tryChildren numbers hpath (fun child next t s hsome fresh going hgoing => ?_) 0 going s
    have hround := round_onFrame_some (σ := σ) budget maxDepth below node positions going hsome
    rw [hgoing, if_neg Bool.false_ne_true, numbers.get_of_not_mem fresh] at hround
    simp only [if_pos (show maxDepth ≤ below.length + 1 by omega)] at hround
    exact ⟨onFrame below node children positions (next + 1), fun _ => rfl, fun _ _ _ => rfl,
      .step hround rfl (.refl _ _)⟩
  | succ room ih =>
    refine follows_tryChildren numbers hpath (fun child next t s hsome fresh going hgoing => ?_) 0 going s
    have hround := round_onFrame_some (σ := σ) budget maxDepth below node positions going hsome
    rw [hgoing, if_neg Bool.false_ne_true, numbers.get_of_not_mem fresh] at hround
    simp only [if_neg (show ¬ maxDepth ≤ below.length + 1 by omega)] at hround
    rcases hsuccessors : successors child (t.step budget) s with ⟨e | ⟨found, t'⟩, s'⟩
    · rw [bind_error hsuccessors]
      exact ⟨onFrame below node children positions (next + 1), fun _ => rfl, fun _ h => (by cases h),
        .fail hround (bind_error hsuccessors)⟩
    · rw [bind_ok hsuccessors]
      have going' : t'.stopped = false := (stopped_of_successors hsuccessors).trans hgoing
      have hnodes : (below ++ [(⟨node, children, next + 1⟩ : Frame)]).map (·.node) ++ [child] =
          path ++ [child] := by
        rw [List.map_append, List.map_singleton, hpath]
      have hlength' : (path ++ [child]).length =
          (below ++ [(⟨node, children, next + 1⟩ : Frame)]).length + 1 := by
        rw [List.length_append, List.length_append, hlength, List.length_singleton, List.length_singleton]
      have hroom' : (path ++ [child]).length + room = max 1 maxDepth := by
        rw [List.length_append, List.length_singleton]
        omega
      have hfollows := ih (below ++ [⟨node, children, next + 1⟩]) child found hnodes hroom'
        (numbers.snoc fresh) going' s' hlength'
      rw [numbers.erase_insert fresh, hlength] at hfollows
      exact hfollows.cons hround (bind_ok hsuccessors)

end StackWalk

namespace Query

open Session

variable {σ : Type} [Backend σ]

/-- **A queue does as well.** The loop over a queue comes to an end, and then it has found what the
expansion from level to level finds, or has failed as it fails. -/
theorem expand_eq_loop (start : NodeId) (kinds : List EdgeKind) (direction : Direction) (maxDepth : Nat)
    (deadline : Deadline) (s : σ) :
    ∃ enough, ∀ rounds ≥ enough, expandLoop rounds start kinds direction maxDepth deadline s =
      expand start kinds direction maxDepth deadline s := by
  obtain ⟨x, hleads, hstops, hx⟩ := QueueWalk.leads_spread kinds direction maxDepth
    (Nat.zero_add maxDepth) [] [start] {start} deadline s
  obtain ⟨enough, hloop⟩ := hleads.loop_eq hstops
  refine ⟨enough, fun rounds hrounds => ?_⟩
  have hrun := hloop rounds hrounds
  unfold expandLoop expand
  rcases hspread : spread kinds direction maxDepth 0 [start] {start} deadline s with
    ⟨e | ⟨beyond, left⟩, t⟩
  · rw [hspread] at hx hrun
    rw [bind_error hspread]
    cases x with
    | error e' =>
      cases hx
      exact bind_error hrun
    | ok w => cases hx
  · rw [hspread] at hx hrun
    rw [bind_ok hspread]
    cases x with
    | error e' => cases hx
    | ok w =>
      have hw : w.result = (beyond, left) := Except.ok.inj hx
      refine (bind_ok hrun).trans ?_
      cases hw
      rfl

/-- **A stack does as well.** The loop over a stack comes to an end, and then it has found what the
recursive search finds, or has failed as it fails. -/
theorem findCycles_eq_loop (start : NodeId) (maxDepth stepBudget : Nat) (deadline : Deadline) (s : σ) :
    ∃ enough, ∀ rounds ≥ enough, findCyclesLoop rounds start maxDepth stepBudget deadline s =
      findCycles start maxDepth stepBudget deadline s := by
  rcases hsuccessors : successors start { deadline } s with ⟨e | ⟨children, t⟩, s'⟩
  · have henter : StackWalk.enter start deadline s = (.error e, s') := bind_error hsuccessors
    refine ⟨0, fun rounds _ => ?_⟩
    exact (bind_error henter).trans (bind_error hsuccessors).symm
  · have henter : StackWalk.enter start deadline s =
        (.ok (StackWalk.onFrame [] start children (.ofList [(start, 0)]) 0 t), s') :=
      bind_ok hsuccessors
    have going : t.stopped = false := stopped_of_successors hsuccessors
    have hroom : [start].length + (maxDepth - 1) = max 1 maxDepth := by
      rw [List.length_singleton]
      omega
    have hnodes : ([] : List Frame).map (·.node) ++ [start] = [start] := rfl
    obtain ⟨arrive, hsearch, hback, hleads⟩ := StackWalk.follows_search stepBudget
      (maxDepth - 1) [] start children hnodes hroom (Numbers.singleton start) going s'
    rcases hrun : search stepBudget (maxDepth - 1) [start] children t s' with ⟨e | t', s''⟩
    · rw [hrun] at hleads
      obtain ⟨enough, hloop⟩ := hleads.loop_eq fun w hw => (by cases hw)
      refine ⟨enough, fun rounds hrounds => ?_⟩
      have hleft : findCyclesLoop rounds start maxDepth stepBudget deadline s = (.error e, s'') :=
        (bind_ok henter).trans (bind_error (hloop rounds hrounds))
      have hright : findCycles start maxDepth stepBudget deadline s = (.error e, s'') :=
        (bind_ok hsuccessors).trans (bind_error hrun)
      rw [hleft, hright]
    · rw [hrun] at hleads hback
      -- The loop has stopped with the search, or it has come back from the start.
      have hfinal : ∀ w, (.ok (arrive t') : Except GraphError StackWalk) = .ok w →
          (StackWalk.round stepBudget maxDepth w : Option (Session σ StackWalk)) = none := by
        rintro w ⟨⟩
        cases hstopped : t'.stopped with
        | true => exact if_pos ((congrArg CycleSearch.stopped (hsearch t')).trans hstopped)
        | false =>
          rw [hback t' rfl hstopped]
          exact if_neg (by simp [hstopped])
      obtain ⟨enough, hloop⟩ := hleads.loop_eq hfinal
      refine ⟨enough, fun rounds hrounds => ?_⟩
      have hleft : findCyclesLoop rounds start maxDepth stepBudget deadline s =
          (.ok ((arrive t').search.report, (arrive t').search.deadline), s'') :=
        (bind_ok henter).trans (bind_ok (hloop rounds hrounds))
      have hright : findCycles start maxDepth stepBudget deadline s =
          (.ok (t'.report, t'.deadline), s'') :=
        (bind_ok hsuccessors).trans (bind_ok hrun)
      rw [hleft, hright, hsearch]

end Query

end CodeAtlas
