import CodeAtlas.Proofs.Query.Looks
import CodeAtlas.Query.Cycles

/-!
# Cycle searches

A cycle search goes through the looks that there are to take, in their order (`Query.findCycles_eq`). What it
makes of each is said look by look (`CycleSearch.look`), and what it has found, counted and left out after
some of them is an invariant of this run (`CycleSearch.Searched`).

From there the two sides part. Whatever ends the search, what it has found are circles, and it has counted
at most one step more than it may (`Query.findCycles_sound`). If it does not say that it was cut short, it
has taken all looks that can be taken from the start, so that it has found the circles with an entrance, and
each circle has one (`Query.findCycles_complete`).
-/

set_option autoImplicit false

namespace CodeAtlas

open Std

/-! ## Look by look -/

namespace CycleSearch

variable {budget limit : Nat} {s : CycleSearch} {l : Look} {done ls : List Look} {first : Deadline}

/-- What a search makes of a look for which it had a step left. -/
def take (limit : Nat) (s : CycleSearch) (l : Look) : CycleSearch :=
  if l.path.contains l.child then s.addCycle l.circle
  else if limit ≤ l.path.length then s.cut
  else s

/-- What a look does to a search that follows paths up to a length. Once it has stopped, nothing does
anything any more. -/
def look (budget limit : Nat) (s : CycleSearch) (l : Look) : CycleSearch :=
  if s.stopped then s
  else if (s.step budget).stopped then s.step budget
  else (s.step budget).take limit l

/-- How a step ends: the search stops, or it goes on with one step less. -/
theorem step_cases (budget : Nat) (s : CycleSearch) : ∃ left, (s.deadline = .never → left = .never) ∧
    ((s.step budget =
        { s with steps := s.steps + 1, truncated := true, stopped := true, deadline := left } ∧
      (s.deadline = .never → budget < s.steps + 1)) ∨
    (s.step budget = { s with steps := s.steps + 1, stopped := false, deadline := left } ∧
      s.steps < budget)) := by
  unfold step
  by_cases hbudget : budget < s.steps + 1
  · refine ⟨s.deadline, fun h => h, .inl ⟨?_, fun _ => hbudget⟩⟩
    simp only [hbudget, if_true]
  · simp only [hbudget, if_false]
    rcases hcheck : s.deadline.check with ⟨passed, left⟩
    have hnever : s.deadline = .never → passed = false ∧ left = .never := by
      intro h
      rw [h] at hcheck
      cases hcheck
      exact ⟨rfl, rfl⟩
    refine ⟨left, fun h => (hnever h).2, ?_⟩
    cases passed with
    | true => exact .inl ⟨by simp, fun h => absurd (hnever h).1 (by simp)⟩
    | false => exact .inr ⟨by simp, by omega⟩

theorem foldl_look_stopped (h : s.stopped = true) : ls.foldl (look budget limit) s = s := by
  induction ls with
  | nil => rfl
  | cons l rest ih =>
    have hlook : s.look budget limit l = s := by
      unfold look
      rw [if_pos h]
    rw [List.foldl_cons, hlook, ih]

/-- What holds of a search after some looks, with the deadline that it began with. -/
structure Searched (budget limit : Nat) (first : Deadline) (done : List Look) (s : CycleSearch) :
    Prop where
  /-- The set of the cycles found agrees with their list. -/
  found : ∀ c, s.found.contains c = true ↔ c ∈ s.newest
  nodup : s.newest.Nodup
  closed : ∀ c ∈ s.newest, ∃ l ∈ done, l.child ∈ l.path ∧ l.circle = c
  /-- The step that is one too many is counted too. -/
  steps_le : s.steps ≤ budget + 1
  within : s.stopped = false → s.steps ≤ budget
  counted : s.steps ≤ done.length
  stopped : s.stopped = true → s.truncated = true
  /-- Unless something was left out, everything was looked at and followed. -/
  complete : s.truncated = false → ∀ l ∈ done,
    (l.child ∈ l.path → l.circle ∈ s.newest) ∧ (l.child ∉ l.path → l.path.length < limit)
  never : first = .never → s.deadline = .never
  /-- Something is left out for want of steps, time or depth, and for nothing else. -/
  cause : first = .never → s.truncated = true →
    budget < s.steps ∨ ∃ l ∈ done, l.child ∉ l.path ∧ limit ≤ l.path.length

theorem searched_nil (budget limit : Nat) (first : Deadline) :
    Searched budget limit first [] { deadline := first } where
  found c := by simp
  nodup := List.nodup_nil
  closed c h := by simp at h
  steps_le := Nat.zero_le _
  within _ := Nat.zero_le _
  counted := le_rfl
  stopped h := by simp at h
  complete _ l h := by simp at h
  never h := h
  cause _ h := by simp at h

/-- What was found stays found when one more look is taken. -/
theorem Searched.closed_append (h : s.Searched budget limit first done) (l : Look) :
    ∀ c ∈ s.newest, ∃ l' ∈ done ++ [l], l'.child ∈ l'.path ∧ l'.circle = c := by
  intro c hc
  obtain ⟨l', hl', hback⟩ := h.closed c hc
  exact ⟨l', List.mem_append_left _ hl', hback⟩

theorem Searched.cause_append (h : s.Searched budget limit first done) (l : Look) {steps : Nat}
    (hsteps : s.steps ≤ steps) (hnever : first = .never) (htruncated : s.truncated = true) :
    budget < steps ∨ ∃ l' ∈ done ++ [l], l'.child ∉ l'.path ∧ limit ≤ l'.path.length := by
  rcases h.cause hnever htruncated with hspent | ⟨l', hl', hdeep⟩
  · exact .inl (hspent.trans_le hsteps)
  · exact .inr ⟨l', List.mem_append_left _ hl', hdeep⟩

theorem Searched.counted_append (h : s.Searched budget limit first done) (l : Look) :
    s.steps + 1 ≤ (done ++ [l]).length := by
  rw [List.length_append]
  exact Nat.succ_le_succ h.counted

/-- A search that has stopped leaves all further looks out. -/
theorem Searched.skip (h : s.Searched budget limit first done) (hstopped : s.stopped = true) (l : Look) :
    s.Searched budget limit first (done ++ [l]) where
  found := h.found
  nodup := h.nodup
  closed := h.closed_append l
  steps_le := h.steps_le
  within := h.within
  counted := (Nat.le_succ _).trans (h.counted_append l)
  stopped := h.stopped
  complete hfull := by
    rw [h.stopped hstopped] at hfull
    cases hfull
  never := h.never
  cause := h.cause_append l le_rfl

/-- The look that a search stops at. -/
theorem Searched.stop (h : s.Searched budget limit first done) (hgoing : s.stopped = false) (l : Look)
    {left : Deadline} (hleft : s.deadline = .never → left = .never)
    (hspent : s.deadline = .never → budget < s.steps + 1) :
    Searched budget limit first (done ++ [l])
      { s with steps := s.steps + 1, truncated := true, stopped := true, deadline := left } where
  found := h.found
  nodup := h.nodup
  closed := h.closed_append l
  steps_le := Nat.succ_le_succ (h.within hgoing)
  within hstopped := by cases hstopped
  counted := h.counted_append l
  stopped _ := rfl
  complete hfull := by cases hfull
  never hnever := hleft (h.never hnever)
  cause hnever _ := .inl (hspent (h.never hnever))

/-- A look that tells nothing new: its circle is known, or its child will be followed. -/
theorem Searched.pass (h : s.Searched budget limit first done) {l : Look} {left : Deadline}
    (hleft : s.deadline = .never → left = .never) (hsteps : s.steps < budget)
    (hlisted : l.child ∈ l.path → l.circle ∈ s.newest)
    (hshort : l.child ∉ l.path → l.path.length < limit) :
    Searched budget limit first (done ++ [l])
      { s with steps := s.steps + 1, stopped := false, deadline := left } where
  found := h.found
  nodup := h.nodup
  closed := h.closed_append l
  steps_le := Nat.le_succ_of_le hsteps
  within _ := hsteps
  counted := h.counted_append l
  stopped hstopped := by cases hstopped
  complete hfull l' hl' := by
    rcases List.mem_append.mp hl' with hl' | hl'
    · exact h.complete hfull l' hl'
    · rw [List.mem_singleton.mp hl']
      exact ⟨hlisted, hshort⟩
  never hnever := hleft (h.never hnever)
  cause := h.cause_append l (Nat.le_succ _)

/-- A look that finds a circle. -/
theorem Searched.add (h : s.Searched budget limit first done) {l : Look} {left : Deadline}
    (hleft : s.deadline = .never → left = .never) (hsteps : s.steps < budget)
    (hback : l.child ∈ l.path) (hnew : l.circle ∉ s.newest) :
    Searched budget limit first (done ++ [l])
      { s with newest := l.circle :: s.newest, found := s.found.insert l.circle,
               steps := s.steps + 1, stopped := false, deadline := left } where
  found c := by
    rw [ExtTreeSet.contains_insert, Bool.or_eq_true, h.found, List.mem_cons, beq_iff_eq,
      LawfulEqCmp.compare_eq_iff_eq, eq_comm]
  nodup := List.nodup_cons.mpr ⟨hnew, h.nodup⟩
  closed c hc := by
    rcases List.mem_cons.mp hc with rfl | hc
    · exact ⟨l, by simp, hback, rfl⟩
    · exact h.closed_append l c hc
  steps_le := Nat.le_succ_of_le hsteps
  within _ := hsteps
  counted := h.counted_append l
  stopped hstopped := by cases hstopped
  complete hfull l' hl' := by
    rcases List.mem_append.mp hl' with hl' | hl'
    · obtain ⟨hlisted, hshort⟩ := h.complete hfull l' hl'
      exact ⟨fun hb => List.mem_cons_of_mem _ (hlisted hb), hshort⟩
    · rw [List.mem_singleton.mp hl']
      exact ⟨fun _ => List.mem_cons_self, fun hfresh => absurd hback hfresh⟩
  never hnever := hleft (h.never hnever)
  cause := h.cause_append l (Nat.le_succ _)

/-- A look at a child that lies too deep. -/
theorem Searched.cut (h : s.Searched budget limit first done) {l : Look} {left : Deadline}
    (hleft : s.deadline = .never → left = .never) (hsteps : s.steps < budget)
    (hfresh : l.child ∉ l.path) (hdeep : limit ≤ l.path.length) :
    Searched budget limit first (done ++ [l])
      { s with steps := s.steps + 1, truncated := true, stopped := false, deadline := left } where
  found := h.found
  nodup := h.nodup
  closed := h.closed_append l
  steps_le := Nat.le_succ_of_le hsteps
  within _ := hsteps
  counted := h.counted_append l
  stopped _ := rfl
  complete hfull := by cases hfull
  never hnever := hleft (h.never hnever)
  cause _ _ := .inr ⟨l, by simp, hfresh, hdeep⟩

/-- A look for which there was a step left. -/
theorem Searched.take (h : s.Searched budget limit first done) (l : Look) {left : Deadline}
    (hleft : s.deadline = .never → left = .never) (hsteps : s.steps < budget) :
    Searched budget limit first (done ++ [l])
      (take limit { s with steps := s.steps + 1, stopped := false, deadline := left } l) := by
  unfold CycleSearch.take
  by_cases hback : l.child ∈ l.path
  · rw [if_pos (List.contains_iff_mem.mpr hback)]
    unfold addCycle
    split
    next hknown =>
      exact h.pass hleft hsteps (fun _ => (h.found l.circle).mp hknown)
        fun hfresh => absurd hback hfresh
    next hnew => exact h.add hleft hsteps hback fun hm => hnew ((h.found l.circle).mpr hm)
  · rw [if_neg fun hc => hback (List.contains_iff_mem.mp hc)]
    split
    next hdeep => exact h.cut hleft hsteps hback hdeep
    next hshallow =>
      exact h.pass hleft hsteps (fun hb => absurd hb hback) fun _ => Nat.lt_of_not_le hshallow

theorem Searched.look (h : s.Searched budget limit first done) (l : Look) :
    (s.look budget limit l).Searched budget limit first (done ++ [l]) := by
  unfold CycleSearch.look
  cases hstopped : s.stopped with
  | true => exact h.skip hstopped l
  | false =>
    obtain ⟨left, hleft, ⟨hstep, hspent⟩ | ⟨hstep, hsteps⟩⟩ := step_cases budget s
    · simp only [hstep, Bool.false_eq_true, if_false, if_true]
      exact h.stop hstopped l hleft hspent
    · simp only [hstep, Bool.false_eq_true, if_false]
      exact h.take l hleft hsteps

/-- The invariant of the run, look by look. -/
theorem Searched.foldl (h : s.Searched budget limit first done) (ls : List Look) :
    (ls.foldl (CycleSearch.look budget limit) s).Searched budget limit first (done ++ ls) := by
  induction ls generalizing s done with
  | nil =>
    rw [List.append_nil]
    exact h
  | cons l rest ih =>
    have hrest := ih (h.look l)
    rw [List.append_assoc] at hrest
    exact hrest

/-! ## Over a store

A search remembers what its store has told it. This memory changes nothing but what the store is asked, so
that it is left out when a search is compared with the run through its looks. -/

/-- A search without its memory. -/
def forget (s : CycleSearch) : CycleSearch := { s with known := ∅ }

/-- Whether all that a search remembers is so. -/
def Knows (g : PropertyGraph) (s : CycleSearch) : Prop :=
  ∀ (id : NodeId) ids, s.known[id]? = some ids → ids = g.dependencies id

theorem forget_step (budget : Nat) (s : CycleSearch) :
    (s.step budget).forget = s.forget.step budget := by
  unfold step
  dsimp only [forget]
  split <;> rfl

theorem Knows.step {g : PropertyGraph} {s : CycleSearch} (knows : s.Knows g) (budget : Nat) :
    (s.step budget).Knows g := by
  have hknown : (s.step budget).known = s.known := by
    unfold CycleSearch.step
    dsimp only
    split <;> rfl
  intro id ids h
  rw [hknown] at h
  exact knows id ids h

theorem forget_addCycle (s : CycleSearch) (cycle : List NodeId) :
    (s.addCycle cycle).forget = s.forget.addCycle cycle := by
  have hfound : s.forget.found = s.found := rfl
  unfold addCycle
  rw [hfound]
  split <;> rfl

theorem Knows.addCycle {g : PropertyGraph} {s : CycleSearch} (knows : s.Knows g)
    (cycle : List NodeId) : (s.addCycle cycle).Knows g := by
  have hknown : (s.addCycle cycle).known = s.known := by
    unfold CycleSearch.addCycle
    split <;> rfl
  intro id ids h
  rw [hknown] at h
  exact knows id ids h

/-- A look begins with a step. -/
theorem look_forget {s : CycleSearch} (going : s.stopped = false) (budget limit : Nat) (l : Look) :
    s.forget.look budget limit l =
      if (s.step budget).stopped then (s.step budget).forget
      else (s.step budget).forget.take limit l := by
  have hgoing : s.forget.stopped = false := going
  unfold look
  rw [hgoing, ← forget_step]
  rfl

end CycleSearch

/-- What a search has become when it has been through all looks that it may take. -/
def PropertyGraph.searched (g : PropertyGraph) (start : NodeId) (maxDepth stepBudget : Nat)
    (deadline : Deadline) : CycleSearch :=
  (g.looks (maxDepth - 1) [start] (g.dependencies start)).foldl
    (CycleSearch.look stepBudget (maxDepth - 1 + 1)) { deadline }

namespace Query

variable {σ : Type} {s : σ} {g : PropertyGraph} {t : CycleSearch} {budget : Nat}
  {path children : List NodeId}

/-- A child is taken, with all that is below it unless it closes a circle. Whatever comes next goes on
from there. -/
theorem child_run {child : NodeId} {descend : NodeId → CycleSearch → Session σ CycleSearch}
    {limit : Nat} {below : List Look}
    (hdescend : child ∉ path → ∃ t', descend child t s = (.ok t', s) ∧ t'.Knows g ∧
      t'.forget = below.foldl (CycleSearch.look budget limit) (t.forget.take limit ⟨path, child⟩))
    (knows : t.Knows g) :
    ∃ t', (∀ next : CycleSearch → Session σ CycleSearch,
        (if path.contains child then pure (t.addCycle (path.dropWhile (· ≠ child))) >>= next
          else descend child t >>= next) s = next t' s) ∧ t'.Knows g ∧
      t'.forget = (if child ∈ path then [] else below).foldl (CycleSearch.look budget limit)
        (t.forget.take limit ⟨path, child⟩) := by
  by_cases hback : child ∈ path
  · have hcontains : path.contains child = true := List.contains_iff_mem.mpr hback
    refine ⟨t.addCycle (path.dropWhile (· ≠ child)), ?_, knows.addCycle _, ?_⟩
    · intro next
      rw [if_pos hcontains]
      rfl
    · rw [if_pos hback, List.foldl_nil, CycleSearch.forget_addCycle, CycleSearch.take,
        if_pos hcontains]
      rfl
  · have hcontains : ¬ path.contains child = true := fun h => hback (List.contains_iff_mem.mp h)
    obtain ⟨t', hrun, knows', hforget⟩ := hdescend hback
    rw [if_neg hback]
    refine ⟨t', ?_, knows', hforget⟩
    intro next
    rw [if_neg hcontains]
    exact Session.bind_ok hrun

/-- The children of a node are gone through in their order. What is done below a child that is not on the
path has to be a run through the looks there. -/
theorem tryChildren_run {descend : NodeId → CycleSearch → Session σ CycleSearch} {limit : Nat}
    (below : NodeId → List Look)
    (hdescend : ∀ child t, child ∉ path → t.Knows g → t.stopped = false →
      ∃ t', descend child t s = (.ok t', s) ∧ t'.Knows g ∧
        t'.forget = (below child).foldl (CycleSearch.look budget limit)
          (t.forget.take limit ⟨path, child⟩))
    (knows : t.Knows g) (going : t.stopped = false) :
    ∃ t', tryChildren budget descend path children t s = (.ok t', s) ∧ t'.Knows g ∧
      t'.forget = (children.flatMap fun child =>
        ⟨path, child⟩ :: if child ∈ path then [] else below child).foldl
          (CycleSearch.look budget limit) t.forget := by
  induction children generalizing t with
  | nil => exact ⟨t, rfl, knows, rfl⟩
  | cons child rest ih =>
    rw [List.flatMap_cons, List.cons_append, List.foldl_cons, List.foldl_append,
      CycleSearch.look_forget going]
    unfold tryChildren
    cases hstopped : (t.step budget).stopped with
    | true =>
      refine ⟨t.step budget, by simp [hstopped, Session.pure_run], knows.step budget, ?_⟩
      have hforget : (t.step budget).forget.stopped = true := hstopped
      rw [if_pos rfl, CycleSearch.foldl_look_stopped hforget, CycleSearch.foldl_look_stopped hforget]
    | false =>
      obtain ⟨t', hrun, knows', hforget⟩ := child_run
        (fun hback => hdescend child (t.step budget) hback (knows.step budget) hstopped)
        (knows.step budget)
      simp only [hstopped, Bool.false_eq_true, if_false]
      rw [hrun, ← hforget]
      -- The children that are left, unless the search has stopped below this one.
      cases hstopped' : t'.stopped with
      | true =>
        have hforgotten : t'.forget.stopped = true := hstopped'
        refine ⟨t', rfl, knows', ?_⟩
        rw [CycleSearch.foldl_look_stopped hforgotten]
      | false => exact ih knows' hstopped'

variable [Backend σ]

theorem successors_run (tells : TellsNeighbors s g) (knows : t.Knows g) (id : NodeId) :
    ∃ t', successors id t s = (.ok (g.dependencies id, t'), s) ∧ t'.Knows g ∧ t'.forget = t.forget := by
  unfold successors
  cases hknown : t.known[id]? with
  | some ids =>
    refine ⟨t, ?_, knows, rfl⟩
    rw [← knows id ids hknown]
    rfl
  | none =>
    refine ⟨{ t with known := t.known.insert id (g.dependencies id) }, ?_, ?_, rfl⟩
    · dsimp only
      rw [Session.bind_ok (directDependencies_run tells id)]
      rfl
    · intro other ids hother
      rw [ExtTreeMap.getElem?_insert] at hother
      split at hother
      next he =>
        rw [LawfulEqCmp.compare_eq_iff_eq] at he
        subst he
        exact (Option.some.inj hother).symm
      next => exact knows other ids hother

/-- A search goes through the looks that there are to take. The induction is on the room that is left. -/
theorem search_run (tells : TellsNeighbors s g) (budget room : Nat) (path children : List NodeId)
    (knows : t.Knows g) (going : t.stopped = false) :
    ∃ t', search budget room path children t s = (.ok t', s) ∧ t'.Knows g ∧
      t'.forget = (g.looks room path children).foldl
        (CycleSearch.look budget (path.length + room)) t.forget := by
  induction room generalizing path children t with
  | zero =>
    have hlooks : g.looks 0 path children = children.flatMap fun child =>
        ⟨path, child⟩ :: if child ∈ path then [] else [] := by
      simp [PropertyGraph.looks, List.map_eq_flatMap]
    rw [hlooks]
    refine tryChildren_run (fun _ => []) (fun child t hfresh knows _ => ?_) knows going
    refine ⟨t.cut, rfl, knows, ?_⟩
    rw [List.foldl_nil, CycleSearch.take, if_neg (by simpa using hfresh), if_pos (by simp)]
    rfl
  | succ room ih =>
    refine tryChildren_run (fun child => g.looks room (path ++ [child]) (g.dependencies child))
      (fun child t hfresh knows going => ?_) knows going
    obtain ⟨t', hsuccessors, knows', hforget⟩ := successors_run tells knows child
    have going' : t'.stopped = false := (congrArg CycleSearch.stopped hforget).trans going
    obtain ⟨t'', hsearch, knows'', hrun⟩ :=
      ih (path ++ [child]) (g.dependencies child) knows' going'
    refine ⟨t'', ?_, knows'', ?_⟩
    · rw [Session.bind_ok hsuccessors]
      exact hsearch
    · have hlimit : (path ++ [child]).length + room = path.length + (room + 1) := by
        rw [List.length_append, List.length_singleton]
        omega
      rw [hrun, hforget, hlimit, CycleSearch.take, if_neg (by simpa using hfresh),
        if_neg (by dsimp only; omega)]

/-- A search is the run through the looks that it may take. -/
theorem findCycles_eq (tells : TellsNeighbors s g) (start : NodeId) (maxDepth stepBudget : Nat)
    (deadline : Deadline) :
    findCycles start maxDepth stepBudget deadline s =
      (.ok ((g.searched start maxDepth stepBudget deadline).report,
        (g.searched start maxDepth stepBudget deadline).deadline), s) := by
  have hempty : CycleSearch.Knows g { deadline } := by
    intro id ids h
    simp at h
  obtain ⟨t, hsuccessors, knows, hforget⟩ := successors_run tells hempty start
  have going : t.stopped = false := congrArg CycleSearch.stopped hforget
  obtain ⟨t', hsearch, -, hrun⟩ :=
    search_run tells stepBudget (maxDepth - 1) [start] (g.dependencies start) knows going
  rw [hforget, List.length_singleton, Nat.add_comm] at hrun
  have hsearched : g.searched start maxDepth stepBudget deadline = t'.forget := hrun.symm
  unfold findCycles
  rw [Session.bind_ok hsuccessors, hsearched]
  dsimp only
  rw [Session.bind_ok hsearch]
  rfl

theorem findCycles_run (tells : TellsNeighbors s g) (start : NodeId) (maxDepth stepBudget : Nat)
    (deadline : Deadline) :
    ∃ t : CycleSearch, findCycles start maxDepth stepBudget deadline s = (.ok (t.report, t.deadline), s) ∧
      t.Searched stepBudget (maxDepth - 1 + 1) deadline
        (g.looks (maxDepth - 1) [start] (g.dependencies start)) :=
  ⟨_, findCycles_eq tells start maxDepth stepBudget deadline,
    (CycleSearch.searched_nil stepBudget (maxDepth - 1 + 1) deadline).foldl _⟩

/-! ## The whole search -/

/-- Whatever ends a search, what it has found are circles in reach, each listed once, and it has counted at
most one step more than it may. A deadline is not asked again once it has passed, so that one which could
be put off would make no difference. -/
theorem findCycles_sound (made : g.Made) (tells : TellsNeighbors s g) (start : NodeId)
    (maxDepth stepBudget : Nat) (deadline : Deadline) :
    ∃ report left, findCycles start maxDepth stepBudget deadline s = (.ok (report, left), s) ∧
      report.steps ≤ stepBudget + 1 ∧ report.cycles.Nodup ∧
      ∀ circle ∈ report.cycles, circle ≠ [] ∧ circle.length ≤ max 1 maxDepth ∧
        (∀ id ∈ circle, g.Reachable start id) ∧ g.Circle circle := by
  have keyed := made.keyed
  have closed := made.closed
  obtain ⟨t, hrun, searched⟩ := findCycles_run tells start maxDepth stepBudget deadline
  refine ⟨t.report, t.deadline, hrun, searched.steps_le, List.nodup_reverse.mpr searched.nodup, ?_⟩
  intro circle hcircle
  obtain ⟨l, hl, hback, rfl⟩ := searched.closed circle (List.mem_reverse.mp hcircle)
  obtain ⟨hfrom, hlength⟩ := (PropertyGraph.mem_looks_iff keyed closed).mp hl
  obtain ⟨isCircle, -, hshort, hreach⟩ := PropertyGraph.circle_of_look hfrom hback
  obtain ⟨first, last, trail, closes⟩ := isCircle
  exact ⟨trail.ne_nil, by omega, hreach, first, last, trail, closes⟩

/-- A search that has a step less than it needs finds one of two circles and counts the step that it
did not have. -/
theorem findCycles_sound_circle :
    (Operation.after ({} : PropertyGraph) sampleCircle).Made ∧
      TellsNeighbors (Operation.after ({} : PropertyGraph) sampleCircle)
        (Operation.after {} sampleCircle) ∧
      ∃ report left, findCycles ⟨"a"⟩ 5 3 .never (Operation.after ({} : PropertyGraph) sampleCircle) =
          (.ok (report, left), Operation.after {} sampleCircle) ∧
        report.cycles = [[⟨"a"⟩, ⟨"b"⟩, ⟨"c"⟩]] ∧ report.truncated = true ∧ report.steps = 3 + 1 ∧
        (Operation.after ({} : PropertyGraph) sampleCircle).Circle [⟨"a"⟩, ⟨"b"⟩, ⟨"c"⟩] := by
  have made : (Operation.after ({} : PropertyGraph) sampleCircle).Made := ⟨sampleCircle, rfl⟩
  have tells := tellsNeighbors_graph (Operation.after {} sampleCircle)
  obtain ⟨report, left, hrun, -, -, hcircles⟩ := findCycles_sound made tells ⟨"a"⟩ 5 3 .never
  have hreport : (findCycles ⟨"a"⟩ 5 3 .never
      (Operation.after ({} : PropertyGraph) sampleCircle)).1.toOption.map (fun found =>
        (found.1.cycles, found.1.truncated, found.1.steps)) =
          some ([[⟨"a"⟩, ⟨"b"⟩, ⟨"c"⟩]], true, 4) := by
    rw [findCycles_eq tells, sampleCircle, PropertyGraph.after_upsert]
    cbv
  rw [hrun] at hreport
  obtain ⟨hcycles, hrest⟩ := Prod.mk.inj (Option.some.inj hreport)
  obtain ⟨htruncated, hsteps⟩ := Prod.mk.inj hrest
  refine ⟨made, tells, report, left, hrun, hcycles, htruncated, hsteps, ?_⟩
  exact (hcircles _ (by rw [hcycles]; exact List.mem_singleton_self _)).2.2.2

/-- A search that was not cut short has found the circles that can be entered from the start, and of every
other circle in reach it has found one that is the same but for where it begins. It is cut short only for
want of steps, if the deadline never passes and a path through all that is in reach would not be too
long; and it has no more steps to take than there are looks. -/
theorem findCycles_complete (made : g.Made) (tells : TellsNeighbors s g) (start : NodeId)
    (maxDepth stepBudget : Nat) (deadline : Deadline) :
    ∃ report left, findCycles start maxDepth stepBudget deadline s = (.ok (report, left), s) ∧
      (report.truncated = false →
        (∀ circle, circle ∈ report.cycles ↔ g.Circle circle ∧ g.Enters start circle) ∧
        (∀ circle, g.Circle circle → (∃ id ∈ circle, g.Reachable start id) →
          ∃ rotated ∈ report.cycles, rotated ~r circle) ∧
        ((∀ circle, g.Circle circle → ∀ id ∈ circle, ¬ g.Reachable start id) → report.cycles = [])) ∧
      (Set.encard {id | g.Reachable start id} ≤ maxDepth → deadline = .never →
        report.steps ≤ stepBudget ∨ Set.encard {l | Look.From g start l} ≤ stepBudget →
        report.truncated = false) := by
  have keyed := made.keyed
  have closed := made.closed
  obtain ⟨t, hrun, searched⟩ := findCycles_run tells start maxDepth stepBudget deadline
  refine ⟨t.report, t.deadline, hrun, fun hfull => ?_, fun hdeep hnever hsteps => ?_⟩
  · have hcomplete := searched.complete hfull
    have hlooks := fun l => PropertyGraph.mem_looks_iff_from (l := l) keyed closed
      fun l hl => (hcomplete l hl).2
    have hmem : ∀ circle, circle ∈ t.report.cycles ↔ g.Circle circle ∧ g.Enters start circle := by
      intro circle
      rw [CycleSearch.report, List.mem_reverse]
      constructor
      · intro hm
        obtain ⟨l, hl, hback, rfl⟩ := searched.closed circle hm
        obtain ⟨isCircle, enters, -⟩ := PropertyGraph.circle_of_look ((hlooks l).mp hl) hback
        exact ⟨isCircle, enters⟩
      · intro h
        obtain ⟨l, hfrom, hback, rfl⟩ := PropertyGraph.exists_look h.1 h.2
        exact (hcomplete l ((hlooks l).mpr hfrom)).1 hback
    refine ⟨hmem, fun circle isCircle hreach => ?_, fun hnone => ?_⟩
    · obtain ⟨id, hid, hreach⟩ := hreach
      obtain ⟨rotated, hrotated, isCircle', enters⟩ := isCircle.exists_entrance hid hreach
      exact ⟨rotated, (hmem rotated).mpr ⟨isCircle', enters⟩, hrotated⟩
    · refine List.eq_nil_iff_forall_not_mem.mpr fun circle hcircle => ?_
      obtain ⟨isCircle, first, way, hfirst, trail, -⟩ := (hmem circle).mp hcircle
      exact hnone circle isCircle first (List.mem_of_mem_head? hfirst) trail.reachable
  · cases htruncated : t.report.truncated with
    | false => rfl
    | true =>
      rcases searched.cause hnever htruncated with hspent | ⟨l, hl, hfresh, hlong⟩
      · -- Every step was a look, and no look is taken twice.
        have hcount : (t.steps : ℕ∞) ≤ Set.encard {l | Look.From g start l} :=
          (Nat.cast_le.mpr searched.counted).trans <| PropertyGraph.length_le_encard_from keyed closed
        rcases hsteps with hsteps | hsteps
        · exact absurd hspent (Nat.not_lt.mpr hsteps)
        · exact absurd hspent (Nat.not_lt.mpr (Nat.cast_le.mp (hcount.trans hsteps)))
      · obtain ⟨⟨last, trail, depends⟩, -⟩ := (PropertyGraph.mem_looks_iff keyed closed).mp hl
        have hlength := (trail.snoc depends hfresh).length_le.trans hdeep
        rw [List.length_append, List.length_singleton, Nat.cast_le] at hlength
        omega

theorem reachable_sampleCircle {id : NodeId}
    (h : (Operation.after ({} : PropertyGraph) sampleCircle).Reachable ⟨"a"⟩ id) :
    id ∈ [(⟨"a"⟩ : NodeId), ⟨"b"⟩, ⟨"c"⟩] := by
  have htargets : (Operation.after ({} : PropertyGraph) sampleCircle).allEdges.map (·.target) =
      [⟨"b"⟩, ⟨"c"⟩, ⟨"c"⟩, ⟨"a"⟩] := by
    rw [sampleCircle, PropertyGraph.after_upsert]
    cbv
  obtain ⟨n, walk⟩ := h
  cases walk with
  | here => exact List.mem_cons_self
  | step _ depends =>
    obtain ⟨edge, he, -, ⟨-, -, rfl⟩ | ⟨hin, -, -⟩⟩ := depends
    · have hmem := List.mem_map_of_mem (f := Edge.target) he
      rw [htargets] at hmem
      revert hmem
      simp
      tauto
    · cases hin

/-- Both circles are found if there are steps enough, each where it is entered from the start. -/
theorem findCycles_complete_circle :
    (Operation.after ({} : PropertyGraph) sampleCircle).Made ∧
      TellsNeighbors (Operation.after ({} : PropertyGraph) sampleCircle)
        (Operation.after {} sampleCircle) ∧
      Set.encard {id | (Operation.after ({} : PropertyGraph) sampleCircle).Reachable ⟨"a"⟩ id} ≤ 3 ∧
      ∃ report left, findCycles ⟨"a"⟩ 3 5 .never (Operation.after ({} : PropertyGraph) sampleCircle) =
          (.ok (report, left), Operation.after {} sampleCircle) ∧
        report.steps ≤ 5 ∧ report.truncated = false ∧
        report.cycles = [[⟨"a"⟩, ⟨"b"⟩, ⟨"c"⟩], [⟨"a"⟩, ⟨"c"⟩]] ∧
        ∀ circle, circle ∈ report.cycles ↔
          (Operation.after ({} : PropertyGraph) sampleCircle).Circle circle ∧
            (Operation.after ({} : PropertyGraph) sampleCircle).Enters ⟨"a"⟩ circle := by
  have made : (Operation.after ({} : PropertyGraph) sampleCircle).Made := ⟨sampleCircle, rfl⟩
  have tells := tellsNeighbors_graph (Operation.after {} sampleCircle)
  have hreach : Set.encard {id | (Operation.after ({} : PropertyGraph) sampleCircle).Reachable
      ⟨"a"⟩ id} ≤ 3 := by
    have hsub : {id | (Operation.after ({} : PropertyGraph) sampleCircle).Reachable ⟨"a"⟩ id} ⊆
        ((([⟨"a"⟩, ⟨"b"⟩, ⟨"c"⟩] : List NodeId).toFinset : Finset NodeId) : Set NodeId) := by
      intro id hid
      exact List.mem_toFinset.mpr (reachable_sampleCircle hid)
    refine (Set.encard_le_encard hsub).trans ?_
    rw [Set.encard_coe_eq_coe_finsetCard]
    exact Nat.cast_le.mpr (List.toFinset_card_le _)
  obtain ⟨report, left, hrun, hfound, hwhole⟩ := findCycles_complete made tells ⟨"a"⟩ 3 5 .never
  have hreport : (findCycles ⟨"a"⟩ 3 5 .never
      (Operation.after ({} : PropertyGraph) sampleCircle)).1.toOption.map (fun found =>
        (found.1.cycles, found.1.steps)) =
          some ([[⟨"a"⟩, ⟨"b"⟩, ⟨"c"⟩], [⟨"a"⟩, ⟨"c"⟩]], 5) := by
    rw [findCycles_eq tells, sampleCircle, PropertyGraph.after_upsert]
    cbv
  rw [hrun] at hreport
  obtain ⟨hcycles, hsteps⟩ := Prod.mk.inj (Option.some.inj hreport)
  have hfull := hwhole hreach rfl (.inl hsteps.le)
  exact ⟨made, tells, hreach, report, left, hrun, hsteps.le, hfull, hcycles, (hfound hfull).1⟩

end Query

end CodeAtlas
