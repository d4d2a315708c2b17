import CodeAtlas.Retry
import Mathlib.Logic.Function.Iterate
import Mathlib.Order.Nat

/-!
# How often a call is made

What a call would answer if it were made over and over is a sequence of outcomes, and a run under a
policy is read off it. The run ends with the first final outcome, or with the last attempt where the
attempts do not reach that far (`run_eq_iff_makes`). A success is final, and of the failures all
but one kind: only an unavailable backend is asked again.

The last call is found for any call on any state (`retryCall_eq`). A pause between two attempts can be
counted to the second one, whose state it changes, so pauses have no place of their own here.
-/

set_option autoImplicit false

namespace CodeAtlas

/-! ## Failures worth another attempt -/

namespace GraphError

theorem isRetryable_iff {e : GraphError} : e.isRetryable = true ↔ ∃ message, e = .unavailable message := by
  cases e <;> simp [isRetryable]

theorem isRetryable_ofStorage (error : StorageError) : (ofStorage error).isRetryable = true := rfl

end GraphError

/-- An outcome that no further attempt would mend: a success or a failure that is not retryable. -/
def IsFinal {α : Type} : Except GraphError α → Prop
  | .ok _ => True
  | .error e => e.isRetryable = false

namespace Session

variable {σ α : Type}

/-- The state that a call leaves when it has been made a number of times, whatever it answered. -/
def repeated (call : Session σ α) (times : Nat) (s : σ) : σ := (fun s => (call s).2)^[times] s

/-- What a call answers after it has been made a number of times before. -/
def outcome (call : Session σ α) (s : σ) (earlier : Nat) : Except GraphError α :=
  (call (call.repeated earlier s)).1

/-- The call that gives the outcomes of a sequence one after the other, the first at place one, and counts
how often it is made. -/
def scripted (outcomes : Nat → Except GraphError α) : Session Nat α := fun made =>
  (outcomes (made + 1), made + 1)

theorem repeated_scripted (outcomes : Nat → Except GraphError α) (times : Nat) :
    (scripted outcomes).repeated times 0 = times := by
  induction times with
  | zero => rfl
  | succ times ih =>
    rw [repeated, Function.iterate_succ_apply', ← repeated, ih]
    rfl

theorem outcome_scripted (outcomes : Nat → Except GraphError α) (earlier : Nat) :
    (scripted outcomes).outcome 0 earlier = outcomes (earlier + 1) := by
  rw [outcome, repeated_scripted]
  rfl

end Session

/-! ## Attempt by attempt -/

section Attempts

variable {σ α : Type} {call : Session σ α} {s : σ}

/-- One attempt of several. -/
theorem retryCall_succ (call : Session σ α) (further : Nat) (s : σ) :
    retryCall call.run (further + 1) s =
      match call s with
      | (.ok a, s') => (.ok a, s')
      | (.error e, s') =>
        if e.isRetryable then retryCall call.run further s' else (.error e, s') := by
  have hrun : call.run s = call s := rfl
  simp only [retryCall, bind, StateT.bind]
  rw [hrun]
  rcases call s with ⟨e | a, s'⟩
  · cases he : e.isRetryable <;> simp [he]
    rfl
  · rfl

/-- A final outcome ends the run, however many attempts are left. -/
theorem retryCall_of_isFinal (h : IsFinal (call s).1) (further : Nat) :
    retryCall call.run further s = call s := by
  cases further with
  | zero => rfl
  | succ further =>
    rw [retryCall_succ]
    rcases hcall : call s with ⟨e | a, s'⟩
    · rw [hcall] at h
      have hfinal : e.isRetryable = false := h
      simp [hfinal]
    · rfl

/-- Any other outcome is followed by an attempt on what the call has left. -/
theorem retryCall_of_not_isFinal (h : ¬ IsFinal (call s).1) (further : Nat) :
    retryCall call.run (further + 1) s = retryCall call.run further (call s).2 := by
  rw [retryCall_succ]
  rcases hcall : call s with ⟨e | a, s'⟩
  · rw [hcall] at h
    have hagain : e.isRetryable = true := eq_true_of_ne_false h
    simp [hagain]
  · rw [hcall] at h
    exact absurd trivial h

/-- The last call is the first one that has a final outcome or no further attempt behind it. -/
theorem retryCall_eq {further earlier : Nat}
    (h : IsLeast {k | IsFinal (call.outcome s k) ∨ k = further} earlier) :
    retryCall call.run further s = call (call.repeated earlier s) := by
  induction further generalizing s earlier with
  | zero =>
    have hzero : earlier = 0 := Nat.le_zero.mp (h.2 (Or.inr rfl))
    rw [hzero]
    rfl
  | succ further ih =>
    cases earlier with
    | zero =>
      have hfinal : IsFinal (call s).1 := h.1.resolve_right (Nat.succ_ne_zero further).symm
      exact retryCall_of_isFinal hfinal (further + 1)
    | succ earlier =>
      have hagain : ¬ IsFinal (call s).1 := by
        intro hfinal
        have hle : earlier + 1 ≤ 0 := h.2 (Or.inl hfinal)
        exact absurd hle (Nat.not_succ_le_zero earlier)
      rw [retryCall_of_not_isFinal hagain]
      -- What the first call leaves has the same outcomes, each one place earlier.
      apply ih
      refine ⟨?_, ?_⟩
      · exact h.1.imp id Nat.succ.inj
      · intro k hk
        have hnext : earlier + 1 ≤ k + 1 := h.2 (hk.imp id (congrArg Nat.succ))
        exact Nat.le_of_succ_le_succ hnext

end Attempts

/-! ## Runs under a policy -/

namespace RetryPolicy

variable {σ α : Type}

theorem session_ok (policy : RetryPolicy) {call : Session σ α} {s s' : σ} {a : α}
    (h : call s = (.ok a, s')) : policy.session call s = (.ok a, s') := by
  have hfinal : IsFinal (call s).1 := by
    rw [h]
    trivial
  exact (retryCall_of_isFinal hfinal _).trans h

/-- A failure that no further attempt would mend is final. -/
theorem session_error (policy : RetryPolicy) {call : Session σ α} {s s' : σ} {e : GraphError}
    (h : call s = (.error e, s')) (final : e.isRetryable = false) :
    policy.session call s = (.error e, s') := by
  have hfinal : IsFinal (call s).1 := by
    rw [h]
    exact final
  exact (retryCall_of_isFinal hfinal _).trans h

/-- The number of times a call is made at most. -/
def attempts (policy : RetryPolicy) : Nat := policy.maxAttempts - 1 + 1

/-- The number of calls that a policy makes on a sequence of outcomes, counted from one: the place of the
first final outcome if the attempts reach it, and the number of attempts otherwise. There is always one
attempt. -/
def Makes (policy : RetryPolicy) (outcomes : Nat → Except GraphError α) (calls : Nat) : Prop :=
  (IsLeast {k | 1 ≤ k ∧ IsFinal (outcomes k)} calls ∧ calls ≤ max 1 policy.maxAttempts) ∨
    (calls = max 1 policy.maxAttempts ∧
      ∀ k, IsLeast {k | 1 ≤ k ∧ IsFinal (outcomes k)} k → max 1 policy.maxAttempts < k)

variable {policy : RetryPolicy} {outcomes : Nat → Except GraphError α}

theorem attempts_eq_max (policy : RetryPolicy) : policy.attempts = max 1 policy.maxAttempts := by
  unfold attempts
  omega

theorem Makes.one_le {calls : Nat} (h : policy.Makes outcomes calls) : 1 ≤ calls := by
  rcases h with ⟨least, -⟩ | ⟨rfl, -⟩
  · exact least.1.1
  · exact le_max_left 1 policy.maxAttempts

/-- Both ways to end are one: the last call is the first that is final or has no attempt behind it. -/
theorem makes_succ_iff {earlier : Nat} : policy.Makes outcomes (earlier + 1) ↔
    IsLeast {k | IsFinal (outcomes (k + 1)) ∨ k = policy.maxAttempts - 1} earlier := by
  classical
  rw [Makes, ← policy.attempts_eq_max, attempts]
  constructor
  · intro h
    rcases h with ⟨⟨⟨-, hfinal⟩, hfirst⟩, hle⟩ | ⟨hlast, hlate⟩
    · refine ⟨Or.inl hfinal, ?_⟩
      intro k hk
      rcases hk with hk | rfl
      · have hplace : earlier + 1 ≤ k + 1 := hfirst ⟨Nat.le_add_left 1 k, hk⟩
        exact Nat.le_of_succ_le_succ hplace
      · exact Nat.le_of_succ_le_succ hle
    · refine ⟨Or.inr (Nat.succ.inj hlast), ?_⟩
      intro k hk
      rcases hk with hk | rfl
      · -- A final outcome within the attempts would have a first one before it.
        have hex : ∃ k, 1 ≤ k ∧ IsFinal (outcomes k) := ⟨k + 1, Nat.le_add_left 1 k, hk⟩
        have hfirst := hlate _ (Nat.isLeast_find hex)
        have hplace : Nat.find hex ≤ k + 1 := Nat.find_min' hex ⟨Nat.le_add_left 1 k, hk⟩
        omega
      · exact (Nat.succ.inj hlast).le
  · intro h
    have hreach : earlier ≤ policy.maxAttempts - 1 := h.2 (Or.inr rfl)
    have hbefore : ∀ k, 1 ≤ k → IsFinal (outcomes k) → earlier + 1 ≤ k := by
      intro k hk hfinal
      cases k with
      | zero => exact absurd hk (Nat.not_succ_le_zero 0)
      | succ k => exact Nat.succ_le_succ (h.2 (Or.inl hfinal))
    by_cases hfinal : IsFinal (outcomes (earlier + 1))
    · refine Or.inl ⟨⟨⟨Nat.le_add_left 1 earlier, hfinal⟩, ?_⟩, Nat.succ_le_succ hreach⟩
      intro k hk
      exact hbefore k hk.1 hk.2
    · have hlast : earlier = policy.maxAttempts - 1 := h.1.resolve_left hfinal
      refine Or.inr ⟨congrArg Nat.succ hlast, ?_⟩
      intro k hk
      have hle : earlier + 1 ≤ k := hbefore k hk.1.1 hk.1.2
      have hne : earlier + 1 ≠ k := by
        rintro rfl
        exact hfinal hk.1.2
      omega

/-- A run makes as many calls as the policy makes on the outcomes, and answers what the last one gave. -/
theorem Makes.session_scripted {calls : Nat} (h : policy.Makes outcomes calls) :
    policy.session (Session.scripted outcomes) 0 = (outcomes calls, calls) := by
  obtain ⟨earlier, rfl⟩ : ∃ earlier, calls = earlier + 1 := ⟨calls - 1, (Nat.sub_add_cancel h.one_le).symm⟩
  have hlast : IsLeast
      {k | IsFinal ((Session.scripted outcomes).outcome 0 k) ∨ k = policy.maxAttempts - 1} earlier := by
    simp only [Session.outcome_scripted]
    exact makes_succ_iff.mp h
  show retryCall (Session.scripted outcomes).run (policy.maxAttempts - 1) 0 = _
  rw [retryCall_eq hlast, Session.repeated_scripted]
  rfl

/-- On every sequence of outcomes a policy makes some number of calls. -/
theorem exists_makes (policy : RetryPolicy) (outcomes : Nat → Except GraphError α) :
    ∃ calls, policy.Makes outcomes calls := by
  classical
  have hex : ∃ k, IsFinal (outcomes (k + 1)) ∨ k = policy.maxAttempts - 1 :=
    ⟨policy.maxAttempts - 1, Or.inr rfl⟩
  exact ⟨Nat.find hex + 1, makes_succ_iff.mpr (Nat.isLeast_find hex)⟩

/-- A run ends with an outcome after a number of calls exactly if the policy makes that many and the outcome
is the one of the last. The failures after which a call is made again are those of an unavailable backend,
and every failure of the stored rows becomes one of these. -/
theorem run_eq_iff_makes :
    (∀ {α : Type} (policy : RetryPolicy) (outcomes : Nat → Except GraphError α)
      (outcome : Except GraphError α) (calls : Nat),
      policy.session (Session.scripted outcomes) 0 = (outcome, calls) ↔
        policy.Makes outcomes calls ∧ outcome = outcomes calls) ∧
    (∀ e : GraphError, e.isRetryable = true ↔ ∃ message, e = .unavailable message) ∧
    ∀ error : StorageError, (GraphError.ofStorage error).isRetryable = true := by
  refine ⟨?_, fun e => GraphError.isRetryable_iff, GraphError.isRetryable_ofStorage⟩
  intro α policy outcomes outcome calls
  constructor
  · intro hrun
    obtain ⟨made, hmade⟩ := policy.exists_makes outcomes
    rw [hmade.session_scripted] at hrun
    obtain ⟨houtcome, hcalls⟩ := Prod.mk.inj hrun
    rw [← hcalls, ← houtcome]
    exact ⟨hmade, rfl⟩
  · intro h
    rw [h.2]
    exact h.1.session_scripted

-- Without any attempt allowed there is still one.
example : (⟨0⟩ : RetryPolicy).session
    (Session.scripted fun _ => (.error (.unavailable "busy") : Except GraphError Unit)) 0 =
      (.error (.unavailable "busy"), 1) := rfl

end RetryPolicy

end CodeAtlas
