import CodeAtlas.Store.Backend

/-!
# Runs of a session

A session is opened step by step: what follows a step runs on what the step has left, or not at all.
-/

set_option autoImplicit false

namespace CodeAtlas.Session

variable {σ α β : Type}

theorem pure_run (a : α) (s : σ) : (pure a : Session σ α) s = (.ok a, s) := rfl

theorem bind_ok {x : Session σ α} {f : α → Session σ β} {s s' : σ} {a : α} (h : x s = (.ok a, s')) :
    (x >>= f) s = f a s' := by
  show (ExceptT.bind x f) s = _
  simp only [ExceptT.bind, ExceptT.mk, bind, StateT.bind, h]
  rfl

theorem bind_error {x : Session σ α} {f : α → Session σ β} {s s' : σ} {e : GraphError}
    (h : x s = (.error e, s')) : (x >>= f) s = (.error e, s') := by
  show (ExceptT.bind x f) s = _
  simp only [ExceptT.bind, ExceptT.mk, bind, StateT.bind, h]
  rfl

/-- Steps that end well in a row have each ended well. -/
theorem of_bind_ok {x : Session σ α} {f : α → Session σ β} {s t : σ} {b : β}
    (h : (x >>= f) s = (.ok b, t)) : ∃ a s', x s = (.ok a, s') ∧ f a s' = (.ok b, t) := by
  rcases hx : x s with ⟨e | a, s'⟩
  · rw [bind_error hx] at h
    cases h
  · exact ⟨a, s', rfl, (bind_ok hx).symm.trans h⟩

theorem run_map (f : α → β) (run : Session σ α) (s : σ) :
    (f <$> run) s = ((run s).1.map f, (run s).2) := by
  simp only [Functor.map, ExceptT.map, ExceptT.mk, bind, StateT.bind]
  rcases run s with ⟨e | a, s'⟩ <;> rfl

/-- A list is gone through item by item where each step answers and leaves the state as it was. -/
theorem mapM_run {step : α → Session σ β} {f : α → β} {s : σ} {items : List α}
    (h : ∀ x ∈ items, step x s = (.ok (f x), s)) : items.mapM step s = (.ok (items.map f), s) := by
  induction items with
  | nil => rfl
  | cons x rest ih =>
    rw [List.mapM_cons, bind_ok (h x List.mem_cons_self),
      bind_ok (ih fun y hy => h y (List.mem_cons_of_mem x hy))]
    rfl

theorem run_change_ok {step : σ → Except GraphError σ} {s s' : σ} (h : step s = .ok s') :
    change step s = (.ok (), s') := by
  simp [change, h]

theorem run_change_error {step : σ → Except GraphError σ} {s : σ} {e : GraphError}
    (h : step s = .error e) : change step s = (.error e, s) := by
  simp [change, h]

end CodeAtlas.Session
