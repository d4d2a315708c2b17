import Mathlib.Data.List.Forall2
import Mathlib.Tactic.Common

/-!
# Runs over a list

A run over a list takes one step for each item and stops at the first that fails. So the whole of it is
known from its steps: it gives all their results if each of them gives one, and if it gives anything, each
of them has.
-/

set_option autoImplicit false

namespace CodeAtlas

variable {α β γ ε : Type}

section Monads

variable {m : Type → Type} [Monad m] [LawfulMonad m]

/-- A run over a list in which every step gives its result gives all the results. -/
theorem mapM_of_forall₂ {f : α → m β} {xs : List α} {ys : List β}
    (h : List.Forall₂ (fun x y => f x = pure y) xs ys) : xs.mapM f = pure ys := by
  induction h with
  | nil => exact List.mapM_nil
  | cons hx _ ih => rw [List.mapM_cons, hx, ih, pure_bind, pure_bind]

/-- A run in which every step gives back its item gives back the list. -/
theorem mapM_eq_self {f : α → m α} {xs : List α} (h : ∀ x ∈ xs, f x = pure x) :
    xs.mapM f = pure xs := mapM_of_forall₂ (List.forall₂_same.mpr h)

/-- A run over items that were made out of others, where every step finds again what its item was made
of. -/
theorem mapM_map_eq_self {make : α → β} {f : β → m α} {xs : List α}
    (h : ∀ x ∈ xs, f (make x) = pure x) : (xs.map make).mapM f = pure xs :=
  mapM_of_forall₂ (List.forall₂_map_left_iff.mpr (List.forall₂_same.mpr h))

theorem mapM_congr {f g : α → m β} {xs : List α} (h : ∀ x ∈ xs, f x = g x) :
    xs.mapM f = xs.mapM g := by
  induction xs with
  | nil => rw [List.mapM_nil, List.mapM_nil]
  | cons x xs ih =>
    rw [List.mapM_cons, List.mapM_cons, h x List.mem_cons_self,
      ih fun y hy => h y (List.mem_cons_of_mem x hy)]

end Monads

/-- Two runs over a list, one after the other, are one run. -/
theorem mapM_bind_mapM (f : α → Option β) (g : β → Option γ) (xs : List α) :
    (xs.mapM f).bind (·.mapM g) = xs.mapM fun x => (f x).bind g := by
  induction xs with
  | nil => rfl
  | cons x xs ih =>
    rw [List.mapM_cons, List.mapM_cons, ← ih]
    cases hx : f x with
    | none => rfl
    | some y =>
      cases hxs : xs.mapM f with
      | none => cases hy : g y <;> simp [hy]
      | some ys => simp

/-- A run that gives something has done so at every step. -/
theorem isSome_of_mapM {f : α → Option β} {xs : List α} (h : (xs.mapM f).isSome) {x : α}
    (hx : x ∈ xs) : (f x).isSome := by
  induction xs with
  | nil => cases hx
  | cons first rest ih =>
    rw [List.mapM_cons] at h
    obtain ⟨ys, hys⟩ := Option.isSome_iff_exists.mp h
    obtain ⟨y, hfirst, hys⟩ := Option.bind_eq_some_iff.mp hys
    obtain ⟨others, hrest, -⟩ := Option.bind_eq_some_iff.mp hys
    rcases List.mem_cons.mp hx with rfl | hx
    · rw [hfirst]
      rfl
    · exact ih (by rw [hrest]; rfl) hx

theorem Except.of_map_ok {f : α → β} {x : Except ε α} {b : β} (h : x.map f = .ok b) :
    ∃ a, x = .ok a ∧ f a = b := by
  cases x with
  | error e => cases h
  | ok a => exact ⟨a, rfl, Except.ok.inj h⟩

theorem Except.of_bind_ok {x : Except ε α} {f : α → Except ε β} {b : β} (h : x >>= f = .ok b) :
    ∃ a, x = .ok a ∧ f a = .ok b := by
  cases x with
  | error e => cases h
  | ok a => exact ⟨a, rfl, h⟩

/-- A run that ends well has gone well at every step. -/
theorem ok_of_mapM {f : α → Except ε β} {xs : List α} {ys : List β} (h : xs.mapM f = .ok ys)
    {x : α} (hx : x ∈ xs) : ∃ y, f x = .ok y := by
  induction xs generalizing ys with
  | nil => cases hx
  | cons first rest ih =>
    rw [List.mapM_cons] at h
    obtain ⟨y, hfirst, h⟩ := Except.of_bind_ok h
    obtain ⟨others, hrest, -⟩ := Except.of_bind_ok h
    rcases List.mem_cons.mp hx with rfl | hx
    · exact ⟨y, hfirst⟩
    · exact ih hrest hx

end CodeAtlas
