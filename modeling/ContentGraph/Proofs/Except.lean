import Mathlib.Data.List.Forall2

/-!
# Sequences of steps that may fail

What a sequence yields comes of what its steps yield, and a list is gone through when each of its
entries is.
-/

namespace ContentGraph.Except

open List (Forall₂)

variable {α β ε : Type}

/-- What a sequence yields comes of what its first part yields. -/
theorem exists_of_bind {x : Except ε α} {f : α → Except ε β} {b : β} (h : x >>= f = .ok b) :
    ∃ a, x = .ok a ∧ f a = .ok b := by
  cases x with
  | error e => exact nomatch h
  | ok a => exact ⟨a, rfl, h⟩

/-- What a function makes of each entry it makes of the list. -/
theorem mapM_of_forall₂ {f : α → Except ε β} {xs : List α} {ys : List β}
    (h : Forall₂ (fun x y => f x = .ok y) xs ys) : xs.mapM f = .ok ys := by
  induction h with
  | nil => rfl
  | cons hxy _ ih =>
      rw [List.mapM_cons, hxy, ih]
      rfl

/-- A function that makes something of each entry makes a list of them. -/
theorem exists_mapM {f : α → Except ε β} {P : α → β → Prop} {xs : List α}
    (h : ∀ x ∈ xs, ∃ y, f x = .ok y ∧ P x y) : ∃ ys, xs.mapM f = .ok ys ∧ Forall₂ P xs ys := by
  induction xs with
  | nil => exact ⟨[], rfl, .nil⟩
  | cons x xs ih =>
      obtain ⟨y, hy, hxy⟩ := h x List.mem_cons_self
      obtain ⟨ys, hys, hall⟩ := ih fun x' hx' => h x' (List.mem_cons_of_mem _ hx')
      refine ⟨y :: ys, ?_, .cons hxy hall⟩
      rw [List.mapM_cons, hy, hys]
      rfl

/-- A function that makes a list of each entry makes the list of all that is in one of them. -/
theorem exists_mapM_flatten {f : α → Except ε (List β)} {Q : α → β → Prop} {xs : List α}
    (h : ∀ x ∈ xs, ∃ ys, f x = .ok ys ∧ ∀ y, y ∈ ys ↔ Q x y) :
    ∃ all, (do let lists ← xs.mapM f; return lists.flatten) = .ok all
      ∧ ∀ y, y ∈ all ↔ ∃ x ∈ xs, Q x y := by
  obtain ⟨lists, hlists, hall⟩ := exists_mapM h
  refine ⟨lists.flatten, by rw [hlists]; rfl, fun y => ?_⟩
  clear h hlists
  induction hall with
  | nil => simp
  | cons hys _ ih => rw [List.flatten_cons, List.mem_append, hys, ih, List.exists_mem_cons_iff]

end ContentGraph.Except
