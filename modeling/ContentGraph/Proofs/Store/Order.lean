import ContentGraph.Store.Database
import Mathlib.Data.List.Forall2
import Mathlib.Data.List.Pairwise

/-!
# Two records of one history

Two lists that were written side by side, one ordered by a running count and one by the time of
the clock and then a revision of its own, are *aligned* (`Aligned`). Sorted with the newest first,
each is its own reverse, so aligned lists stay aligned entry by entry (`Aligned.newest`).
-/

namespace ContentGraph.Store

/-! ## Sorting what was written in order -/

/-- A list of which every entry comes strictly behind the later ones is sorted by turning it
around. -/
theorem mergeSort_eq_reverse {α : Type} {le : α → α → Bool} {l : List α}
    (trans : ∀ a b c, le a b = true → le b c = true → le a c = true)
    (total : ∀ a b, (le a b || le b a) = true) (h : l.Pairwise fun a b => le a b = false) :
    l.mergeSort le = l.reverse := by
  have hrev : l.reverse.Pairwise fun a b => le a b = true := by
    refine List.pairwise_reverse.2 (h.imp fun {a b} hab => ?_)
    have := total a b
    rw [hab, Bool.false_or] at this
    exact this
  -- no two entries stand at one place of the order
  have hanti : ∀ a ∈ l, ∀ b ∈ l, le a b = true → le b a = true → a = b := by
    refine List.Pairwise.forall_of_forall_of_flip (fun a _ _ _ => rfl)
      (h.imp fun hab hle _ => ?_) (h.imp fun hab _ hle => ?_)
    · rw [hab] at hle
      exact absurd hle Bool.false_ne_true
    · rw [hab] at hle
      exact absurd hle Bool.false_ne_true
  refine List.Perm.eq_of_pairwise (fun a b ha hb => ?_) (List.pairwise_mergeSort trans total l)
    hrev ((List.mergeSort_perm l le).trans (List.reverse_perm l).symm)
  exact hanti a (List.mem_mergeSort.1 ha) b (List.mem_reverse.1 hb)

/-- What stands no later in the order of rows was updated later or, at one time, has no lower
revision. -/
theorem noOlder_iff (a b : Int × Nat) :
    noOlder a b = true ↔ b.1 < a.1 ∨ b.1 = a.1 ∧ b.2 ≤ a.2 := by
  simp [noOlder]

/-- The order of rows, newest first, is transitive and total. -/
theorem noOlder_trans (a b c : Int × Nat) (hab : noOlder a b = true)
    (hbc : noOlder b c = true) : noOlder a c = true := by
  rw [noOlder_iff] at *
  omega

theorem noOlder_total (a b : Int × Nat) : (noOlder a b || noOlder b a) = true := by
  rw [Bool.or_eq_true, noOlder_iff, noOlder_iff]
  omega

/-- A row of an earlier revision, written no later, is not as new. -/
theorem noOlder_eq_false {a b : Int × Nat} (ht : a.1 ≤ b.1) (hr : a.2 < b.2) :
    noOlder a b = false := by
  rw [Bool.eq_false_iff, Ne, noOlder_iff]
  omega

theorem le_foldl_max (revisions : List Nat) (start : Nat) :
    start ≤ revisions.foldl max start ∧ ∀ r ∈ revisions, r ≤ revisions.foldl max start := by
  induction revisions generalizing start with
  | nil => simp
  | cons x rest ih =>
      obtain ⟨hstart, hrest⟩ := ih (max start x)
      rw [List.foldl_cons]
      refine ⟨by omega, fun r hr => ?_⟩
      rcases List.mem_cons.1 hr with rfl | hr
      · omega
      · exact hrest r hr

/-- The next revision comes after all others. -/
theorem lt_nextRevision {revisions : List Nat} {r : Nat} (h : r ∈ revisions) :
    r < nextRevision revisions := by
  have := (le_foldl_max revisions 0).2 r h
  unfold nextRevision
  omega

/-! ## Aligned lists -/

/-- Two lists written side by side: entries correspond by `R`; the first is in the order of a
running count that has come to `revision`, the second in the order of its own revisions and of a
clock that has not passed `now`. -/
structure Aligned {α β : Type} (count : α → Nat) (key : β → Int × Nat) (R : α → β → Prop)
    (now : Int) (revision : Nat) (xs : List α) (ys : List β) : Prop where
  related : List.Forall₂ R xs ys
  counted : xs.Pairwise fun a b => count a < count b
  count_le : ∀ x ∈ xs, count x ≤ revision
  keyed : ys.Pairwise fun a b => (key a).1 ≤ (key b).1 ∧ (key a).2 < (key b).2
  time_le : ∀ y ∈ ys, (key y).1 ≤ now

namespace Aligned

variable {α β : Type} {count : α → Nat} {key : β → Int × Nat} {R : α → β → Prop}
  {now now' : Int} {revision revision' : Nat} {xs : List α} {ys : List β}

theorem nil : Aligned count key R now revision [] [] where
  related := .nil
  counted := .nil
  count_le := fun _ h => absurd h List.not_mem_nil
  keyed := .nil
  time_le := fun _ h => absurd h List.not_mem_nil

/-- Time passes, and the count goes on. -/
theorem mono (h : Aligned count key R now revision xs ys) (ht : now ≤ now')
    (hr : revision ≤ revision') : Aligned count key R now' revision' xs ys where
  related := h.related
  counted := h.counted
  count_le := fun x hx => Nat.le_trans (h.count_le x hx) hr
  keyed := h.keyed
  time_le := fun y hy => Int.le_trans (h.time_le y hy) ht

theorem length_eq (h : Aligned count key R now revision xs ys) : xs.length = ys.length :=
  h.related.length_eq

/-- Entries that correspond are kept or dropped together. -/
theorem filter {p : α → Bool} {q : β → Bool} (hpq : ∀ x y, R x y → p x = q y)
    (h : Aligned count key R now revision xs ys) :
    Aligned count key R now revision (xs.filter p) (ys.filter q) where
  related := List.rel_filter (fun x y hxy => iff_of_eq (congrArg (· = true) (hpq x y hxy))) h.related
  counted := h.counted.filter p
  count_le := fun x hx => h.count_le x (List.mem_of_mem_filter hx)
  keyed := h.keyed.filter q
  time_le := fun y hy => h.time_le y (List.mem_of_mem_filter hy)

/-- A new entry is written at the end of both lists, under the next count and a higher revision. -/
theorem snoc (h : Aligned count key R now revision xs ys) {x : α} {y : β} (hxy : R x y)
    (hx : count x = revision + 1) (ht : (key y).1 = now')
    (hnow : now ≤ now') (hy : ∀ z ∈ ys, (key z).2 < (key y).2) :
    Aligned count key R now' (revision + 1) (xs ++ [x]) (ys ++ [y]) where
  related := List.rel_append h.related (.cons hxy .nil)
  counted := by
    refine List.pairwise_append.2 ⟨h.counted, List.pairwise_singleton _ _, fun a ha b hb => ?_⟩
    have := h.count_le a ha
    rw [List.mem_singleton.1 hb]
    omega
  count_le := by
    intro a ha
    rcases List.mem_append.1 ha with ha | ha
    · have := h.count_le a ha
      omega
    · rw [List.mem_singleton.1 ha]
      omega
  keyed := by
    refine List.pairwise_append.2 ⟨h.keyed, List.pairwise_singleton _ _, fun a ha b hb => ?_⟩
    have := h.time_le a ha
    rw [List.mem_singleton.1 hb]
    exact ⟨by omega, hy a ha⟩
  time_le := by
    intro a ha
    rcases List.mem_append.1 ha with ha | ha
    · have := h.time_le a ha
      omega
    · rw [List.mem_singleton.1 ha]
      omega

/-- **Newest first.** Sorted by count and by time, aligned lists still correspond. -/
theorem newest (h : Aligned count key R now revision xs ys) :
    List.Forall₂ R (xs.mergeSort fun a b => decide (count b ≤ count a))
      (ys.mergeSort fun a b => noOlder (key a) (key b)) := by
  have hxs : xs.mergeSort (fun a b => decide (count b ≤ count a)) = xs.reverse := by
    refine mergeSort_eq_reverse ?_ ?_ (h.counted.imp fun hab => ?_)
    · intro a b c hab hbc
      rw [decide_eq_true_eq] at *
      omega
    · intro a b
      rw [Bool.or_eq_true, decide_eq_true_eq, decide_eq_true_eq]
      omega
    · rw [decide_eq_false_iff_not]
      omega
  have hys : ys.mergeSort (fun a b => noOlder (key a) (key b)) = ys.reverse :=
    mergeSort_eq_reverse (fun _ _ _ => noOlder_trans _ _ _) (fun _ _ => noOlder_total _ _)
      (h.keyed.imp fun hab => noOlder_eq_false hab.1 hab.2)
  rw [hxs, hys]
  exact List.rel_reverse h.related

/-- A search finds corresponding entries, or none in either list. -/
theorem find? {p : α → Bool} {q : β → Bool} (hpq : ∀ x y, R x y → p x = q y)
    (h : Aligned count key R now revision xs ys) :
    (xs.find? p = none ∧ ys.find? q = none)
      ∨ ∃ x y, xs.find? p = some x ∧ ys.find? q = some y ∧ R x y := by
  obtain ⟨hrel, -, -, -, -⟩ := h
  induction hrel with
  | nil => exact .inl ⟨rfl, rfl⟩
  | @cons x y xs ys hxy hrest ih =>
      cases hp : p x with
      | true =>
          have hq : q y = true := by rw [← hpq x y hxy, hp]
          exact .inr ⟨x, y, by simp [hp], by simp [hq], hxy⟩
      | false =>
          have hq : q y = false := by rw [← hpq x y hxy, hp]
          simpa [hp, hq] using ih

end Aligned

end ContentGraph.Store
