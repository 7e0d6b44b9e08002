import ContentGraph.Proofs.Json.RereadFields
import ContentGraph.Proofs.Store.Ledger
import Mathlib.Data.List.Sort

/-!
# Fields under their keys

What is found under a key is a field with that key. What stands under each key of fields that were
given as a list, of which some were kept, or that were filled in. Fields in order have each key once,
so each of them stands under its key (`get?_of_mem`), and what stands under all keys determines them
(`eq_of_get?_eq`).
-/

namespace ContentGraph.Fields

variable {fields fields' : Fields} {pairs : List (String × Json)} {key : String}

/-! ## Fields that are found -/

theorem mem_of_get? {v : Json} (h : fields.get? key = some v) : (key, v) ∈ fields := by
  induction fields with
  | nil => exact nomatch h
  | cons p fields ih =>
      obtain ⟨k, w⟩ := p
      simp only [get?] at h
      split at h
      · next hk =>
          obtain rfl := Option.some.inj h
          exact hk ▸ List.mem_cons_self
      · exact List.mem_cons_of_mem _ (ih h)

theorem not_mem_of_get? (h : fields.get? key = none) {p : String × Json} (hp : p ∈ fields) :
    p.1 ≠ key := by
  induction fields with
  | nil => exact absurd hp List.not_mem_nil
  | cons q fields ih =>
      simp only [get?] at h
      split at h
      · cases h
      · next hne =>
          obtain rfl | hp := List.mem_cons.1 hp
          · exact hne
          · exact ih h hp

theorem not_mem_keys_iff : key ∉ fields.map (·.1) ↔ fields.get? key = none := by
  refine ⟨fun h => get?_eq_none fun p hp hkey => h (hkey ▸ List.mem_map_of_mem hp), fun h hkey => ?_⟩
  obtain ⟨p, hp, rfl⟩ := List.mem_map.1 hkey
  exact not_mem_of_get? h hp rfl

/-! ## Fields that were given -/

/-- Of pairs with different keys each stands. -/
theorem get?_ofList_of_mem (hnodup : (pairs.map (·.1)).Nodup) {p : String × Json}
    (hp : p ∈ pairs) : (ofList pairs).get? p.1 = some p.2 := by
  have hlast : lastWith (fun q => decide (q.1 = p.1)) pairs = some p := by
    unfold lastWith
    have hfilter : pairs.filter (fun q => decide (q.1 = p.1)) = [p] := by
      induction pairs with
      | nil => exact absurd hp List.not_mem_nil
      | cons q pairs ih =>
          rw [List.map_cons, List.nodup_cons] at hnodup
          obtain rfl | hp := List.mem_cons.1 hp
          · have hrest : pairs.filter (fun r => decide (r.1 = p.1)) = [] := by
              apply List.filter_eq_nil_iff.2
              intro r hr heq
              exact hnodup.1 (of_decide_eq_true heq ▸ List.mem_map_of_mem hr)
            simp [hrest]
          · have hne : q.1 ≠ p.1 := by
              intro heq
              exact hnodup.1 (heq ▸ List.mem_map_of_mem hp)
            simp [hne, ih hnodup.2 hp]
    rw [hfilter]
    rfl
  rw [get?_ofList, hlast]
  rfl

theorem get?_ofList_of_not_mem (h : key ∉ pairs.map (·.1)) : (ofList pairs).get? key = none := by
  apply get?_eq_none
  intro p hp heq
  exact h (heq ▸ List.mem_map_of_mem (mem_ofList hp))

/-! ## Fields that are kept or filled in -/

theorem get?_filter (keep : String → Bool) (fields : Fields) (key : String) :
    get? key (fields.filter fun p => keep p.1) = if keep key = true then fields.get? key else none := by
  induction fields with
  | nil => simp [get?]
  | cons p fields ih =>
      obtain ⟨k, v⟩ := p
      rw [List.filter_cons]
      by_cases hk : k = key
      · subst hk
        by_cases hkeep : keep k = true
        · simp [hkeep, get?]
        · simp [hkeep, ih]
      · have hcons (fields : Fields) : get? key ((k, v) :: fields) = fields.get? key := if_neg hk
        split
        · rw [hcons, hcons, ih]
        · rw [hcons, ih]

/-- A key that is filled in keeps its value, if it has one. -/
theorem get?_insertNew (key : String) (v : Json) (fields : Fields) (other : String) :
    (fields.insertNew key v).get? other
      = if other = key then some ((fields.get? key).getD v) else fields.get? other := by
  unfold insertNew
  cases hget : fields.get? key with
  | some w =>
      by_cases heq : other = key
      · rw [if_pos heq, heq]
        exact hget
      · rw [if_neg heq]
  | none => exact get?_insert key v fields other

theorem mem_insert_of_ne {p : String × Json} (hp : p ∈ fields) (hne : p.1 ≠ key) (v : Json) :
    p ∈ fields.insert key v := by
  induction fields with
  | nil => exact absurd hp List.not_mem_nil
  | cons q fields ih =>
      obtain ⟨k, w⟩ := q
      unfold insert
      split
      · exact List.mem_cons_of_mem _ hp
      · split
        · next heq =>
            rcases List.mem_cons.1 hp with rfl | hp
            · exact absurd heq.symm hne
            · exact List.mem_cons_of_mem _ hp
        · rcases List.mem_cons.1 hp with rfl | hp
          · exact List.mem_cons_self
          · exact List.mem_cons_of_mem _ (ih hp)

/-! ## Fields in order -/

/-- No key of fields in order stands twice. -/
theorem nodup_keys (hs : fields.Sorted) : (fields.map (·.1)).Nodup := by
  have hkeys : (fields.map (·.1)).Pairwise (· < ·) := List.pairwise_map.2 hs
  show (fields.map (·.1)).Pairwise (· ≠ ·)
  refine hkeys.imp fun {a b} hlt heq => ?_
  rw [heq] at hlt
  exact String.lt_irrefl b hlt

/-- In fields in order each stands under its key. -/
theorem get?_of_mem (hs : fields.Sorted) {p : String × Json} (hp : p ∈ fields) :
    fields.get? p.1 = some p.2 := by
  rw [← ofList_of_sorted hs]
  exact get?_ofList_of_mem (nodup_keys hs) hp

/-- Fields in order are determined by what stands under each key. -/
theorem eq_of_get?_eq (hs : fields.Sorted) (hs' : fields'.Sorted)
    (h : ∀ key, fields.get? key = fields'.get? key) : fields = fields' := by
  have : Std.Irrefl fun p q : String × Json => p.1 < q.1 := ⟨fun p => String.lt_irrefl p.1⟩
  have : Std.Antisymm fun p q : String × Json => p.1 < q.1 :=
    ⟨fun p q hpq hqp => absurd (String.lt_trans hpq hqp) (String.lt_irrefl p.1)⟩
  refine List.Pairwise.eq_of_mem_iff hs hs' fun p => ⟨fun hp => ?_, fun hp => ?_⟩
  · exact mem_of_get? ((h p.1).symm.trans (get?_of_mem hs hp))
  · exact mem_of_get? ((h p.1).trans (get?_of_mem hs' hp))

end ContentGraph.Fields
