import ContentGraph.Proofs.Store.Replay

/-!
# Fields of the ledger

Which value is found under a key after fields were set one by one: that of the last pair with the
key (`Fields.get?_ofList`), and in a ledger the new value unless the key is reserved
(`LedgerEntry.get?_merge`).
-/

namespace ContentGraph

namespace Fields

theorem sorted_foldl_insert (pairs : List (String × Json)) {fields : Fields}
    (h : fields.Sorted) :
    (pairs.foldl (fun fs p => Fields.insert p.1 p.2 fs) fields).Sorted := by
  induction pairs generalizing fields with
  | nil => exact h
  | cons p pairs ih => exact ih (sorted_insert h)

/-- Fields that are set one by one are sorted. -/
theorem sorted_ofList (pairs : List (String × Json)) : (ofList pairs).Sorted :=
  sorted_foldl_insert pairs List.Pairwise.nil

theorem get?_insert (key : String) (value : Json) (fields : Fields) (key' : String) :
    (fields.insert key value).get? key' = if key' = key then some value else fields.get? key' := by
  by_cases h : key' = key
  · rw [if_pos h, h, get?_insert_self]
  · rw [if_neg h, get?_insert_of_ne _ _ h]

/-- Of fields that are set one by one the last under a key stands. -/
theorem get?_ofList (pairs : List (String × Json)) (key : String) :
    (ofList pairs).get? key = (lastWith (fun p => decide (p.1 = key)) pairs).map (·.2) := by
  have fold : ∀ fields : Fields,
      (pairs.foldl (fun fs p => Fields.insert p.1 p.2 fs) fields).get? key
        = ((lastWith (fun p => decide (p.1 = key)) pairs).map (·.2)).or (fields.get? key) := by
    induction pairs with
    | nil => intro fields; rfl
    | cons p pairs ih =>
        intro fields
        rw [List.foldl_cons, ih, get?_insert, lastWith_cons]
        cases lastWith (fun p => decide (p.1 = key)) pairs with
        | some _ => rfl
        | none =>
            by_cases hk : key = p.1
            · rw [if_pos hk, if_pos (decide_eq_true hk.symm)]
              rfl
            · rw [if_neg hk, if_neg fun h => hk (of_decide_eq_true h).symm]
              rfl
  exact (fold []).trans (Option.or_none)

/-- Under a key that no field has there is nothing. -/
theorem get?_eq_none {key : String} {fields : Fields} (h : ∀ p ∈ fields, p.1 ≠ key) :
    fields.get? key = none := by
  induction fields with
  | nil => rfl
  | cons p fields ih =>
      obtain ⟨hp, hfields⟩ := List.forall_mem_cons.1 h
      exact (if_neg hp).trans (ih hfields)

end Fields

/-- A field of a ledger was there before, or was set and is not reserved. -/
theorem LedgerEntry.mem_merge {old new : Fields} {p : String × Json} (h : p ∈ merge old new) :
    p ∈ old ∨ p ∈ new ∧ p.1 ∉ reserved := by
  unfold merge at h
  induction new generalizing old with
  | nil => exact .inl h
  | cons q new ih =>
      rw [List.foldl_cons] at h
      rcases ih h with h | ⟨hp, hr⟩
      · split at h
        · exact .inl h
        · next hq =>
            rcases Fields.mem_insert h with rfl | h
            · exact .inr ⟨List.mem_cons_self, hq⟩
            · exact .inl h
      · exact .inr ⟨List.mem_cons_of_mem _ hp, hr⟩

/-- **Ledgers.** Setting fields sets those that are not reserved and keeps the others. -/
theorem LedgerEntry.get?_merge (old : Fields) {new : Fields} (h : new.Sorted) (key : String) :
    (merge old new).get? key
      = if key ∈ reserved then old.get? key else (new.get? key).or (old.get? key) := by
  unfold merge
  induction new generalizing old with
  | nil => exact (ite_self _).symm
  | cons p new ih =>
      obtain ⟨hp, hnew⟩ := List.pairwise_cons.1 h
      rw [List.foldl_cons, ih _ hnew]
      obtain ⟨k, v⟩ := p
      by_cases hk : k = key
      · subst hk
        have hnone : Fields.get? k new = none := Fields.get?_eq_none fun q hq heq =>
          String.lt_irrefl k (by simpa only [heq] using hp q hq)
        by_cases hr : k ∈ reserved
        · rw [if_pos hr, if_pos hr, if_pos hr]
        · have hself : Fields.get? k ((k, v) :: new) = some v := if_pos rfl
          rw [if_neg hr, if_neg hr, if_neg hr, hnone, Fields.get?_insert_self, hself]
          rfl
      · have hget : (if k ∈ reserved then old else Fields.insert k v old).get? key = old.get? key := by
          split
          · rfl
          · exact Fields.get?_insert_of_ne v old fun heq => hk heq.symm
        have hhead : Fields.get? key ((k, v) :: new) = Fields.get? key new := if_neg hk
        rw [hget, hhead]

end ContentGraph
