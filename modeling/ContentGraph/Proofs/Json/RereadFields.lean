import ContentGraph.Proofs.Json.Reread

/-!
# Fields that are reread

Each field of an object is reread on its own: what is found under a key depends on what was written
under it alone (`get?_rereadFields`), and a field whose value is read back can be left out before or
after (`erase_rereadFields`). An object that was read has its fields in order (`sorted_of_parse?`).
-/

namespace ContentGraph

namespace Fields

variable {key other : String} {fields fields' : Fields}

/-- The fields but those under a key. -/
def erase (key : String) (fields : Fields) : Fields := fields.filter fun p => decide (p.1 ≠ key)

theorem erase_cons_self (v : Json) (fields : Fields) :
    erase key ((key, v) :: fields) = erase key fields := by
  simp [erase]

theorem erase_cons_of_ne {p : String × Json} (h : p.1 ≠ key) (fields : Fields) :
    erase key (p :: fields) = p :: erase key fields := by
  simp [erase, h]

theorem get?_erase (h : other ≠ key) (fields : Fields) :
    (erase key fields).get? other = fields.get? other := by
  induction fields with
  | nil => rfl
  | cons p fields ih =>
      by_cases hp : p.1 = key
      · obtain ⟨k, v⟩ := p
        obtain rfl : k = key := hp
        rw [erase_cons_self, ih]
        exact (if_neg h.symm).symm
      · rw [erase_cons_of_ne hp]
        simp only [get?, ih]

/-- What is set under the key that is left out does not matter. -/
theorem erase_insert_self (v : Json) (fields : Fields) :
    erase key (fields.insert key v) = erase key fields := by
  induction fields with
  | nil => exact erase_cons_self v []
  | cons p fields ih =>
      obtain ⟨k, w⟩ := p
      unfold insert
      split
      · exact erase_cons_self v _
      · split
        · next heq =>
            subst heq
            rw [erase_cons_self, erase_cons_self]
        · next hne =>
            have hk : k ≠ key := fun heq => hne heq.symm
            rw [erase_cons_of_ne (p := (k, w)) hk, erase_cons_of_ne (p := (k, w)) hk, ih]

/-- Another field goes to its place; one before the key does where the fields are in order. -/
theorem erase_insert (hne : other ≠ key) (v : Json) (hs : other < key → fields.Sorted) :
    erase key (fields.insert other v) = (erase key fields).insert other v := by
  induction fields with
  | nil => exact erase_cons_of_ne (p := (other, v)) hne []
  | cons p fields ih =>
      obtain ⟨k, w⟩ := p
      have hrest (h : other < key) : Sorted fields := (List.pairwise_cons.1 (hs h)).2
      by_cases hk : k = key
      · subst hk
        rw [erase_cons_self]
        by_cases hlt : other < k
        · -- what is behind the key is behind the new field as well
          have hfront : insert other v (erase k fields) = (other, v) :: erase k fields := by
            cases hfields : erase k fields with
            | nil => rfl
            | cons q rest =>
                have hq : q ∈ fields := (List.mem_filter.1 (hfields ▸ List.mem_cons_self)).1
                exact if_pos (String.lt_trans hlt ((List.pairwise_cons.1 (hs hlt)).1 q hq))
          have hnew : insert other v ((k, w) :: fields) = (other, v) :: (k, w) :: fields :=
            if_pos hlt
          rw [hfront, hnew, erase_cons_of_ne (p := (other, v)) hne, erase_cons_self]
        · have hpass : insert other v ((k, w) :: fields) = (k, w) :: insert other v fields := by
            simp only [insert, hlt, hne, if_false]
          rw [hpass, erase_cons_self, ih hrest]
      · rw [erase_cons_of_ne (p := (k, w)) hk]
        unfold insert
        split
        · rw [erase_cons_of_ne (p := (other, v)) hne, erase_cons_of_ne (p := (k, w)) hk]
        · split
          · rw [erase_cons_of_ne (p := (other, v)) hne]
          · rw [erase_cons_of_ne (p := (k, w)) hk, ih hrest]

/-- Fields that are set one by one may be left out before. -/
theorem erase_ofList (key : String) (pairs : List (String × Json)) :
    erase key (ofList pairs) = ofList (erase key pairs) := by
  have fold : ∀ {fields fields' : Fields}, fields.Sorted → erase key fields = fields' →
      erase key (pairs.foldl (fun fs p => insert p.1 p.2 fs) fields)
        = (erase key pairs).foldl (fun fs p => insert p.1 p.2 fs) fields' := by
    induction pairs with
    | nil => intro fields fields' _ h; exact h
    | cons p pairs ih =>
        intro fields fields' hs h
        rw [List.foldl_cons]
        by_cases hp : p.1 = key
        · have hskip : erase key (p :: pairs) = erase key pairs := by
            obtain ⟨k, v⟩ := p
            obtain rfl : k = key := hp
            exact erase_cons_self v pairs
          rw [hskip]
          refine ih (sorted_insert hs) ?_
          rw [hp, erase_insert_self, h]
        · rw [erase_cons_of_ne hp, List.foldl_cons]
          refine ih (sorted_insert hs) ?_
          rw [erase_insert hp p.2 fun _ => hs, h]
  exact fold List.Pairwise.nil rfl

theorem mem_ofList {pairs : List (String × Json)} {p : String × Json} (h : p ∈ ofList pairs) :
    p ∈ pairs := by
  have fold : ∀ {fields : Fields}, p ∈ pairs.foldl (fun fs q => insert q.1 q.2 fs) fields →
      p ∈ fields ∨ p ∈ pairs := by
    clear h
    induction pairs with
    | nil => exact .inl
    | cons q pairs ih =>
        intro fields h
        rcases ih h with h | h
        · rcases mem_insert h with rfl | h
          · exact .inr List.mem_cons_self
          · exact .inl h
        · exact .inr (List.mem_cons_of_mem _ h)
  exact (fold h).resolve_left List.not_mem_nil

/-- A key above all others goes to the end. -/
theorem insert_last {done : Fields} {k : String} (v : Json) (h : ∀ p ∈ done, p.1 < k) :
    insert k v done = done ++ [(k, v)] := by
  induction done with
  | nil => rfl
  | cons p rest ih =>
      obtain ⟨k', v'⟩ := p
      have hlt : k' < k := h (k', v') List.mem_cons_self
      have hnot : ¬ k < k' := fun h' => String.lt_irrefl k (String.lt_trans h' hlt)
      have hne : k ≠ k' := fun e => String.lt_irrefl k (by rw [e] at hlt ⊢; exact hlt)
      simp only [insert, hnot, hne, if_false, List.cons_append]
      rw [ih fun p hp => h p (List.mem_cons_of_mem _ hp)]

/-- Fields in order are those that are set one by one. -/
theorem ofList_of_sorted (h : fields.Sorted) : ofList fields = fields := by
  have fold : ∀ done : Fields, Sorted (done ++ fields) →
      fields.foldl (fun fs p => insert p.1 p.2 fs) done = done ++ fields := by
    induction fields with
    | nil => intro done _; exact (List.append_nil done).symm
    | cons p fields ih =>
        intro done hs
        have hlast : insert p.1 p.2 done = done ++ [p] :=
          insert_last p.2 fun q hq => (List.pairwise_append.1 hs).2.2 q hq p List.mem_cons_self
        rw [List.foldl_cons, hlast, ih (List.pairwise_cons.1 h).2]
        · rw [List.append_assoc]
          rfl
        · rw [List.append_assoc]
          exact hs
  exact fold [] h

end Fields

namespace Json

open Fields

variable {f : Json → Option Json} {fields fields' : Fields}

theorem rereadFields_cons (p : String × Json) (fields : Fields) :
    rereadFields f (p :: fields)
      = (f p.2).bind fun v => (rereadFields f fields).map ((p.1, v) :: ·) := by
  unfold rereadFields
  rw [List.mapM_cons]
  cases f p.2 with
  | none => rfl
  | some v => cases fields.mapM (fun p => (f p.2).map (p.1, ·)) <;> rfl

/-- Rereading keeps the keys, so it keeps the order. -/
theorem sorted_rereadFields (h : rereadFields f fields = some fields') (hs : fields.Sorted) :
    fields'.Sorted := by
  have hkeys : fields'.map (·.1) = fields.map (·.1) := by
    induction fields generalizing fields' with
    | nil =>
        obtain rfl := Option.some.inj h
        rfl
    | cons p fields ih =>
        rw [rereadFields_cons] at h
        obtain ⟨v, -, h⟩ := Option.bind_eq_some_iff.1 h
        obtain ⟨rest, hrest, rfl⟩ := Option.map_eq_some_iff.1 h
        rw [List.map_cons, List.map_cons, ih hrest (List.pairwise_cons.1 hs).2]
  have hpairwise : (fields.map (·.1)).Pairwise (· < ·) := List.pairwise_map.2 hs
  rw [← hkeys] at hpairwise
  exact List.pairwise_map.1 hpairwise

/-- Under each key stands what is read of the value that was written under it. -/
theorem get?_rereadFields (h : rereadFields f fields = some fields') (key : String) :
    fields'.get? key = (fields.get? key).bind f := by
  induction fields generalizing fields' with
  | nil =>
      obtain rfl := Option.some.inj h
      rfl
  | cons p fields ih =>
      obtain ⟨k, w⟩ := p
      rw [rereadFields_cons] at h
      obtain ⟨v, hv, h⟩ := Option.bind_eq_some_iff.1 h
      obtain ⟨rest, hrest, rfl⟩ := Option.map_eq_some_iff.1 h
      simp only [get?]
      by_cases hk : k = key
      · rw [if_pos hk, if_pos hk]
        exact hv.symm
      · rw [if_neg hk, if_neg hk]
        exact ih hrest

/-- Where fields are reread, each value is. -/
theorem isSome_of_rereadFields (h : rereadFields f fields = some fields') {p : String × Json}
    (hp : p ∈ fields) : (f p.2).isSome = true := by
  induction fields generalizing fields' with
  | nil => exact absurd hp List.not_mem_nil
  | cons q fields ih =>
      rw [rereadFields_cons] at h
      obtain ⟨v, hv, hrest⟩ := Option.bind_eq_some_iff.1 h
      obtain ⟨rest, hrest, -⟩ := Option.map_eq_some_iff.1 hrest
      obtain rfl | hp := List.mem_cons.1 hp
      · rw [hv]
        rfl
      · exact ih hrest hp

/-- Fields are reread when each value is. -/
theorem rereadFields_eq_self (h : ∀ p ∈ fields, f p.2 = some p.2) :
    rereadFields f fields = some fields := by
  induction fields with
  | nil => rfl
  | cons p fields ih =>
      obtain ⟨hp, hfields⟩ := List.forall_mem_cons.1 h
      rw [rereadFields_cons, hp, ih hfields]
      rfl

theorem exists_rereadFields (h : ∀ p ∈ fields, (f p.2).isSome) :
    ∃ fields', rereadFields f fields = some fields' := by
  induction fields with
  | nil => exact ⟨[], rfl⟩
  | cons p fields ih =>
      obtain ⟨hp, hfields⟩ := List.forall_mem_cons.1 h
      obtain ⟨v, hv⟩ := Option.isSome_iff_exists.1 hp
      obtain ⟨rest, hrest⟩ := ih hfields
      exact ⟨(p.1, v) :: rest, by rw [rereadFields_cons, hv, hrest]; rfl⟩

/-- Where the values under a key are read back, they may be left out before. -/
theorem erase_rereadFields {key : String} (h : ∀ p ∈ fields, p.1 = key → f p.2 = some p.2) :
    (rereadFields f fields).map (erase key) = rereadFields f (erase key fields) := by
  induction fields with
  | nil => rfl
  | cons p fields ih =>
      obtain ⟨hp, hfields⟩ := List.forall_mem_cons.1 h
      rw [rereadFields_cons]
      by_cases hk : p.1 = key
      · rw [hp hk, Option.bind_some, Option.map_map]
        obtain ⟨k, v⟩ := p
        obtain rfl : k = key := hk
        rw [erase_cons_self, ← ih hfields]
        refine congrFun (congrArg Option.map (funext fun rest => ?_)) _
        exact erase_cons_self v rest
      · rw [erase_cons_of_ne hk, rereadFields_cons, ← ih hfields]
        cases f p.2 with
        | none => rfl
        | some v =>
            simp only [Option.bind_some, Option.map_map]
            refine congrFun (congrArg Option.map (funext fun rest => ?_)) _
            exact erase_cons_of_ne (p := (p.1, v)) hk rest

theorem mem_of_rereadFields (h : rereadFields f fields = some fields') {p : String × Json}
    (hp : p ∈ fields') : ∃ v, (p.1, v) ∈ fields ∧ f v = some p.2 := by
  induction fields generalizing fields' with
  | nil =>
      obtain rfl := Option.some.inj h
      exact absurd hp List.not_mem_nil
  | cons q fields ih =>
      rw [rereadFields_cons] at h
      obtain ⟨v, hv, h⟩ := Option.bind_eq_some_iff.1 h
      obtain ⟨rest, hrest, rfl⟩ := Option.map_eq_some_iff.1 h
      rcases List.mem_cons.1 hp with rfl | hp
      · exact ⟨q.2, List.mem_cons_self, hv⟩
      · obtain ⟨w, hw, hread⟩ := ih hrest hp
        exact ⟨w, List.mem_cons_of_mem _ hw, hread⟩

/-! ## Order of what was read -/

theorem sorted_of_readFields {item : Text.Reader Json} {size fuel : Nat} {done : Fields}
    {s rest : List Char} (hdone : done.Sorted)
    (h : readFields item size fuel done s = some (fields, rest)) : fields.Sorted := by
  induction fuel generalizing done s with
  | zero => exact nomatch h
  | succ fuel ih =>
      unfold readFields at h
      split at h
      · exact nomatch h
      · split at h
        · exact nomatch h
        · split at h
          · exact ih (sorted_insert hdone) h
          · obtain ⟨rfl, -⟩ := Prod.mk.inj (Option.some.inj h)
            exact sorted_insert hdone
          · exact nomatch h

/-- A scalar is no object. -/
theorem readScalar_ne_object {fuel : Nat} {s rest : List Char} :
    readScalar fuel s ≠ some (.object fields, rest) := by
  intro h
  unfold readScalar at h
  split at h <;> obtain ⟨_, -, heq⟩ := Option.map_eq_some_iff.1 h <;> cases heq

/-- The fields of an object that was read are in order. -/
theorem sorted_of_readValue {fuel room : Nat} {s rest : List Char}
    (h : readValue fuel room s = some (.object fields, rest)) : fields.Sorted := by
  cases room with
  | zero => exact absurd h readScalar_ne_object
  | succ room =>
      unfold readValue at h
      split at h
      · split at h
        · cases h
        · obtain ⟨_, -, heq⟩ := Option.map_eq_some_iff.1 h
          cases heq
      · split at h
        · obtain ⟨heq, -⟩ := Prod.mk.inj (Option.some.inj h)
          cases heq
          exact List.Pairwise.nil
        · obtain ⟨p, hp, heq⟩ := Option.map_eq_some_iff.1 h
          cases heq
          exact sorted_of_readFields List.Pairwise.nil hp
      · exact absurd h readScalar_ne_object

theorem sorted_of_parse? {s : String} (h : parse? s = some (.object fields)) : fields.Sorted := by
  unfold parse? parseChars? at h
  obtain ⟨⟨v, rest⟩, hread, hrest⟩ := Option.bind_eq_some_iff.1 h
  dsimp only at hrest
  split at hrest
  · obtain rfl := Option.some.inj hrest
    exact sorted_of_readValue hread
  · exact nomatch hrest

/-- The text of fields in order is read as the fields reread. -/
theorem parse?_render_sorted (hs : fields.Sorted) :
    parse? (render (.object fields)) = (rereadFields (reread 126) fields).map .object := by
  rw [parse?_render_object]
  cases h : rereadFields (reread 126) fields with
  | none => rfl
  | some fields' =>
      simp only [Option.map_some, ofList_of_sorted (sorted_rereadFields h hs)]

end Json

end ContentGraph
