import ContentGraph.Proofs.Json.DoubleText
import ContentGraph.Proofs.Json.RereadFields

/-!
# How deep values are nested

A value is *proper* when its integers are words, its doubles are finite and its objects are in order;
every value a program can hold is. The text of a proper value is read exactly when it is nested no
deeper than there is room for, and what is read is proper and fits the same room
(`Json.Proper.reread_cases`). So nesting is the only thing that reading can fail at.
-/

namespace ContentGraph

/-- The numbers there are: integers of a machine word and finite doubles. -/
def Number.Proper : Number → Prop
  | .integer n => Json.InWord n
  | .double bits => Binary64.isFinite bits = true

namespace Json

/-- A value a program can hold. -/
inductive Proper : Json → Prop
  | null : Proper .null
  | bool (b : Bool) : Proper (.bool b)
  | number {n : Number} (h : n.Proper) : Proper (.number n)
  | string (s : String) : Proper (.string s)
  | array {items : List Json} (h : ∀ v ∈ items, Proper v) : Proper (.array items)
  | object {fields : List (String × Json)} (hs : Fields.Sorted fields)
      (h : ∀ p ∈ fields, Proper p.2) : Proper (.object fields)

mutual

/-- How many lists and objects stand inside each other. -/
def depth : Json → Nat
  | .array items => itemsDepth items + 1
  | .object fields => fieldsDepth fields + 1
  | .null | .bool _ | .number _ | .string _ => 0

/-- The depth of the deepest item. -/
def itemsDepth : List Json → Nat
  | [] => 0
  | v :: rest => max v.depth (itemsDepth rest)

/-- The depth of the deepest value of a field. -/
def fieldsDepth : List (String × Json) → Nat
  | [] => 0
  | (_, v) :: rest => max v.depth (fieldsDepth rest)

end

theorem itemsDepth_le_iff {items : List Json} {d : Nat} :
    itemsDepth items ≤ d ↔ ∀ v ∈ items, v.depth ≤ d := by
  induction items with
  | nil => simp [itemsDepth]
  | cons v items ih => simp [itemsDepth, ih]

theorem fieldsDepth_le_iff {fields : Fields} {d : Nat} :
    fieldsDepth fields ≤ d ↔ ∀ p ∈ fields, p.2.depth ≤ d := by
  induction fields with
  | nil => simp [fieldsDepth]
  | cons p fields ih => simp [fieldsDepth, ih]

/-! ## Lists -/

section Items

variable {α β : Type} {f : α → Option β} {xs : List α} {ys : List β}

theorem mapM_eq_none {x : α} (hx : x ∈ xs) (h : f x = none) : xs.mapM f = none := by
  induction xs with
  | nil => exact absurd hx List.not_mem_nil
  | cons y xs ih =>
      rw [List.mapM_cons]
      rcases List.mem_cons.1 hx with rfl | hx
      · rw [h]
        rfl
      · rw [ih hx]
        cases f y <;> rfl

theorem exists_mapM (h : ∀ x ∈ xs, (f x).isSome = true) : ∃ ys, xs.mapM f = some ys := by
  induction xs with
  | nil => exact ⟨[], rfl⟩
  | cons x xs ih =>
      obtain ⟨hx, hxs⟩ := List.forall_mem_cons.1 h
      obtain ⟨y, hy⟩ := Option.isSome_iff_exists.1 hx
      obtain ⟨ys, hys⟩ := ih hxs
      exact ⟨y :: ys, by rw [List.mapM_cons, hy, hys]; rfl⟩

theorem mem_of_mapM (h : xs.mapM f = some ys) {y : β} (hy : y ∈ ys) : ∃ x ∈ xs, f x = some y := by
  induction xs generalizing ys with
  | nil =>
      obtain rfl := Option.some.inj h
      exact absurd hy List.not_mem_nil
  | cons x xs ih =>
      rw [List.mapM_cons] at h
      obtain ⟨y', hy', h⟩ := Option.bind_eq_some_iff.1 h
      obtain ⟨ys', hys', h⟩ := Option.bind_eq_some_iff.1 h
      obtain rfl := Option.some.inj h
      rcases List.mem_cons.1 hy with rfl | hy
      · exact ⟨x, List.mem_cons_self, hy'⟩
      · obtain ⟨x', hx', heq⟩ := ih hys' hy
        exact ⟨x', List.mem_cons_of_mem _ hx', heq⟩

end Items

/-! ## Rereading -/

/-- A number that is proper is reread as one. -/
theorem exists_rereadNumber {n : Number} (h : n.Proper) :
    ∃ m, rereadNumber n = some m ∧ m.Proper := by
  cases n with
  | integer n => exact ⟨_, rereadNumber_integer h, h⟩
  | double bits =>
      obtain ⟨bits', hread, hfinite⟩ := rereadNumber_double h
      exact ⟨_, hread, hfinite⟩

/-- What rereading a value comes to with some room: either the value fits, and so does what is
read, or it is nested too deep. -/
inductive Rereading (room : Nat) (v : Json) : Option Json → Prop
  | fits {w : Json} (hv : v.depth ≤ room) (hw : w.Proper) (hd : w.depth ≤ room) :
      Rereading room v (some w)
  | deep (hv : room < v.depth) : Rereading room v none

theorem Rereading.isSome_iff {room : Nat} {v : Json} {o : Option Json} (h : Rereading room v o) :
    o.isSome = true ↔ v.depth ≤ room := by
  cases h with
  | fits hv => exact iff_of_true rfl hv
  | deep hv => exact iff_of_false Bool.false_ne_true (Nat.not_le.2 hv)

theorem Rereading.proper {room : Nat} {v w : Json} (h : Rereading room v (some w)) :
    w.Proper ∧ w.depth ≤ room := by
  cases h with
  | fits _ hw hd => exact ⟨hw, hd⟩

theorem mapM_of_rereading {items : List Json} {room : Nat}
    (h : ∀ v ∈ items, Rereading room v (reread room v)) :
    (itemsDepth items ≤ room ∧ ∃ ws, items.mapM (reread room) = some ws
        ∧ (∀ w ∈ ws, w.Proper) ∧ itemsDepth ws ≤ room)
      ∨ (room < itemsDepth items ∧ items.mapM (reread room) = none) := by
  by_cases hd : itemsDepth items ≤ room
  · have hread : ∀ v ∈ items, (reread room v).isSome = true := fun v hv =>
      (h v hv).isSome_iff.2 (itemsDepth_le_iff.1 hd v hv)
    obtain ⟨ws, hws⟩ := exists_mapM hread
    have hproper : ∀ w ∈ ws, w.Proper ∧ w.depth ≤ room := by
      intro w hw
      obtain ⟨v, hv, hvw⟩ := mem_of_mapM hws hw
      exact (hvw ▸ h v hv).proper
    exact .inl ⟨hd, ws, hws, fun w hw => (hproper w hw).1,
      itemsDepth_le_iff.2 fun w hw => (hproper w hw).2⟩
  · refine .inr ⟨Nat.not_le.1 hd, ?_⟩
    obtain ⟨v, hv, hlt⟩ : ∃ v ∈ items, room < v.depth := by
      simpa [itemsDepth_le_iff] using hd
    refine mapM_eq_none hv (Option.not_isSome_iff_eq_none.1 ?_)
    rw [(h v hv).isSome_iff]
    exact Nat.not_le.2 hlt

theorem rereadFields_of_rereading {fields : Fields} {room : Nat}
    (h : ∀ p ∈ fields, Rereading room p.2 (reread room p.2)) :
    (fieldsDepth fields ≤ room ∧ ∃ fields', rereadFields (reread room) fields = some fields'
        ∧ (∀ p ∈ fields', p.2.Proper) ∧ fieldsDepth fields' ≤ room)
      ∨ (room < fieldsDepth fields ∧ rereadFields (reread room) fields = none) := by
  by_cases hd : fieldsDepth fields ≤ room
  · have hread : ∀ p ∈ fields, (reread room p.2).isSome := fun p hp =>
      (h p hp).isSome_iff.2 (fieldsDepth_le_iff.1 hd p hp)
    obtain ⟨fields', hfields'⟩ := exists_rereadFields hread
    have hproper : ∀ p ∈ fields', p.2.Proper ∧ p.2.depth ≤ room := by
      intro p hp
      obtain ⟨v, hv, hpv⟩ := mem_of_rereadFields hfields' hp
      exact (hpv ▸ h _ hv).proper
    exact .inl ⟨hd, fields', hfields', fun p hp => (hproper p hp).1,
      fieldsDepth_le_iff.2 fun p hp => (hproper p hp).2⟩
  · refine .inr ⟨Nat.not_le.1 hd, ?_⟩
    cases hread : rereadFields (reread room) fields with
    | none => rfl
    | some fields' =>
        refine absurd (fieldsDepth_le_iff.2 fun p hp => ?_) hd
        exact (h p hp).isSome_iff.1 (isSome_of_rereadFields hread hp)

/-- **Values.** Rereading a proper value fails exactly when it is nested too deep. -/
theorem Proper.reread_cases {v : Json} (h : v.Proper) (room : Nat) :
    Rereading room v (reread room v) := by
  induction h generalizing room with
  | null => cases room <;> exact .fits (Nat.zero_le _) .null (Nat.zero_le _)
  | bool b => cases room <;> exact .fits (Nat.zero_le _) (.bool b) (Nat.zero_le _)
  | string s => cases room <;> exact .fits (Nat.zero_le _) (.string s) (Nat.zero_le _)
  | @number n h =>
      obtain ⟨m, hm, hproper⟩ := exists_rereadNumber h
      have hread : reread room (.number n) = (rereadNumber n).map .number := by cases room <;> rfl
      rw [hread, hm]
      exact .fits (Nat.zero_le _) (.number hproper) (Nat.zero_le _)
  | @array items _ ih =>
      cases room with
      | zero => exact .deep (Nat.succ_pos _)
      | succ room =>
          show Rereading (room + 1) (.array items) ((items.mapM (reread room)).map .array)
          obtain ⟨hd, ws, hread, hproper, hd'⟩ | ⟨hd, hread⟩ :=
            mapM_of_rereading fun v hv => ih v hv room
          · rw [hread]
            exact .fits (Nat.succ_le_succ hd) (.array hproper) (Nat.succ_le_succ hd')
          · rw [hread]
            exact .deep (Nat.succ_lt_succ hd)
  | @object fields hs _ ih =>
      cases room with
      | zero => exact .deep (Nat.succ_pos _)
      | succ room =>
          show Rereading (room + 1) (.object fields)
            ((rereadFields (reread room) fields).map fun fs => .object (Fields.ofList fs))
          obtain ⟨hd, fields', hread, hproper, hd'⟩ | ⟨hd, hread⟩ :=
            rereadFields_of_rereading fun p hp => ih p hp room
          · have hs' := sorted_rereadFields hread hs
            rw [hread, Option.map_some, Fields.ofList_of_sorted hs']
            exact .fits (Nat.succ_le_succ hd) (.object hs' hproper) (Nat.succ_le_succ hd')
          · rw [hread]
            exact .deep (Nat.succ_lt_succ hd)

end Json

end ContentGraph
