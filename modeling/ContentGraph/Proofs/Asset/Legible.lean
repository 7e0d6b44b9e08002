import ContentGraph.Proofs.Asset.Restoring
import ContentGraph.Proofs.Json.Nesting

/-!
# Metadata that can be read

Metadata is *legible* when the object of its fields is nested no deeper than is read. All that is
filled in on storing are texts, which make it neither more nor less legible. The blob of proper
metadata is read exactly when the metadata is legible (`Metadata.ofBlob?_cases`). What is read then
names the platform and the time of extraction that the metadata names, and those that are filled in
where it has no field for them (`Metadata.Restates`); a field that holds no text is not filled in, and
names nothing before or after.
-/

namespace ContentGraph

/-! ## Fields that are filled in -/

namespace Fields

variable {fields : Fields} {key : String}

/-- A text that is filled in lies no deeper than the other fields. -/
theorem fieldsDepth_insertNew (key s : String) (fields : Fields) {d : Nat} :
    Json.fieldsDepth (fields.insertNew key (.string s)) ≤ d ↔ Json.fieldsDepth fields ≤ d := by
  unfold insertNew
  cases hget : fields.get? key with
  | some v => rfl
  | none =>
      show Json.fieldsDepth (fields.insert key (.string s)) ≤ d ↔ _
      rw [Json.fieldsDepth_le_iff, Json.fieldsDepth_le_iff]
      constructor
      · intro h p hp
        exact h p (mem_insert_of_ne hp (not_mem_of_get? hget hp) _)
      · intro h p hp
        rcases mem_insert hp with rfl | hp
        · exact Nat.zero_le d
        · exact h p hp

end Fields

namespace Json.Proper

variable {fields : Fields}

theorem sorted (h : Json.Proper (.object fields)) : fields.Sorted := by
  cases h with
  | object hs _ => exact hs

theorem values (h : Json.Proper (.object fields)) : ∀ p ∈ fields, p.2.Proper := by
  cases h with
  | object _ hv => exact hv

theorem insertNew (h : Json.Proper (.object fields)) (key s : String) :
    Json.Proper (.object (fields.insertNew key (.string s))) := by
  unfold Fields.insertNew
  split
  · exact h
  · refine .object (Fields.sorted_insert h.sorted) fun p hp => ?_
    rcases Fields.mem_insert hp with rfl | hp
    · exact .string s
    · exact h.values p hp

end Json.Proper

/-- What is read of a value is a text just when the value is, and the same one. -/
theorem Json.string?_of_reread {room : Nat} {v w : Json} (h : reread room v = some w) :
    w.string? = v.string? := by
  cases v with
  | null =>
      obtain rfl : Json.null = w := by cases room <;> exact Option.some.inj h
      rfl
  | bool b =>
      obtain rfl : Json.bool b = w := by cases room <;> exact Option.some.inj h
      rfl
  | string s =>
      obtain rfl : Json.string s = w := by cases room <;> exact Option.some.inj h
      rfl
  | number n =>
      have hread : (rereadNumber n).map Json.number = some w := by cases room <;> exact h
      obtain ⟨m, -, rfl⟩ := Option.map_eq_some_iff.1 hread
      rfl
  | array items =>
      cases room with
      | zero => cases h
      | succ room =>
          obtain ⟨ws, -, rfl⟩ := Option.map_eq_some_iff.1 h
          rfl
  | object fields =>
      cases room with
      | zero => cases h
      | succ room =>
          obtain ⟨read, -, rfl⟩ := Option.map_eq_some_iff.1 h
          rfl

namespace Metadata

variable {m m' : Metadata} {source now : String}

/-! ## What is named -/

theorem platform?_eq (m : Metadata) : m.platform? = textField? "platform" m.fields := by
  cases m with
  | component c => simp [platform?, fields, textField?, c.get?_platform, Json.string?]
  | document d => simp [platform?, fields, textField?, d.get?_platform, Json.string?]
  | untyped fields => rfl

theorem extractedAt?_eq (m : Metadata) : m.extractedAt? = textField? "extractedAt" m.fields := by
  cases m with
  | component c => simp [extractedAt?, fields, textField?, c.get?_extractedAt, Json.string?]
  | document d => simp [extractedAt?, fields, textField?, d.get?_extractedAt, Json.string?]
  | untyped fields => rfl

/-- Metadata names what the fields name that it was read of. -/
theorem textField?_ofFields {fields : Fields} (hs : fields.Sorted) {key : String}
    (hkey : (ofFields fields).keeps key = true) :
    textField? key (ofFields fields).fields = textField? key fields := by
  unfold textField?
  rw [fields_ofFields hs, Fields.get?_filter, if_pos hkey]

/-- Fields name a text after they were reread just when they did before. -/
theorem textField?_reread {fields read : Fields} {room : Nat} (key : String)
    (h : Json.rereadFields (Json.reread room) fields = some read) :
    textField? key read = textField? key fields := by
  unfold textField?
  rw [Json.get?_rereadFields h]
  cases hget : fields.get? key with
  | none => rfl
  | some v =>
      -- the value under the key was reread, as all of them were
      obtain ⟨w, hw⟩ := Option.isSome_iff_exists.1
        (Json.isSome_of_rereadFields h (Fields.mem_of_get? hget))
      simp only [Option.bind_some, hw, Json.string?_of_reread hw]

/-- What metadata names that was read of the blob of `m`: what `m` names, and what is filled in where
`m` has no field for it. -/
structure Restates (m : Metadata) (source now : String) (m' : Metadata) : Prop where
  platform : m'.platform?
    = if (m.fields.get? "platform").isSome then m.platform? else some source
  extractedAt : m'.extractedAt?
    = if (m.fields.get? "extractedAt").isSome then m.extractedAt? else some now

/-- What is stored under a key that is filled in names what was carried, if anything was. -/
theorem bind_string?_getD (o : Option Json) (filling : String) :
    (some (o.getD (.string filling))).bind Json.string?
      = if o.isSome then o.bind Json.string? else some filling := by
  cases o <;> rfl

/-- Metadata that was read of the stored fields restates the metadata. -/
theorem restates_ofFields {read : Fields} (hs : read.Sorted)
    (h : Json.rereadFields (Json.reread 126) (m.storedFields source now) = some read) :
    m.Restates source now (ofFields read) := by
  obtain ⟨hdate, hplatform⟩ := (ofFields read).keeps_filled
  constructor
  · rw [platform?_eq, textField?_ofFields hs hplatform, textField?_reread _ h, platform?_eq]
    unfold textField?
    rw [get?_storedFields_platform]
    exact bind_string?_getD _ _
  · rw [extractedAt?_eq, textField?_ofFields hs hdate, textField?_reread _ h, extractedAt?_eq]
    unfold textField?
    rw [get?_storedFields_extractedAt]
    exact bind_string?_getD _ _

/-! ## Legible metadata -/

/-- Metadata that a program can hold. -/
def Proper (m : Metadata) : Prop := m.toJson.Proper

/-- Metadata whose object is nested no deeper than is read. -/
def Legible (m : Metadata) : Prop := m.toJson.depth ≤ Json.maxNesting

instance (m : Metadata) : Decidable m.Legible := inferInstanceAs (Decidable (_ ≤ _))

theorem legible_iff (source now : String) :
    m.Legible ↔ Json.fieldsDepth (m.storedFields source now) ≤ 126 := by
  unfold storedFields
  rw [Fields.fieldsDepth_insertNew, Fields.fieldsDepth_insertNew]
  exact Nat.succ_le_succ_iff

/-- **Blobs.** The blob of proper metadata is read exactly when the metadata is legible. -/
theorem ofBlob?_cases (h : m.Proper) (source now : String) :
    (m.Legible ∧ ∃ m', ofBlob? (m.toBlob source now) = some m' ∧ m.Restates source now m')
      ∨ (¬m.Legible ∧ ofBlob? (m.toBlob source now) = none) := by
  have hstored : Json.Proper (.object (m.storedFields source now)) :=
    (Json.Proper.insertNew h _ _).insertNew _ _
  rw [legible_iff source now, ofBlob?_toBlob_eq]
  obtain ⟨hd, read, hread, -, -⟩ | ⟨hd, hread⟩ :=
    Json.rereadFields_of_rereading fun p hp => (hstored.values p hp).reread_cases 126
  · have hs := Json.sorted_rereadFields hread hstored.sorted
    rw [hread, Option.map_some, Fields.ofList_of_sorted hs]
    exact .inl ⟨hd, _, rfl, restates_ofFields hs hread⟩
  · rw [hread]
    exact .inr ⟨Nat.not_le.2 hd, rfl⟩

end Metadata

/-- **Assets.** An asset with proper metadata is read back exactly when its metadata is legible, and
with metadata that restates it. -/
theorem Asset.readBack_cases {a : Asset} (h : a.metadata.Proper) (now : Millis) :
    (a.metadata.Legible ∧ ∃ m', a.readBack now = .ok { a with metadata := m' }
        ∧ a.metadata.Restates a.source now.iso m')
      ∨ (¬a.metadata.Legible ∧ a.readBack now = .error .undecodable) := by
  unfold readBack StoredAsset.decode StoredAsset.ofAsset
  obtain ⟨hd, m', hread, hnames⟩ | ⟨hd, hread⟩ := Metadata.ofBlob?_cases h a.source now.iso
  · simp only [hread]
    exact .inl ⟨hd, m', rfl, hnames⟩
  · rw [hread]
    exact .inr ⟨hd, rfl⟩

end ContentGraph
