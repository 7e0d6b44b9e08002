import ContentGraph.Proofs.Asset.Record

/-!
# Metadata stored again

What was read of a blob is stored again. A record that was read holds the fields under its own names
and no others, so they are all that is written again; an open map keeps every field
(`Metadata.fields_ofFields`). Both keep the time of extraction and the platform, so nothing is filled
in a second time. Main statement: the second blob holds the fields of the first that the metadata
which was read keeps, and is the same text just when it keeps all (`Metadata.toBlob_of_ofBlob?`).
-/

namespace ContentGraph

/-- Values that are read back are told apart by their texts. -/
theorem Json.render_inj {v w : Json} (hv : Json.Fits Json.maxNesting v)
    (hw : Json.Fits Json.maxNesting w) : v.render = w.render ↔ v = w := by
  constructor
  · intro h
    have hread := congrArg Json.parse? h
    rw [Json.parse?_render hv, Json.parse?_render hw] at hread
    exact Option.some.inj hread
  · rintro rfl
    rfl

theorem Json.Fits.sorted {room : Nat} {fields : Fields}
    (h : Json.Fits room (.object fields)) : fields.Sorted := by
  cases h with
  | object hs _ => exact hs

theorem Json.Fits.filter {room : Nat} {fields : Fields} (h : Json.Fits (room + 1) (.object fields))
    (keep : String × Json → Bool) : Json.Fits (room + 1) (.object (fields.filter keep)) := by
  cases h with
  | object hs hf =>
      exact .object (List.Pairwise.filter keep hs) fun p hp => hf p (List.mem_filter.1 hp).1

/-! ## Fields that are kept -/

/-- Holds when metadata of this kind has room for a field: an open map for any, a record for those
under its own names. -/
def Metadata.keeps : Metadata → String → Bool
  | .component _, key => ComponentFacts.names.contains key
  | .document _, key => DocumentFacts.names.contains key
  | .untyped _, _ => true

namespace Fields

/-- Fields in order that agree with what is written under some names, and have nothing else kept. -/
theorem ofList_eq_filter {fields : Fields} (hs : fields.Sorted) {names : List String}
    {values : List Json} (hnames : names.Nodup) (hlen : names.length = values.length)
    (h : ∀ p ∈ names.zip values, fields.get? p.1 = some p.2) :
    ofList (names.zip values) = fields.filter fun p => names.contains p.1 := by
  have hkeys : (names.zip values).map (·.1) = names := List.map_fst_zip (Nat.le_of_eq hlen)
  apply eq_of_get?_eq (sorted_ofList _) (List.Pairwise.filter _ hs)
  intro key
  rw [get?_filter]
  by_cases hk : key ∈ names
  · rw [← hkeys] at hk
    obtain ⟨p, hp, rfl⟩ := List.mem_map.1 hk
    rw [get?_ofList_of_mem (hkeys.symm ▸ hnames) hp, h p hp, if_pos]
    simpa [hkeys] using hk
  · rw [get?_ofList_of_not_mem (hkeys.symm ▸ hk), if_neg]
    simpa using hk

end Fields

namespace Metadata

variable {m : Metadata} {fields : Fields} {source now : String}

/-- Metadata holds those of the fields it was read of that it keeps. -/
theorem fields_ofFields (hs : fields.Sorted) :
    (ofFields fields).fields = fields.filter fun p => (ofFields fields).keeps p.1 := by
  have huntyped : fields = fields.filter fun _ => true := (List.filter_eq_self.2 fun _ _ => rfl).symm
  unfold ofFields
  dsimp only
  split
  · cases hread : ComponentFacts.ofFields? fields with
    | none => exact huntyped
    | some c =>
        exact @Fields.ofList_eq_filter _ hs ComponentFacts.names c.values (by decide) rfl
          (ComponentFacts.ofFields?_eq_some_iff.1 hread)
  · split
    · cases hread : DocumentFacts.ofFields? fields with
      | none => exact huntyped
      | some d =>
          exact @Fields.ofList_eq_filter _ hs DocumentFacts.names d.values (by decide) rfl
            (DocumentFacts.ofFields?_eq_some_iff.1 hread)
    · exact huntyped

theorem keeps_filled (m : Metadata) : m.keeps "extractedAt" = true ∧ m.keeps "platform" = true := by
  cases m <;> exact ⟨rfl, rfl⟩

/-- Stored is the extraction time that is carried, or else the one that is filled in. -/
theorem get?_storedFields_extractedAt (m : Metadata) (source now : String) :
    (m.storedFields source now).get? "extractedAt"
      = some ((m.fields.get? "extractedAt").getD (.string now)) := by
  unfold storedFields
  rw [Fields.get?_insertNew, if_neg (by decide), Fields.get?_insertNew, if_pos rfl]

/-- Stored is the platform that is carried, or else the one that is filled in. -/
theorem get?_storedFields_platform (m : Metadata) (source now : String) :
    (m.storedFields source now).get? "platform"
      = some ((m.fields.get? "platform").getD (.string source)) := by
  unfold storedFields
  rw [Fields.get?_insertNew, if_pos rfl, Fields.get?_insertNew, if_neg (by decide)]

/-- Metadata that was read of stored fields is stored again as what it keeps of them. -/
theorem storedFields_ofFields (hs : (m.storedFields source now).Sorted) (source' now' : String) :
    (ofFields (m.storedFields source now)).storedFields source' now'
      = (m.storedFields source now).filter
        fun p => (ofFields (m.storedFields source now)).keeps p.1 := by
  have ht := m.get?_storedFields_extractedAt source now
  have hp := m.get?_storedFields_platform source now
  generalize m.storedFields source now = stored at *
  obtain ⟨hdate, hplatform⟩ := (ofFields stored).keeps_filled
  rw [← fields_ofFields hs]
  apply storedFields_eq_fields
  · rw [fields_ofFields hs, Fields.get?_filter, if_pos hdate, ht]
  · rw [fields_ofFields hs, Fields.get?_filter, if_pos hplatform, hp]

/-- **Blobs stored again.** What is read of the blob of metadata that fits is stored again, whenever
and for whatever source, as the fields of the blob that it keeps, so the blob stays the same just
when it keeps them all. That is so for every blob that a record was stored as. -/
theorem toBlob_of_ofBlob? (h : m.Fits) (source now : String) :
    ∃ m', ofBlob? (m.toBlob source now) = some m' ∧ ∀ source' now',
      m'.toBlob source' now'
          = Json.render (.object ((m.storedFields source now).filter fun p => m'.keeps p.1))
        ∧ (m'.toBlob source' now' = m.toBlob source now
          ↔ ∀ p ∈ m.storedFields source now, m'.keeps p.1 = true)
        ∧ (m.extractorPlatform?.isSome = true → m'.toBlob source' now' = m.toBlob source now) := by
  have hstored := h.storedFields source now
  refine ⟨_, ofBlob?_toBlob h source now, fun source' now' => ?_⟩
  have hblob := congrArg (fun fs => Json.render (.object fs))
    (storedFields_ofFields hstored.sorted source' now')
  refine ⟨hblob, ?_, fun hrecord => ?_⟩
  · rw [← List.filter_eq_self, ← Json.object.injEq, ← Json.render_inj (hstored.filter _) hstored]
    exact ⟨fun heq => hblob.symm.trans heq, hblob.trans⟩
  · -- a record is stored as its fields, which are all kept
    obtain ⟨p, hp⟩ := Option.isSome_iff_exists.1 hrecord
    obtain ⟨hfields, hread⟩ := ofFields_storedFields_record hp source now
    have ht := m.get?_storedFields_extractedAt source now
    have hu := m.get?_storedFields_platform source now
    rw [hfields] at ht hu
    have hkept : (ofFields m.fields).fields = m.fields := by
      rw [hread]
      split <;> rfl
    unfold toBlob
    rw [hfields, storedFields_eq_fields (hkept.symm ▸ ht) (hkept.symm ▸ hu), hkept]

/-- An open map with one field of its own. -/
def looseNote : Metadata := .untyped [("note", .null)]

theorem toBlob_of_ofBlob?_looseNote : ∃ m', ofBlob? (looseNote.toBlob "s" "now") = some m'
    ∧ ∀ source' now', m'.toBlob source' now' = looseNote.toBlob "s" "now" := by
  have hfits : looseNote.Fits := @Json.fits_ofList 126 [("note", .null)] fun p hp => by
    obtain rfl := List.mem_singleton.1 hp
    exact .null
  obtain ⟨m', hread, hagain⟩ := toBlob_of_ofBlob? hfits "s" "now"
  have hkept : ∀ p ∈ looseNote.storedFields "s" "now",
      (ofFields (looseNote.storedFields "s" "now")).keeps p.1 = true := by decide +kernel
  obtain rfl := Option.some.inj ((ofBlob?_toBlob hfits "s" "now").symm.trans hread)
  exact ⟨_, hread, fun source' now' => (hagain source' now').2.1.2 hkept⟩

/-- An open map with all fields of a component record and one of its own. -/
def notedButton : Metadata := .untyped ((buttonFacts "react").fields.insert "note" .null)

/-- A field beside those of a record is lost when the blob is stored again. -/
theorem notedButton_lost : ¬∀ (m : Metadata) (source now source' now' : String), m.Fits →
    (ofBlob? (m.toBlob source now)).map (toBlob · source' now') = some (m.toBlob source now) := by
  intro h
  have hfits : notedButton.Fits := by
    have hrange : (buttonFacts "react").InRange :=
      show 0 < Word.count 64 ∧ 18446744073709551615 < Word.count 64 by decide
    exact (hrange.fits (p := componentPlatform) rfl).insert .null "note"
  have hstored := hfits.storedFields "s" "now"
  have hsame := h notedButton "s" "now" "s" "now" hfits
  rw [ofBlob?_toBlob hfits] at hsame
  have hrender : Json.render _ = Json.render _ := Option.some.inj hsame
  rw [storedFields_ofFields hstored.sorted, Json.render_inj (hstored.filter _) hstored, Json.object.injEq,
    List.filter_eq_self] at hrender
  have hlost : ∃ p ∈ notedButton.storedFields "s" "now",
      (ofFields (notedButton.storedFields "s" "now")).keeps p.1 = false := by decide +kernel
  obtain ⟨p, hp, hlost⟩ := hlost
  rw [hrender p hp] at hlost
  cases hlost

end Metadata

end ContentGraph
