import ContentGraph.Asset.Metadata
import ContentGraph.Proofs.Json.RoundTrip

/-!
# Stored metadata read back

Metadata *fits* when the object of its fields does: its numbers are integers and it stays within
the nesting that is read. Filling in the extraction time and the platform keeps that, so the blob
of fitting metadata is always read, and as the record that its stored fields make
(`Metadata.ofBlob?_toBlob`).
-/

namespace ContentGraph

/-! ## Fields -/

/-- Setting a field to a value that fits leaves an object that fits. -/
theorem Json.Fits.insert {room : Nat} {fields : Fields} (h : Json.Fits (room + 1) (.object fields))
    {v : Json} (hv : Json.Fits room v) (key : String) :
    Json.Fits (room + 1) (.object (fields.insert key v)) := by
  cases h with
  | object hs hf =>
      refine .object (Fields.sorted_insert hs) fun p hp => ?_
      rcases Fields.mem_insert hp with rfl | hp
      · exact hv
      · exact hf p hp

/-- An object without fields fits. -/
theorem Json.fits_empty (room : Nat) : Json.Fits (room + 1) (.object []) :=
  .object List.Pairwise.nil fun _ h => absurd h List.not_mem_nil

/-- Fields that are set one by one to values that fit make an object that fits. -/
theorem Json.fits_ofList {room : Nat} {pairs : List (String × Json)}
    (h : ∀ p ∈ pairs, Json.Fits room p.2) : Json.Fits (room + 1) (.object (Fields.ofList pairs)) := by
  have fold : ∀ (ps : List (String × Json)) (fields : Fields), (∀ p ∈ ps, Json.Fits room p.2) →
      Json.Fits (room + 1) (.object fields) →
      Json.Fits (room + 1) (.object (ps.foldl (fun fs p => Fields.insert p.1 p.2 fs) fields)) := by
    intro ps
    induction ps with
    | nil => intro fields _ hf; exact hf
    | cons p ps ih =>
        intro fields hps hf
        exact ih _ (fun q hq => hps q (List.mem_cons_of_mem _ hq))
          (hf.insert (hps p List.mem_cons_self) p.1)
  exact fold pairs [] h (Json.fits_empty room)

namespace Metadata

/-- Metadata whose stored text can be read: the object of its fields fits. -/
def Fits (m : Metadata) : Prop := Json.Fits Json.maxNesting (.object m.fields)

theorem fits_insertNew {fields : Fields} (h : Json.Fits Json.maxNesting (.object fields))
    (key s : String) : Json.Fits Json.maxNesting (.object (fields.insertNew key (.string s))) := by
  unfold Fields.insertNew
  split
  · exact h
  · exact h.insert (.string s) key

/-- What is filled in on storing fits as well. -/
theorem Fits.storedFields {m : Metadata} (h : m.Fits) (source now : String) :
    Json.Fits Json.maxNesting (.object (m.storedFields source now)) :=
  fits_insertNew (fits_insertNew h _ _) _ _

/-- The text of an object starts with a brace, so it is not blank. -/
theorem not_allBlank_render (fields : Fields) :
    Text.allBlank (Json.render (.object fields)).toList = false := by
  have hbrace : Text.isBlank '{' = false := by decide
  cases fields with
  | nil => simp [Json.render, Json.chars, Text.allBlank, hbrace]
  | cons p rest =>
      obtain ⟨k, v⟩ := p
      simp [Json.render, Json.chars, Text.allBlank, hbrace]

/-- The text of an object that fits is read as metadata of its fields. -/
theorem ofBlob?_render {fields : Fields} (h : Json.Fits Json.maxNesting (.object fields)) :
    ofBlob? (Json.render (.object fields)) = some (ofFields fields) := by
  unfold ofBlob?
  rw [not_allBlank_render, Json.parse?_render h]
  rfl

/-- **Blobs are read back.** The blob of metadata that fits holds its stored fields. -/
theorem ofBlob?_toBlob {m : Metadata} (h : m.Fits) (source now : String) :
    ofBlob? (m.toBlob source now) = some (ofFields (m.storedFields source now)) :=
  ofBlob?_render (h.storedFields source now)

end Metadata

end ContentGraph
