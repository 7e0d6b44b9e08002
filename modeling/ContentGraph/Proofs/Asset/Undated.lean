import ContentGraph.Extraction
import ContentGraph.Proofs.Asset.Blob
import ContentGraph.Proofs.Asset.Fields

/-!
# Assets without their date

Two extractions of one file differ in the time of extraction that their metadata names. Assets are
compared without it (`Asset.undated`). Storing fills in the date where it is missing, and reading
goes through the stored text; main statement: assets that are the same but for their dates are read
back the same but for their dates, whenever they were stored (`readBack_undated`).
-/

namespace ContentGraph

/-- The field that holds the time of extraction. -/
def dateKey : String := "extractedAt"

/-- Holds when a time of extraction, if there is one, is a text. -/
def Fields.datedByText (fields : Fields) : Bool :=
  fields.all fun p => p.1 != dateKey || p.2.string?.isSome

/-- The facts about a component without the time of extraction. -/
def ComponentFacts.undated (m : ComponentFacts) : ComponentFacts := { m with extractedAt := "" }

/-- The facts about a document without the time of extraction. -/
def DocumentFacts.undated (m : DocumentFacts) : DocumentFacts := { m with extractedAt := "" }

/-- Metadata without the time of extraction. One that is no text stays: it is no date. -/
def Metadata.undated : Metadata → Metadata
  | .component m => .component m.undated
  | .document m => .document m.undated
  | .untyped fields => .untyped (if fields.datedByText then fields.erase dateKey else fields)

/-- An asset without the time of extraction. -/
def Asset.undated (a : Asset) : Asset := { a with metadata := a.metadata.undated }

/-- An extraction without its time. -/
def Extraction.undated (x : Extraction) : Extraction := { x with asset := x.asset.undated }

/-! ## Dated fields -/

namespace Fields

variable {fields fields' : Fields}

theorem datedByText_iff :
    fields.datedByText = true ↔ ∀ p ∈ fields, p.1 = dateKey → ∃ t, p.2 = .string t := by
  have htext {v : Json} : v.string?.isSome = true ↔ ∃ t, v = .string t := by
    cases v <;> simp [Json.string?]
  unfold datedByText
  rw [List.all_eq_true]
  refine forall_congr' fun p => imp_congr_right fun _ => ?_
  rw [Bool.or_eq_true, bne_iff_ne, htext]
  exact ⟨fun h hp => h.resolve_left fun hne => hne hp, fun h =>
    (Decidable.em (p.1 = dateKey)).elim (fun hp => .inr (h hp)) .inl⟩

theorem datedByText_ofList (h : fields.datedByText = true) : (ofList fields).datedByText = true :=
  datedByText_iff.2 fun p hp => datedByText_iff.1 h p (mem_ofList hp)

/-- Fields that name a time of extraction, and by texts only. -/
structure Dated (fields : Fields) : Prop where
  texts : fields.datedByText = true
  named : ∃ t, fields.get? dateKey = some (.string t)

/-- Fields that are the same but for their dates. -/
structure DatedAlike (fields fields' : Fields) : Prop where
  left : Dated fields
  right : Dated fields'
  erased : fields.erase dateKey = fields'.erase dateKey

/-- A missing date is filled in. -/
theorem dated_insertNew (h : fields.datedByText = true) (now : String) :
    Dated (fields.insertNew dateKey (.string now))
      ∧ (fields.insertNew dateKey (.string now)).erase dateKey = fields.erase dateKey := by
  unfold insertNew
  cases hget : fields.get? dateKey with
  | some v =>
      obtain ⟨t, rfl⟩ := datedByText_iff.1 h _ (mem_of_get? hget) rfl
      exact ⟨⟨h, t, hget⟩, rfl⟩
  | none =>
      refine ⟨⟨datedByText_iff.2 fun p hp hkey => ?_, now, get?_insert_self _ _ _⟩,
        erase_insert_self _ _⟩
      rcases mem_insert hp with rfl | hp
      · exact ⟨now, rfl⟩
      · exact datedByText_iff.1 h p hp hkey

theorem Dated.insert (h : Dated fields) {key : String} (hne : key ≠ dateKey) (v : Json) :
    Dated (fields.insert key v) := by
  obtain ⟨t, ht⟩ := h.named
  refine ⟨datedByText_iff.2 fun p hp hkey => ?_, t, ?_⟩
  · rcases mem_insert hp with rfl | hp
    · exact absurd hkey hne
    · exact datedByText_iff.1 h.texts p hp hkey
  · rw [get?_insert_of_ne v fields hne.symm, ht]

/-- What is filled in beside the date does not depend on it. -/
theorem DatedAlike.insertNew (h : DatedAlike fields fields') {key : String} (hlt : dateKey < key)
    (v : Json) : DatedAlike (fields.insertNew key v) (fields'.insertNew key v) := by
  have hne : key ≠ dateKey := fun heq => String.lt_irrefl dateKey (heq ▸ hlt)
  have hget : fields.get? key = fields'.get? key := by
    rw [← get?_erase hne, h.erased, get?_erase hne]
  unfold Fields.insertNew
  rw [hget]
  cases fields'.get? key with
  | some _ => exact h
  | none =>
      have hbehind : ¬key < dateKey := fun hgt => String.lt_irrefl key (String.lt_trans hgt hlt)
      refine ⟨h.left.insert hne v, h.right.insert hne v, ?_⟩
      rw [erase_insert hne v fun hgt => absurd hgt hbehind,
        erase_insert hne v fun hgt => absurd hgt hbehind, h.erased]

/-- Dates are read back, so fields that are reread stay alike. -/
theorem DatedAlike.reread (h : DatedAlike fields fields') (room : Nat) :
    (Json.rereadFields (Json.reread room) fields = none
        ∧ Json.rereadFields (Json.reread room) fields' = none)
      ∨ ∃ read read', Json.rereadFields (Json.reread room) fields = some read
        ∧ Json.rereadFields (Json.reread room) fields' = some read'
        ∧ DatedAlike (ofList read) (ofList read') := by
  have hback {fields : Fields} (hdated : Dated fields) :
      ∀ p ∈ fields, p.1 = dateKey → Json.reread room p.2 = some p.2 := fun p hp hkey => by
    obtain ⟨t, ht⟩ := datedByText_iff.1 hdated.texts p hp hkey
    rw [ht]
    cases room <;> rfl
  have hdated {fields read : Fields} (hdated : Dated fields)
      (hread : Json.rereadFields (Json.reread room) fields = some read) : Dated (ofList read) := by
    have htexts : ∀ p ∈ read, p.1 = dateKey → ∃ t, p.2 = .string t := fun p hp hkey => by
      obtain ⟨v, hv, hpv⟩ := Json.mem_of_rereadFields hread hp
      obtain ⟨t, rfl⟩ := datedByText_iff.1 hdated.texts _ hv hkey
      have hsame := hback hdated _ hv hkey
      rw [hpv] at hsame
      exact ⟨t, Option.some.inj hsame⟩
    refine ⟨datedByText_iff.2 fun p hp => htexts p (mem_ofList hp), ?_⟩
    -- of several dates the last is read, which is a text as all are
    obtain ⟨t, ht⟩ := hdated.named
    have hget := Json.get?_rereadFields hread dateKey
    rw [ht, Option.bind_some, hback hdated _ (mem_of_get? ht) rfl] at hget
    rw [get?_ofList]
    cases hlast : lastWith (fun p => decide (p.1 = dateKey)) read with
    | none =>
        exact absurd (decide_eq_true rfl) (lastWith_eq_none_iff.1 hlast _ (mem_of_get? hget))
    | some p =>
        obtain ⟨hp, hkey⟩ := List.mem_filter.1 (List.mem_of_getLast? hlast)
        obtain ⟨t', ht'⟩ := htexts p hp (of_decide_eq_true hkey)
        exact ⟨t', congrArg some ht'⟩
  have herased := Json.erase_rereadFields (hback h.left)
  rw [h.erased, ← Json.erase_rereadFields (hback h.right)] at herased
  cases hread : Json.rereadFields (Json.reread room) fields with
  | none =>
      rw [hread] at herased
      exact .inl ⟨rfl, Option.map_eq_none_iff.1 herased.symm⟩
  | some read =>
      rw [hread] at herased
      obtain ⟨read', hread', heq⟩ := Option.map_eq_some_iff.1 herased.symm
      refine .inr ⟨read, read', rfl, hread', hdated h.left hread, hdated h.right hread', ?_⟩
      rw [erase_ofList, erase_ofList, heq]

end Fields

/-! ## Records -/

open Fields

theorem ComponentFacts.fields_undated (m : ComponentFacts) :
    m.fields.datedByText = true ∧ m.fields.erase dateKey = m.undated.fields.erase dateKey := by
  constructor
  · unfold ComponentFacts.fields
    exact datedByText_ofList (by simp [datedByText, dateKey, Json.string?])
  · unfold ComponentFacts.fields
    rw [erase_ofList, erase_ofList]
    rfl

theorem DocumentFacts.fields_undated (m : DocumentFacts) :
    m.fields.datedByText = true ∧ m.fields.erase dateKey = m.undated.fields.erase dateKey := by
  constructor
  · unfold DocumentFacts.fields
    exact datedByText_ofList (by simp [datedByText, dateKey, Json.string?])
  · unfold DocumentFacts.fields
    rw [erase_ofList, erase_ofList]
    rfl

section Built

variable {get? get?' : String → Nat → Option Json} {t t' : String}

private theorem map_bind_congr {α β γ : Type} {x : Option α} {g g' : α → Option β} {f : β → γ}
    (h : ∀ a, (g a).map f = (g' a).map f) : (x >>= g).map f = (x >>= g').map f := by
  cases x with
  | none => rfl
  | some a => exact h a

/-- Records that are built from the same fields but for a date are the same but for it. -/
theorem ComponentFacts.build?_undated
    (hother : ∀ name i, name ≠ dateKey → get? name i = get?' name i)
    (ht : get? "extractedAt" 10 = some (.string t))
    (ht' : get?' "extractedAt" 10 = some (.string t')) :
    (build? get?).map ComponentFacts.undated = (build? get?').map ComponentFacts.undated := by
  unfold build?
  simp (disch := decide) only [hother, ht, ht']
  repeat refine map_bind_congr fun _ => ?_
  -- the dates differ, and the platform is read after them
  exact map_bind_congr (x := get?' "platform" 11) fun _ => map_bind_congr fun _ => rfl

theorem DocumentFacts.build?_undated
    (hother : ∀ name i, name ≠ dateKey → get? name i = get?' name i)
    (ht : get? "extractedAt" 5 = some (.string t))
    (ht' : get?' "extractedAt" 5 = some (.string t')) :
    (build? get?).map DocumentFacts.undated = (build? get?').map DocumentFacts.undated := by
  unfold build?
  simp (disch := decide) only [hother, ht, ht']
  repeat refine map_bind_congr fun _ => ?_
  -- the dates differ, and the platform is read after them
  exact map_bind_congr (x := get?' "platform" 6) fun _ => map_bind_congr fun _ => rfl

end Built

/-! ## Metadata -/

namespace Metadata

variable {m m' : Metadata} {fields fields' : Fields}

/-- Metadata that is the same but for its date: its fields are, or it has no date and is the same. -/
theorem undated_cases (h : m.undated = m'.undated) :
    (m = m' ∧ m.fields.datedByText = false)
      ∨ (m.fields.datedByText = true ∧ m'.fields.datedByText = true
        ∧ m.fields.erase dateKey = m'.fields.erase dateKey) := by
  cases m with
  | component c =>
      cases m' with
      | component c' =>
          obtain ⟨htext, herased⟩ := c.fields_undated
          obtain ⟨htext', herased'⟩ := c'.fields_undated
          rw [Metadata.component.inj h, ← herased'] at herased
          exact .inr ⟨htext, htext', herased⟩
      | document c' => exact nomatch h
      | untyped fields' => exact nomatch h
  | document c =>
      cases m' with
      | component c' => exact nomatch h
      | document c' =>
          obtain ⟨htext, herased⟩ := c.fields_undated
          obtain ⟨htext', herased'⟩ := c'.fields_undated
          rw [Metadata.document.inj h, ← herased'] at herased
          exact .inr ⟨htext, htext', herased⟩
      | untyped fields' => exact nomatch h
  | untyped fields =>
      cases m' with
      | component c' => exact nomatch h
      | document c' => exact nomatch h
      | untyped fields' =>
          have heq := Metadata.untyped.inj h
          have herased (fields : Fields) : (fields.erase dateKey).datedByText = true :=
            datedByText_iff.2 fun p hp hkey =>
              absurd hkey (of_decide_eq_true (List.mem_filter.1 hp).2)
          by_cases htext : fields.datedByText = true <;>
            by_cases htext' : fields'.datedByText = true
          · rw [if_pos htext, if_pos htext'] at heq
            exact .inr ⟨htext, htext', heq⟩
          · rw [if_pos htext, if_neg htext'] at heq
            exact absurd (heq ▸ herased fields) htext'
          · rw [if_neg htext, if_pos htext'] at heq
            exact absurd (heq ▸ herased fields') htext
          · rw [if_neg htext, if_neg htext'] at heq
            exact .inl ⟨congrArg _ heq, Bool.eq_false_iff.2 htext⟩

/-- What is stored of metadata that is the same but for its date is so, too. -/
theorem storedFields_undated (h : m.undated = m'.undated) (source now now' : String) :
    m.storedFields source now = m'.storedFields source now'
      ∨ DatedAlike (m.storedFields source now) (m'.storedFields source now') := by
  obtain ⟨rfl, htext⟩ | ⟨htext, htext', herased⟩ := undated_cases h
  · -- what stands in the place of the date is kept
    have hnamed : ∃ v, m.fields.get? dateKey = some v := by
      cases hget : m.fields.get? dateKey with
      | some v => exact ⟨v, rfl⟩
      | none =>
          exact absurd (datedByText_iff.2 fun p hp hkey => absurd hkey (not_mem_of_get? hget hp))
            (Bool.eq_false_iff.1 htext)
    obtain ⟨v, hv⟩ := hnamed
    have hkept (now : String) : m.fields.insertNew dateKey (.string now) = m.fields := by
      unfold Fields.insertNew
      rw [hv]
    left
    show (m.fields.insertNew dateKey _).insertNew _ _ = (m.fields.insertNew dateKey _).insertNew _ _
    rw [hkept, hkept]
  · obtain ⟨hdated, hsame⟩ := dated_insertNew htext now
    obtain ⟨hdated', hsame'⟩ := dated_insertNew htext' now'
    have halike : DatedAlike (m.fields.insertNew dateKey (.string now))
        (m'.fields.insertNew dateKey (.string now')) :=
      ⟨hdated, hdated', by rw [hsame, hsame', herased]⟩
    exact .inr (halike.insertNew (by decide) (.string source))

/-- What is read of fields that are the same but for their dates is so, too. -/
theorem ofFields_undated (h : DatedAlike fields fields') :
    (ofFields fields).undated = (ofFields fields').undated := by
  have hget {key : String} (hne : key ≠ dateKey) : fields.get? key = fields'.get? key := by
    rw [← get?_erase hne, h.erased, get?_erase hne]
  obtain ⟨t, ht⟩ := h.left.named
  obtain ⟨t', ht'⟩ := h.right.named
  have hplatform : textField? "platform" fields = textField? "platform" fields' := by
    unfold textField?
    rw [hget (by decide)]
  have huntyped : (untyped fields).undated = (untyped fields').undated := by
    show untyped (if _ then _ else _) = untyped (if _ then _ else _)
    rw [if_pos h.left.texts, if_pos h.right.texts, h.erased]
  have hcomponent : (ComponentFacts.ofFields? fields).map ComponentFacts.undated
      = (ComponentFacts.ofFields? fields').map ComponentFacts.undated :=
    ComponentFacts.build?_undated (fun _ _ hne => hget hne) ht ht'
  have hdocument : (DocumentFacts.ofFields? fields).map DocumentFacts.undated
      = (DocumentFacts.ofFields? fields').map DocumentFacts.undated :=
    DocumentFacts.build?_undated (fun _ _ hne => hget hne) ht ht'
  unfold ofFields
  simp only [hplatform]
  split
  · cases hread : ComponentFacts.ofFields? fields with
    | none =>
        rw [hread] at hcomponent
        rw [Option.map_eq_none_iff.1 hcomponent.symm]
        exact huntyped
    | some c =>
        rw [hread] at hcomponent
        obtain ⟨c', hread', hsame⟩ := Option.map_eq_some_iff.1 hcomponent.symm
        rw [hread']
        exact congrArg component hsame.symm
  · split
    · cases hread : DocumentFacts.ofFields? fields with
      | none =>
          rw [hread] at hdocument
          rw [Option.map_eq_none_iff.1 hdocument.symm]
          exact huntyped
      | some c =>
          rw [hread] at hdocument
          obtain ⟨c', hread', hsame⟩ := Option.map_eq_some_iff.1 hdocument.symm
          rw [hread']
          exact congrArg document hsame.symm
    · exact huntyped

/-- What is read of a stored text is made of the fields reread. -/
theorem ofBlob?_toBlob_eq (m : Metadata) (source now : String) :
    ofBlob? (m.toBlob source now)
      = (Json.rereadFields (Json.reread 126) (m.storedFields source now)).map fun fields =>
        ofFields (Fields.ofList fields) := by
  unfold ofBlob? toBlob
  rw [not_allBlank_render, Json.parse?_render_object]
  cases Json.rereadFields (Json.reread 126) (m.storedFields source now) <;> rfl

/-- **Stored texts.** Of metadata that is the same but for its date the same is read but for it. -/
theorem ofBlob?_undated (h : m.undated = m'.undated) (source now now' : String) :
    (ofBlob? (m.toBlob source now)).map undated = (ofBlob? (m'.toBlob source now')).map undated := by
  rw [ofBlob?_toBlob_eq, ofBlob?_toBlob_eq]
  obtain hsame | halike := storedFields_undated h source now now'
  · rw [hsame]
  · obtain ⟨hnone, hnone'⟩ | ⟨read, read', hread, hread', hdated⟩ := halike.reread 126
    · rw [hnone, hnone']
    · rw [hread, hread']
      exact congrArg some (ofFields_undated hdated)

end Metadata

/-- **Assets.** Assets that are the same but for their dates are read back the same but for them,
whenever each was stored. -/
theorem Asset.readBack_undated {a a' : Asset} (h : a.undated = a'.undated) (now now' : Millis) :
    (a.readBack now).map Asset.undated = (a'.readBack now').map Asset.undated := by
  obtain ⟨id, title, content, type, source, m⟩ := a
  obtain ⟨id', title', content', type', source', m'⟩ := a'
  obtain ⟨rfl, rfl, rfl, rfl, rfl, hm⟩ := Asset.mk.inj h
  have hblob := Metadata.ofBlob?_undated hm source now.iso now'.iso
  unfold Asset.readBack StoredAsset.decode StoredAsset.ofAsset
  cases hread : Metadata.ofBlob? (m.toBlob source now.iso) with
  | none =>
      rw [hread] at hblob
      simp only [Option.map_eq_none_iff.1 hblob.symm]
  | some read =>
      rw [hread] at hblob
      obtain ⟨read', hread', hsame⟩ := Option.map_eq_some_iff.1 hblob.symm
      simp only [hread']
      show Except.ok _ = Except.ok _
      unfold Asset.undated
      rw [hsame]

end ContentGraph
