import ContentGraph.Proofs.Asset.Undated
import ContentGraph.Word

/-!
# Records in their blobs

A record of facts writes one field under each of its names, and some fields hold a record just when
under each of its names stands what the record writes there (`ComponentFacts.ofFields?_eq_some_iff`,
`DocumentFacts.ofFields?_eq_some_iff`): further fields do not matter, and one that is missing or of
another kind leaves no record. Neither record has all names of the other. Main statement: the blob
of a record is read back as the record when the record names the platform of its own extractor, and
as the open map of its fields when it names any other (`Metadata.ofBlob?_record`).
-/

namespace ContentGraph

/-! ## Values of one kind -/

namespace Json

variable {v : Json}

theorem string?_eq_some_iff {s : String} : v.string? = some s ↔ v = .string s := by
  cases v <;> simp [string?]

theorem bool?_eq_some_iff {b : Bool} : v.bool? = some b ↔ v = .bool b := by
  cases v <;> simp [bool?]

theorem natural?_eq_some_iff {n : Nat} : v.natural? = some n ↔ v = ofNat n := by
  unfold natural? ofNat
  split
  · next i =>
      rw [Json.number.injEq, Number.integer.injEq]
      split
      · rw [Option.some.injEq]
        omega
      · constructor
        · intro h
          cases h
        · intro h
          omega
  · next hne =>
      constructor
      · intro h
        cases h
      · intro h
        exact absurd h (hne n)

theorem mapM_string?_eq_some_iff {items : List Json} {xs : List String} :
    items.mapM string? = some xs ↔ items = xs.map .string := by
  induction items generalizing xs with
  | nil => cases xs <;> simp
  | cons v items ih =>
      rw [List.mapM_cons]
      simp only [Option.bind_eq_bind, Option.bind_eq_some_iff, Option.pure_def, Option.some.injEq,
        string?_eq_some_iff, ih]
      constructor
      · rintro ⟨s, rfl, ys, rfl, rfl⟩
        rfl
      · intro h
        cases xs with
        | nil => cases h
        | cons s xs =>
            obtain ⟨rfl, rfl⟩ := List.cons.inj h
            exact ⟨s, rfl, xs, rfl, rfl⟩

theorem strings?_eq_some_iff {xs : List String} : v.strings? = some xs ↔ v = ofStrings xs := by
  unfold strings? ofStrings
  split
  · rw [mapM_string?_eq_some_iff, Json.array.injEq]
  · next hne =>
      constructor
      · intro h
        cases h
      · intro h
        exact absurd h (hne _)

/-! Reading one field of several: it is there, it is of its kind, and the others are read as well. -/

section Field

variable {α β : Type} {o : Option Json} {b : β}

theorem bind_read_eq_some_iff {read : Json → Option α} {write : α → Json}
    (hread : ∀ {v a}, read v = some a ↔ v = write a) {f : α → Option β} :
    (o >>= fun v => read v >>= f) = some b ↔ ∃ a, o = some (write a) ∧ f a = some b := by
  simp only [Option.bind_eq_bind, Option.bind_eq_some_iff, hread]
  constructor
  · rintro ⟨_, ho, a, rfl, hf⟩
    exact ⟨a, ho, hf⟩
  · rintro ⟨a, ho, hf⟩
    exact ⟨_, ho, a, rfl, hf⟩

theorem string_field {f : String → Option β} :
    (o >>= fun v => v.string? >>= f) = some b ↔ ∃ a, o = some (.string a) ∧ f a = some b :=
  bind_read_eq_some_iff string?_eq_some_iff

theorem strings_field {f : List String → Option β} :
    (o >>= fun v => v.strings? >>= f) = some b ↔ ∃ a, o = some (ofStrings a) ∧ f a = some b :=
  bind_read_eq_some_iff strings?_eq_some_iff

theorem natural_field {f : Nat → Option β} :
    (o >>= fun v => v.natural? >>= f) = some b ↔ ∃ a, o = some (ofNat a) ∧ f a = some b :=
  bind_read_eq_some_iff natural?_eq_some_iff

theorem bool_field {f : Bool → Option β} :
    (o >>= fun v => v.bool? >>= f) = some b ↔ ∃ a, o = some (.bool a) ∧ f a = some b :=
  bind_read_eq_some_iff bool?_eq_some_iff

end Field

end Json

/-- A list of texts fits where there is room for the list. -/
theorem Json.fits_ofStrings {room : Nat} (xs : List String) :
    Json.Fits (room + 1) (.ofStrings xs) := by
  refine .array fun v hv => ?_
  obtain ⟨s, -, rfl⟩ := List.mem_map.1 hv
  exact .string s

/-! ## Records -/

open Json Fields

/-- The names of the fields of a component record. -/
def ComponentFacts.names : List String :=
  ["filePath", "componentName", "jsxElements", "exports", "imports", "lineCount", "fileSize",
    "lastModified", "hasDefaultExport", "hasNamedExports", "extractedAt", "platform"]

/-- The names of the fields of a document record. -/
def DocumentFacts.names : List String :=
  ["filePath", "headings", "wordCount", "contentHash", "lastModified", "extractedAt", "platform"]

/-- What a component record writes, in the order of its names. -/
def ComponentFacts.values (m : ComponentFacts) : List Json :=
  [.string m.filePath, .string m.componentName, .ofStrings m.jsxElements, .ofStrings m.exports,
    .ofStrings m.imports, .ofNat m.lineCount, .ofNat m.fileSize, .string m.lastModified,
    .bool m.hasDefaultExport, .bool m.hasNamedExports, .string m.extractedAt, .string m.platform]

/-- What a document record writes, in the order of its names. -/
def DocumentFacts.values (m : DocumentFacts) : List Json :=
  [.string m.filePath, .ofStrings m.headings, .ofNat m.wordCount, .string m.contentHash,
    .string m.lastModified, .string m.extractedAt, .string m.platform]

theorem ComponentFacts.fields_eq (m : ComponentFacts) :
    m.fields = ofList (names.zip m.values) := rfl

theorem DocumentFacts.fields_eq (m : DocumentFacts) :
    m.fields = ofList (names.zip m.values) := rfl

/-- Some fields hold a component record just when under each name stands what it writes. -/
theorem ComponentFacts.ofFields?_eq_some_iff {fields : Fields} {m : ComponentFacts} :
    ofFields? fields = some m ↔ ∀ p ∈ names.zip m.values, fields.get? p.1 = some p.2 := by
  simp only [names, values, List.zip_cons_cons, List.zip_nil_right, List.forall_mem_cons]
  constructor
  · intro h
    obtain ⟨_, h0, h⟩ := string_field.1 h
    obtain ⟨_, h1, h⟩ := string_field.1 h
    obtain ⟨_, h2, h⟩ := strings_field.1 h
    obtain ⟨_, h3, h⟩ := strings_field.1 h
    obtain ⟨_, h4, h⟩ := strings_field.1 h
    obtain ⟨_, h5, h⟩ := natural_field.1 h
    obtain ⟨_, h6, h⟩ := natural_field.1 h
    obtain ⟨_, h7, h⟩ := string_field.1 h
    obtain ⟨_, h8, h⟩ := bool_field.1 h
    obtain ⟨_, h9, h⟩ := bool_field.1 h
    obtain ⟨_, h10, h⟩ := string_field.1 h
    obtain ⟨_, h11, h⟩ := string_field.1 h
    obtain rfl := Option.some.inj h
    exact ⟨h0, h1, h2, h3, h4, h5, h6, h7, h8, h9, h10, h11, fun _ h => nomatch h⟩
  · rintro ⟨h0, h1, h2, h3, h4, h5, h6, h7, h8, h9, h10, h11, -⟩
    refine string_field.2 ⟨_, h0, ?_⟩
    refine string_field.2 ⟨_, h1, ?_⟩
    refine strings_field.2 ⟨_, h2, ?_⟩
    refine strings_field.2 ⟨_, h3, ?_⟩
    refine strings_field.2 ⟨_, h4, ?_⟩
    refine natural_field.2 ⟨_, h5, ?_⟩
    refine natural_field.2 ⟨_, h6, ?_⟩
    refine string_field.2 ⟨_, h7, ?_⟩
    refine bool_field.2 ⟨_, h8, ?_⟩
    refine bool_field.2 ⟨_, h9, ?_⟩
    refine string_field.2 ⟨_, h10, ?_⟩
    refine string_field.2 ⟨_, h11, ?_⟩
    rfl

/-- Some fields hold a document record just when under each name stands what it writes. -/
theorem DocumentFacts.ofFields?_eq_some_iff {fields : Fields} {m : DocumentFacts} :
    ofFields? fields = some m ↔ ∀ p ∈ names.zip m.values, fields.get? p.1 = some p.2 := by
  simp only [names, values, List.zip_cons_cons, List.zip_nil_right, List.forall_mem_cons]
  constructor
  · intro h
    obtain ⟨_, h0, h⟩ := string_field.1 h
    obtain ⟨_, h1, h⟩ := strings_field.1 h
    obtain ⟨_, h2, h⟩ := natural_field.1 h
    obtain ⟨_, h3, h⟩ := string_field.1 h
    obtain ⟨_, h4, h⟩ := string_field.1 h
    obtain ⟨_, h5, h⟩ := string_field.1 h
    obtain ⟨_, h6, h⟩ := string_field.1 h
    obtain rfl := Option.some.inj h
    exact ⟨h0, h1, h2, h3, h4, h5, h6, fun _ h => nomatch h⟩
  · rintro ⟨h0, h1, h2, h3, h4, h5, h6, -⟩
    refine string_field.2 ⟨_, h0, ?_⟩
    refine strings_field.2 ⟨_, h1, ?_⟩
    refine natural_field.2 ⟨_, h2, ?_⟩
    refine string_field.2 ⟨_, h3, ?_⟩
    refine string_field.2 ⟨_, h4, ?_⟩
    refine string_field.2 ⟨_, h5, ?_⟩
    refine string_field.2 ⟨_, h6, ?_⟩
    rfl

theorem ComponentFacts.get?_fields (m : ComponentFacts) {p : String × Json}
    (hp : p ∈ names.zip m.values) : m.fields.get? p.1 = some p.2 := by
  rw [m.fields_eq]
  refine get?_ofList_of_mem ?_ hp
  exact show names.Nodup by decide

theorem DocumentFacts.get?_fields (m : DocumentFacts) {p : String × Json}
    (hp : p ∈ names.zip m.values) : m.fields.get? p.1 = some p.2 := by
  rw [m.fields_eq]
  refine get?_ofList_of_mem ?_ hp
  exact show names.Nodup by decide

theorem ComponentFacts.get?_extractedAt (m : ComponentFacts) :
    m.fields.get? "extractedAt" = some (.string m.extractedAt) :=
  m.get?_fields (p := ("extractedAt", _)) (by simp [names, values])

theorem ComponentFacts.get?_platform (m : ComponentFacts) :
    m.fields.get? "platform" = some (.string m.platform) :=
  m.get?_fields (p := ("platform", _)) (by simp [names, values])

theorem DocumentFacts.get?_extractedAt (m : DocumentFacts) :
    m.fields.get? "extractedAt" = some (.string m.extractedAt) :=
  m.get?_fields (p := ("extractedAt", _)) (by simp [names, values])

theorem DocumentFacts.get?_platform (m : DocumentFacts) :
    m.fields.get? "platform" = some (.string m.platform) :=
  m.get?_fields (p := ("platform", _)) (by simp [names, values])

theorem ComponentFacts.get?_fields_of_not_mem (m : ComponentFacts) {key : String}
    (h : key ∉ names) : m.fields.get? key = none := by
  rw [m.fields_eq]
  exact get?_ofList_of_not_mem h

theorem DocumentFacts.get?_fields_of_not_mem (m : DocumentFacts) {key : String}
    (h : key ∉ names) : m.fields.get? key = none := by
  rw [m.fields_eq]
  exact get?_ofList_of_not_mem h

/-- The fields of a record hold it. -/
theorem ComponentFacts.ofFields?_fields (m : ComponentFacts) : ofFields? m.fields = some m :=
  ofFields?_eq_some_iff.2 fun _ => m.get?_fields

theorem DocumentFacts.ofFields?_fields (m : DocumentFacts) : ofFields? m.fields = some m :=
  ofFields?_eq_some_iff.2 fun _ => m.get?_fields

/-- A component record has no headings, so its fields hold no document record. -/
theorem ComponentFacts.not_document (m : ComponentFacts) :
    DocumentFacts.ofFields? m.fields = none := by
  refine Option.eq_none_iff_forall_not_mem.2 fun d hd => ?_
  have hheadings := DocumentFacts.ofFields?_eq_some_iff.1 hd ("headings", .ofStrings d.headings)
    (by simp [DocumentFacts.names, DocumentFacts.values])
  rw [m.get?_fields_of_not_mem (show "headings" ∉ names by decide)] at hheadings
  cases hheadings

/-- A document record has no component name, so its fields hold no component record. -/
theorem DocumentFacts.not_component (m : DocumentFacts) :
    ComponentFacts.ofFields? m.fields = none := by
  refine Option.eq_none_iff_forall_not_mem.2 fun c hc => ?_
  have hname := ComponentFacts.ofFields?_eq_some_iff.1 hc
    ("componentName", .string c.componentName)
    (by simp [ComponentFacts.names, ComponentFacts.values])
  rw [m.get?_fields_of_not_mem (show "componentName" ∉ names by decide)] at hname
  cases hname

/-! ## Blobs -/

namespace Metadata

variable {m : Metadata} {source now : String}

/-- The platform of the extractor whose record this is, if it is one. -/
def extractorPlatform? : Metadata → Option String
  | .component _ => some componentPlatform
  | .document _ => some documentPlatform
  | .untyped _ => none

/-- Counts and sizes are 64-bit words. -/
def InRange : Metadata → Prop
  | .component m => m.lineCount < Word.count 64 ∧ m.fileSize < Word.count 64
  | .document m => m.wordCount < Word.count 64
  | .untyped _ => True

/-- Metadata in range fits when it is a record. -/
theorem InRange.fits (h : m.InRange) {p : String} (hp : m.extractorPlatform? = some p) :
    m.Fits := by
  have hword {n : Nat} (hn : n < Word.count 64) : Json.Fits 126 (.ofNat n) := by
    refine .integer ⟨?_, ?_⟩
    · have := Int.natCast_nonneg n
      have := Int.natCast_nonneg (Word.count 63)
      omega
    · omega
  cases m with
  | component c =>
      obtain ⟨hlines, hsize⟩ := h
      refine @Json.fits_ofList 126 _ ?_
      simp only [List.forall_mem_cons, hword hlines, hword hsize, Json.fits_ofStrings, Json.Fits.string,
        Json.Fits.bool, List.not_mem_nil, false_implies, implies_true, and_self]
  | document d =>
      have hwords : d.wordCount < Word.count 64 := h
      refine @Json.fits_ofList 126 _ ?_
      simp only [List.forall_mem_cons, hword hwords, Json.fits_ofStrings, Json.Fits.string,
        List.not_mem_nil, false_implies, implies_true, and_self]
  | untyped fields => cases hp

/-- Nothing is filled in where both fields are there. -/
theorem storedFields_eq_fields {t u : Json} (ht : m.fields.get? "extractedAt" = some t)
    (hu : m.fields.get? "platform" = some u) (source now : String) :
    m.storedFields source now = m.fields := by
  simp only [storedFields, insertNew, ht, hu]

/-- A record is stored as it is, and read by the platform it names. -/
theorem ofFields_storedFields_record {p : String} (hp : m.extractorPlatform? = some p)
    (source now : String) :
    m.storedFields source now = m.fields
      ∧ ofFields m.fields = if m.platform? = some p then m else .untyped m.fields := by
  have hne : componentPlatform ≠ documentPlatform := by decide
  cases m with
  | component c =>
      obtain rfl := Option.some.inj hp
      have htext : textField? "platform" c.fields = some c.platform := by
        simp [textField?, c.get?_platform, Json.string?]
      refine ⟨storedFields_eq_fields (m := .component c) c.get?_extractedAt c.get?_platform
        source now, ?_⟩
      simp only [ofFields, fields, platform?, htext, Option.getD_some, Option.some.injEq,
        c.ofFields?_fields, c.not_document, Option.map_some, Option.map_none, Option.getD_none,
        ite_self]
  | document d =>
      obtain rfl := Option.some.inj hp
      have htext : textField? "platform" d.fields = some d.platform := by
        simp [textField?, d.get?_platform, Json.string?]
      refine ⟨storedFields_eq_fields (m := .document d) d.get?_extractedAt d.get?_platform
        source now, ?_⟩
      simp only [ofFields, fields, platform?, htext, Option.getD_some, Option.some.injEq,
        d.ofFields?_fields, d.not_component, Option.map_some, Option.map_none, Option.getD_none]
      by_cases hc : d.platform = componentPlatform
      · rw [if_pos hc, if_neg (hc ▸ hne)]
      · rw [if_neg hc]
  | untyped fields => cases hp

/-- **Records.** The blob of a record is read back as the record exactly when it names the platform
of its own extractor. Under any other name, that of the other extractor as well, it is read as the
open map of its fields. -/
theorem ofBlob?_record {p : String} (hp : m.extractorPlatform? = some p) (hr : m.InRange)
    (source now : String) :
    (ofBlob? (m.toBlob source now) = some m ↔ m.platform? = some p)
      ∧ (m.platform? ≠ some p → ofBlob? (m.toBlob source now) = some (.untyped m.fields)) := by
  obtain ⟨hstored, hread⟩ := ofFields_storedFields_record hp source now
  rw [ofBlob?_toBlob (hr.fits hp), hstored, hread]
  by_cases hname : m.platform? = some p
  · rw [if_pos hname]
    exact ⟨⟨fun _ => hname, fun _ => rfl⟩, fun hne => absurd hname hne⟩
  · rw [if_neg hname]
    refine ⟨⟨fun heq => ?_, fun h => absurd h hname⟩, fun _ => rfl⟩
    -- an open map is no record
    cases m with
    | component c => cases heq
    | document d => cases heq
    | untyped fields => cases hp

/-- The record of one component file under any name of a platform. -/
def buttonFacts (platform : String) : Metadata := .component {
  filePath := "src/Button.tsx"
  componentName := "Bu\"tt\nön"
  jsxElements := ["button", ""]
  exports := []
  imports := ["react"]
  lineCount := 0
  fileSize := 18446744073709551615
  lastModified := "2024-01-02T00:00:00.000Z"
  hasDefaultExport := true
  hasNamedExports := false
  extractedAt := ""
  platform := platform }

theorem ofBlob?_record_buttonFacts :
    ofBlob? ((buttonFacts "react").toBlob "s" "now") = some (buttonFacts "react")
      ∧ ofBlob? ((buttonFacts "docs").toBlob "s" "now")
        = some (.untyped (buttonFacts "docs").fields) := by
  have hrange (platform : String) : (buttonFacts platform).InRange :=
    show 0 < Word.count 64 ∧ 18446744073709551615 < Word.count 64 by decide
  exact ⟨(ofBlob?_record rfl (hrange "react") "s" "now").1.2 rfl,
    (ofBlob?_record rfl (hrange "docs") "s" "now").2 (by decide)⟩

end Metadata

end ContentGraph
