import ContentGraph.Json.Reader
import ContentGraph.Json.Printer
import ContentGraph.Text.Blank

/-!
# Asset metadata and its stored text

Metadata is a record of facts by the component extractor or the document extractor, or an open
map of fields. It is stored as one JSON object, its *blob*. Writing fills in the extraction time
and the platform where they are missing; reading chooses the record by the platform and falls
back on the open map.
-/

namespace ContentGraph

/-- The platform of the component extractor. -/
def componentPlatform : String := "react"

/-- The platform of the document extractor. -/
def documentPlatform : String := "docs"

/-- Facts about one component file. -/
structure ComponentFacts where
  filePath : String
  componentName : String
  jsxElements : List String
  exports : List String
  /-- Module names of other packages. -/
  imports : List String
  lineCount : Nat
  fileSize : Nat
  lastModified : String
  hasDefaultExport : Bool
  hasNamedExports : Bool
  extractedAt : String
  platform : String
deriving Repr, DecidableEq, BEq

/-- Facts about one document. -/
structure DocumentFacts where
  filePath : String
  headings : List String
  wordCount : Nat
  contentHash : String
  lastModified : String
  extractedAt : String
  platform : String
deriving Repr, DecidableEq, BEq

/-- What is known about an asset beside its text. -/
inductive Metadata
  | component (facts : ComponentFacts)
  | document (facts : DocumentFacts)
  | untyped (fields : Fields)
deriving Repr, BEq

/-! ## Fields -/

/-- The fields of a component record. -/
def ComponentFacts.fields (m : ComponentFacts) : Fields := Fields.ofList [
  ("filePath", .string m.filePath),
  ("componentName", .string m.componentName),
  ("jsxElements", .ofStrings m.jsxElements),
  ("exports", .ofStrings m.exports),
  ("imports", .ofStrings m.imports),
  ("lineCount", .ofNat m.lineCount),
  ("fileSize", .ofNat m.fileSize),
  ("lastModified", .string m.lastModified),
  ("hasDefaultExport", .bool m.hasDefaultExport),
  ("hasNamedExports", .bool m.hasNamedExports),
  ("extractedAt", .string m.extractedAt),
  ("platform", .string m.platform)]

/-- Builds a component record from a look-up by name and position. -/
def ComponentFacts.build? (get? : String → Nat → Option Json) : Option ComponentFacts := do
  return {
    filePath := ← (← get? "filePath" 0).string?
    componentName := ← (← get? "componentName" 1).string?
    jsxElements := ← (← get? "jsxElements" 2).strings?
    exports := ← (← get? "exports" 3).strings?
    imports := ← (← get? "imports" 4).strings?
    lineCount := ← (← get? "lineCount" 5).natural?
    fileSize := ← (← get? "fileSize" 6).natural?
    lastModified := ← (← get? "lastModified" 7).string?
    hasDefaultExport := ← (← get? "hasDefaultExport" 8).bool?
    hasNamedExports := ← (← get? "hasNamedExports" 9).bool?
    extractedAt := ← (← get? "extractedAt" 10).string?
    platform := ← (← get? "platform" 11).string? }

/-- The component record that some fields hold; further fields are left out. -/
def ComponentFacts.ofFields? (fields : Fields) : Option ComponentFacts :=
  build? fun name _ => fields.get? name

/-- The component record in an object, or in an array of its twelve fields. -/
def ComponentFacts.ofJson? : Json → Option ComponentFacts
  | .object fields => ofFields? fields
  | .array items => if items.length = 12 then build? fun _ i => items[i]? else none
  | _ => none

/-- The fields of a document record. -/
def DocumentFacts.fields (m : DocumentFacts) : Fields := Fields.ofList [
  ("filePath", .string m.filePath),
  ("headings", .ofStrings m.headings),
  ("wordCount", .ofNat m.wordCount),
  ("contentHash", .string m.contentHash),
  ("lastModified", .string m.lastModified),
  ("extractedAt", .string m.extractedAt),
  ("platform", .string m.platform)]

/-- Builds a document record from a look-up by name and position. -/
def DocumentFacts.build? (get? : String → Nat → Option Json) : Option DocumentFacts := do
  return {
    filePath := ← (← get? "filePath" 0).string?
    headings := ← (← get? "headings" 1).strings?
    wordCount := ← (← get? "wordCount" 2).natural?
    contentHash := ← (← get? "contentHash" 3).string?
    lastModified := ← (← get? "lastModified" 4).string?
    extractedAt := ← (← get? "extractedAt" 5).string?
    platform := ← (← get? "platform" 6).string? }

/-- The document record that some fields hold; further fields are left out. -/
def DocumentFacts.ofFields? (fields : Fields) : Option DocumentFacts :=
  build? fun name _ => fields.get? name

/-- The document record in an object, or in an array of its seven fields. -/
def DocumentFacts.ofJson? : Json → Option DocumentFacts
  | .object fields => ofFields? fields
  | .array items => if items.length = 7 then build? fun _ i => items[i]? else none
  | _ => none

namespace Metadata

/-- The fields of any metadata. -/
def fields : Metadata → Fields
  | .component m => m.fields
  | .document m => m.fields
  | .untyped fs => fs

/-- Metadata as JSON. -/
def toJson (m : Metadata) : Json := .object m.fields

/-- A text field of an open map. -/
def textField? (name : String) (fields : Fields) : Option String :=
  (fields.get? name).bind Json.string?

/-- The platform, if metadata names one. -/
def platform? : Metadata → Option String
  | .component m => some m.platform
  | .document m => some m.platform
  | .untyped fs => textField? "platform" fs

/-- The time of extraction, if metadata names one. -/
def extractedAt? : Metadata → Option String
  | .component m => some m.extractedAt
  | .document m => some m.extractedAt
  | .untyped fs => textField? "extractedAt" fs

/-! ## Blobs -/

/-- The fields that are stored: a missing extraction time is `now`, a missing platform is the
asset's source. -/
def storedFields (m : Metadata) (source now : String) : Fields :=
  (m.fields.insertNew "extractedAt" (.string now)).insertNew "platform" (.string source)

/-- The stored text of metadata. -/
def toBlob (m : Metadata) (source now : String) : String :=
  (Json.object (m.storedFields source now)).render

/-- Chooses the record by the platform; fields that do not fit one stay an open map. -/
def ofFields (fields : Fields) : Metadata :=
  let platform := (textField? "platform" fields).getD ""
  if platform = componentPlatform then
    ((ComponentFacts.ofFields? fields).map .component).getD (.untyped fields)
  else if platform = documentPlatform then
    ((DocumentFacts.ofFields? fields).map .document).getD (.untyped fields)
  else .untyped fields

/-- Reads a stored text. A blank text and a value that is no object are the empty map; a text
that is no JSON cannot be read. -/
def ofBlob? (blob : String) : Option Metadata :=
  if Text.allBlank blob.toList then some (.untyped [])
  else
    match Json.parse? blob with
    | some (.object fields) => some (ofFields fields)
    | some _ => some (.untyped [])
    | none => none

end Metadata

end ContentGraph
