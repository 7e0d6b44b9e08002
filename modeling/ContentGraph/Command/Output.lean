import ContentGraph.Json.Printer
import ContentGraph.Run.Record
import ContentGraph.Store.Basic
import ContentGraph.Text.Blank

/-!
# What commands print

The texts for pages of a search, single assets, reports of runs and the health of a store. Every
text is a list of lines.
-/

namespace ContentGraph.Command

/-- Lines as one text, each with a line feed at its end. -/
def ofLines (lines : List String) : String := String.join (lines.map (· ++ "\n"))

/-- A text with spaces behind it, up to a width. -/
def padRight (width : Nat) (s : String) : String :=
  s ++ String.ofList (List.replicate (width - s.length) ' ')

/-! ## Searches -/

/-- The most characters of an excerpt. -/
def excerptLength : Nat := 160

/-- The front of a text on one line. -/
def excerpt (content : String) : String :=
  let flat := Text.trim (content.toList.map fun c => if c = '\n' then ' ' else c)
  if flat.length ≤ excerptLength then String.ofList flat
  else String.ofList (Text.trimEnd (flat.take excerptLength)) ++ "…"

/-- The lines for a match, which are numbered from one. -/
def matchLines (number : Nat) (a : Asset) : List String := [
  toString number ++ ". [" ++ a.type.name ++ "] " ++ a.source ++ " / " ++ a.title,
  "    excerpt: \"" ++ excerpt a.content ++ "\"",
  "    id: " ++ a.id,
  ""]

/-- The lines for a page. -/
def pageLines (p : Page) : List String :=
  if p.items.isEmpty then ["No results."]
  else
    (p.items.zipIdx.flatMap fun (a, i) => matchLines (i + 1) a)
      ++ (if p.hasMore then ["More results available; raise --limit to see them."] else [])

/-! ## Assets -/

/-- The lines for metadata. -/
def metadataLines : Metadata → List String
  | .component m => [
      "file:     " ++ m.filePath,
      "elements: " ++ ", ".intercalate m.jsxElements,
      "exports:  " ++ ", ".intercalate m.exports,
      "imports:  " ++ ", ".intercalate m.imports]
  | .document m => [
      "file:     " ++ m.filePath,
      "words:    " ++ toString m.wordCount,
      "sha256:   " ++ m.contentHash]
  | .untyped fields => ["metadata: " ++ (Json.object fields).render]

/-- The lines for edges, if there are any. -/
def edgeLines (edges : List Edge) : List String :=
  if edges.isEmpty then []
  else ("--- Relationships (" ++ toString edges.length ++ ") ---")
    :: edges.map fun e => e.origin ++ " -[" ++ e.kind ++ "]-> " ++ e.target

/-- The lines for an asset and the edges that touch it. -/
def assetLines (a : Asset) (edges : List Edge) : List String :=
  ["--- Asset ---",
    "id:       " ++ a.id,
    "title:    " ++ a.title,
    "type:     " ++ a.type.name,
    "source:   " ++ a.source]
  ++ (a.metadata.platform?.map ("platform: " ++ ·)).toList
  ++ (a.metadata.extractedAt?.map ("extracted_at: " ++ ·)).toList
  ++ metadataLines a.metadata
  ++ ["", "--- Content ---", a.content, ""]
  ++ edgeLines edges

/-! ## Runs -/

/-- The lines for a run of a platform. -/
def runLines (platform : String) (o : RunOutcome) : List String :=
  ["extract " ++ platform,
    "  total files: " ++ toString o.report.totalFiles,
    "  processed: " ++ toString o.report.processedFiles,
    "  extracted: " ++ toString o.report.extractedComponents,
    "  errors: " ++ toString o.report.errors.length]
  ++ o.report.errors.map ("    " ++ ·)
  ++ ["  duration: " ++ toString o.report.duration ++ "ms",
    if o.isCompleted then "ok" else "failed"]

/-! ## Health and ledgers -/

/-- The lines for recent extractions, if there are any. -/
def recentLines (recent : List RecentExtraction) : List String :=
  if recent.isEmpty then []
  else ["", "  " ++ padRight 16 "PLATFORM" ++ " UPDATED"]
    ++ recent.map fun r => "  " ++ padRight 16 r.platform ++ " " ++ r.updatedAt.iso

/-- The lines for the health of a store. -/
def healthLines (h : Health) : List String :=
  ["Knowledge Harness: Store Status", "=================================", ""]
  ++ match h with
    | .disconnected error => ["  Connected:   no", "  Error:       " ++ error]
    | .connected engine assets recent => [
        "  Connected:   yes",
        "  Backend:     " ++ engine.name ++ " " ++ engine.version ++ " (" ++ engine.edition ++ ")",
        "  Assets:      " ++ toString assets]
      ++ recentLines recent

/-- The counts of a ledger that are shown. -/
def shownCounts : List String :=
  ["totalFiles", "processedFiles", "extractedComponents", "errors", "duration"]

/-- The lines for the ledger of a platform. -/
def ledgerLines (platform : String) : Option LedgerEntry → List String
  | none => ["  " ++ platform, "    never extracted"]
  | some e => ["  " ++ platform, "    last extraction:  " ++ e.lastExtraction?.getD "-"]
      ++ shownCounts.filterMap fun key => (e.count? key).map fun n =>
        "    " ++ padRight 18 (key ++ ":") ++ toString n

/-- The lines for errors, if there are any. -/
def errorLines (errors : List LoggedError) : List String :=
  if errors.isEmpty then []
  else "    recent errors:" :: errors.map fun e => "      " ++ e.createdAt.iso ++ "  " ++ e.message

end ContentGraph.Command
