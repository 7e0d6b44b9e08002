import ContentGraph.Asset.Basic
import ContentGraph.Asset.Id
import ContentGraph.Digest.Sha256
import ContentGraph.Document.Heading

/-!
# Document records

The asset that is stored for a document; a blank document has none.
-/

namespace ContentGraph.Document

/-- The source tag of documents. -/
def sourceTag : String := "document"

/-- The asset of a document at a relative path; `modified` is the time of its last change. -/
def toAsset? (relative text modified now : String) : Option Asset :=
  let body := Text.trim text.toList
  if body.isEmpty then none
  else some {
    id := documentId relative
    title := title relative text
    content := String.ofList body
    type := .blogPost
    source := sourceTag
    metadata := .document {
      filePath := relative
      headings := headings text
      wordCount := (Text.words body).length
      contentHash := Sha256.hex text.toUTF8.data
      lastModified := modified
      extractedAt := now
      platform := documentPlatform } }

end ContentGraph.Document
