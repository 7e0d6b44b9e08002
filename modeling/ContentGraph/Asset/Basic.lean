import ContentGraph.Asset.Metadata
import ContentGraph.Json.Decode

/-!
# Assets

The unit that is stored and found: a text with a title, a type from a closed set, the tag of its
source, and metadata.
-/

namespace ContentGraph

/-- The kinds of asset. -/
inductive AssetType
  /-- A narrative document. -/
  | blogPost
  /-- An operational data record. -/
  | operationalData
  /-- A component or other thing derived from code. -/
  | asset
  /-- A configuration record. -/
  | configuration
deriving Repr, DecidableEq, Inhabited

namespace AssetType

/-- The written name of a type. -/
def name : AssetType → String
  | .blogPost => "blog-post"
  | .operationalData => "operational-data"
  | .asset => "asset"
  | .configuration => "configuration"

/-- The type of a written name. -/
def ofName? (s : String) : Option AssetType :=
  if s = "blog-post" then some .blogPost
  else if s = "operational-data" then some .operationalData
  else if s = "asset" then some .asset
  else if s = "configuration" then some .configuration
  else none

/-- The wording for a name that is no type. -/
def unknownMessage (s : String) : String :=
  "unknown content type '" ++ s
    ++ "'. Must be blog-post, operational-data, asset, or configuration."

/-- Decodes a type from JSON text. -/
def decoder : Json.Decoder AssetType := Json.decodeName ofName?

@[simp] theorem ofName?_name (t : AssetType) : ofName? t.name = some t := by
  cases t <;> decide

theorem ofName?_eq_some_iff {s : String} {t : AssetType} : ofName? s = some t ↔ s = t.name := by
  constructor
  · intro h
    unfold ofName? at h
    repeat' split at h
    all_goals cases h
    all_goals assumption
  · rintro rfl
    exact ofName?_name t

end AssetType

/-- A stored unit of knowledge. -/
structure Asset where
  id : String
  title : String
  content : String
  type : AssetType
  source : String
  metadata : Metadata
deriving Repr, BEq

/-- An asset as JSON. -/
def Asset.toJson (a : Asset) : Json := .ofFields [
  ("id", .string a.id),
  ("title", .string a.title),
  ("content", .string a.content),
  ("type", .string a.type.name),
  ("source", .string a.source),
  ("metadata", a.metadata.toJson)]

end ContentGraph
