import ContentGraph.Corpus
import ContentGraph.Text.Utf8
import ContentGraph.Toml.Document
import ContentGraph.Word

/-!
# Settings

What a settings file says: where assets are stored, the address of the server, and which
extractors are on. The file is TOML; names that mean nothing here are passed over. A record may
also be written as an array of its fields in order.
-/

namespace ContentGraph

/-- Where and how assets are stored. -/
structure StoreSettings where
  path : String
  maxConnections : Nat := 5
  acquireTimeoutSecs : Nat := 30
deriving Repr, DecidableEq

/-- What a settings file says. -/
structure Settings where
  store : StoreSettings
  /-- The address that the server listens on. -/
  address : String := "127.0.0.1:7340"
  components : Option Corpus := none
  documents : Option Corpus := none
deriving Repr, DecidableEq

namespace Settings

/-- Why settings cannot be used. -/
inductive Fault
  /-- The file cannot be read as text. -/
  | unreadable (path : String)
  /-- The text holds no settings. -/
  | malformed
  | noConnections
  | noTimeout
  /-- The named extractor has no pattern to include. -/
  | noPatterns (extractor : String)
deriving Repr, DecidableEq

/-- The wording of a fault. -/
def Fault.message : Fault → String
  | .unreadable path => "Failed to read config file: " ++ path
  | .malformed => "Failed to parse config file"
  | .noConnections => "store.max_connections must be >= 1"
  | .noTimeout => "store.acquire_timeout_secs must be >= 1"
  | .noPatterns extractor => "extractors." ++ extractor ++ ".include_patterns must not be empty"

/-! ## Reading -/

open Toml

/-- A field that has a default: absent, it is the default; of another shape, a fault. -/
def fieldOr {α : Type} (name : String) (place : Nat) (read : Value → Option α) (default : α)
    (v : Value) : Option α :=
  match v.field? name place with
  | some w => read w
  | none => some default

/-- A field that may be left out, though not where fields go by place. -/
def optionalField {α : Type} (name : String) (place : Nat) (read : Value → Option α)
    (v : Value) : Option (Option α) :=
  match v.field? name place with
  | some w => (read w).map some
  | none => if v.isPlaced then none else some none

/-- Store settings; the pool has at most 2³² - 1 connections. -/
def readStore (v : Value) : Option StoreSettings := do
  let path ← (← v.field? "path" 0).string?
  let maxConnections ← fieldOr "max_connections" 1 (Value.natural? (Word.count 32 - 1)) 5 v
  let acquireTimeoutSecs ← fieldOr "acquire_timeout_secs" 2 (Value.natural? (Word.count 64 - 1)) 30 v
  return { path, maxConnections, acquireTimeoutSecs }

/-- The address in the server's section. -/
def readAddress (v : Value) : Option String :=
  if v.isRecord then fieldOr "bind" 0 Value.string? "127.0.0.1:7340" v else none

/-- A corpus, of which all but the root has defaults. -/
def readCorpus (defaults : String → Corpus) (v : Value) : Option Corpus := do
  let d := defaults (← (← v.field? "root" 0).string?)
  let includes ← fieldOr "include_patterns" 1 Value.strings? d.includes v
  let excludes ← fieldOr "exclude_patterns" 2 Value.strings? d.excludes v
  let followLinks ← fieldOr "follow_symlinks" 3 Value.boolean? d.followLinks v
  return { d with includes, excludes, followLinks }

/-- The corpora in the extractors' section. -/
def readCorpora (v : Value) : Option (Option Corpus × Option Corpus) :=
  if v.isRecord then do
    let components ← optionalField "components" 0 (readCorpus .components) v
    let documents ← optionalField "documents" 1 (readCorpus .documents) v
    return (components, documents)
  else none

/-- Settings as they are written. -/
def ofDocument? (v : Value) : Option Settings := do
  let store ← readStore (← v.field? "store" 0)
  let address ← fieldOr "server" 1 readAddress "127.0.0.1:7340" v
  let (components, documents) ← fieldOr "extractors" 2 readCorpora (none, none) v
  return { store, address, components, documents }

/-! ## Checking -/

/-- The first fault of settings that were read. -/
def fault? (s : Settings) : Option Fault :=
  if s.store.maxConnections = 0 then some .noConnections
  else if s.store.acquireTimeoutSecs = 0 then some .noTimeout
  else if s.components.any (·.includes.isEmpty) then some (.noPatterns "components")
  else if s.documents.any (·.includes.isEmpty) then some (.noPatterns "documents")
  else none

/-- Reads and checks the settings in a text. -/
def parse (text : String) : Except Fault Settings :=
  match (Toml.parse? text).bind ofDocument? with
  | none => .error .malformed
  | some s =>
    match s.fault? with
    | some e => .error e
    | none => .ok s

/-- Reads and checks the settings in a file; `bytes` is what it holds, if it can be read. -/
def load (path : String) (bytes : Option (List UInt8)) : Except Fault Settings :=
  match bytes.map Utf8.decode with
  | some (.ok s) => parse (String.ofList s)
  | _ => .error (.unreadable path)

end Settings

end ContentGraph
