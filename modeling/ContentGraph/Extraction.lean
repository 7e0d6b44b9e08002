import ContentGraph.Component.Link
import ContentGraph.Component.Record
import ContentGraph.Discovery
import ContentGraph.Document.Record
import ContentGraph.Settings

/-!
# Extraction

An extractor lists the files of its corpus and turns each into at most one asset and links to
other assets. There is one for components and one for documents.
-/

namespace ContentGraph

open Discovery (Candidate)

/-- What a file yields: an asset, and the ids of the assets that it imports. -/
structure Extraction where
  asset : Asset
  links : List String := []
deriving Repr, BEq

/-- Why a file yields nothing. -/
inductive SourceFault
  | unreadable (path : String) (fault : FileFault)
  | notText (path : String) (fault : Utf8.Malformed)
  | unparsed (path reason : String)
deriving Repr, DecidableEq

/-- The wording of a fault. -/
def SourceFault.message : SourceFault → String
  | .unreadable path fault => "failed to read " ++ path ++ ": " ++ fault.message
  | .notText path fault => "failed to read " ++ path ++ ": " ++ fault.message
  | .unparsed path reason => "failed to parse " ++ path ++ ": " ++ reason

/-- A producer of assets for one platform. -/
structure Extractor where
  /-- The key of its ledger. -/
  platform : String
  /-- The source tag of its assets. -/
  source : String
  discover : FileTree → Except Discovery.Fault (List Candidate)
  /-- What a file yields at a time; nothing if it holds nothing worth storing. -/
  extract : FileTree → Millis → Candidate → Except SourceFault (Option Extraction)

/-- Reads a file as text, with its size in bytes and the time of its last change. -/
def readSource (tree : FileTree) (path : String) :
    Except SourceFault (String × Nat × Millis) :=
  match tree.read path with
  | .error e => .error (.unreadable path e)
  | .ok (bytes, modified) =>
    match Utf8.decode bytes with
    | .error e => .error (.notText path e)
    | .ok s => .ok (String.ofList s, bytes.length, modified)

/-- The wording for a component file that is not well formed. -/
def syntaxReason : String := "syntax error"

/-- What a component file yields. -/
def extractComponent (corpus : Corpus) (tree : FileTree) (now : Millis) (file : Candidate) :
    Except SourceFault (Option Extraction) := do
  let (text, size, modified) ← readSource tree file.path
  match Component.analyze? text with
  | none => .error (.unparsed file.path syntaxReason)
  | some info =>
    if info.isExtractable then
      let links := Component.linksOf tree corpus.root file.relative info.imports
      let stats := ⟨Text.lineCount text.toList, size, Millis.iso modified⟩
      return some ⟨Component.toAsset file.relative info stats now.iso, links⟩
    else return none

/-- What a document yields. -/
def extractDocument (tree : FileTree) (now : Millis) (file : Candidate) :
    Except SourceFault (Option Extraction) := do
  let (text, _, modified) ← readSource tree file.path
  return (Document.toAsset? file.relative text (Millis.iso modified) now.iso).map (⟨·, []⟩)

/-- The extractor of components in a corpus. -/
def Extractor.components (corpus : Corpus) : Extractor where
  platform := componentPlatform
  source := Component.sourceTag
  discover tree := Discovery.discover tree corpus
  extract := extractComponent corpus

/-- The extractor of documents in a corpus. -/
def Extractor.documents (corpus : Corpus) : Extractor where
  platform := documentPlatform
  source := Document.sourceTag
  discover tree := Discovery.discover tree corpus
  extract := extractDocument

/-- The extractors that settings turn on. -/
def Settings.extractors (s : Settings) : List Extractor :=
  (s.components.map Extractor.components).toList ++ (s.documents.map Extractor.documents).toList

/-- The extractor of a platform, if it is on. -/
def Settings.extractor? (s : Settings) (platform : String) : Option Extractor :=
  s.extractors.find? (·.platform = platform)

end ContentGraph
