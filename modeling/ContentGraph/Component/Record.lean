import ContentGraph.Asset.Basic
import ContentGraph.Asset.Id
import ContentGraph.Component.Analysis
import ContentGraph.Path.Basic

/-!
# Component records

The asset that is stored for an analysed component file.
-/

namespace ContentGraph.Component

/-- The source tag of component assets. -/
def sourceTag : String := "react_component"

/-- What the file system tells about a file. -/
structure FileStats where
  lineCount : Nat
  fileSize : Nat
  lastModified : String
deriving Repr, DecidableEq

/-- Holds for the names of modules that an asset lists: those that start with no dot. -/
def isListed (specifier : String) : Bool := specifier.toList.head? != some '.'

/-- The asset of a component file at a relative path. -/
def toAsset (relative : String) (info : Info) (stats : FileStats) (now : String) : Asset :=
  let name := Path.stemOrSelf relative
  { id := componentId relative
    title := "React Component: " ++ name
    content := info.content
    type := .asset
    source := sourceTag
    metadata := .component {
      filePath := relative
      componentName := name
      jsxElements := info.jsxElements
      exports := info.exports
      imports := info.imports.filter isListed
      lineCount := stats.lineCount
      fileSize := stats.fileSize
      lastModified := stats.lastModified
      hasDefaultExport := info.hasDefaultExport
      hasNamedExports := info.hasNamedExports
      extractedAt := now
      platform := componentPlatform } }

end ContentGraph.Component
