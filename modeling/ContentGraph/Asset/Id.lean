/-!
# Asset ids

The id of an asset that comes from a file is made from the file's relative path: separators and
dots become underscores, behind a tag for the kind of file.
-/

namespace ContentGraph

/-- Holds for the characters that do not stand in ids. -/
def isLocatorMark (c : Char) : Bool := c == '/' || c == '\\' || c == '.'

/-- A relative path with separators and dots replaced by underscores. -/
def locator (relative : String) : String :=
  String.ofList (relative.toList.map fun c => if isLocatorMark c then '_' else c)

/-- The id of a component file. -/
def componentId (relative : String) : String := "react_" ++ locator relative

/-- The id of a document. -/
def documentId (relative : String) : String := "docs_" ++ locator relative

end ContentGraph
