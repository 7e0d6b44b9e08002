import ContentGraph.Asset.Id
import ContentGraph.FileTree.Basic

/-!
# Links between components

A module name that starts with `./` or `../` is relative: it is resolved against the directory of
the importing file, and names one of several candidate files. The first candidate that is a file
is linked by its id.
-/

namespace ContentGraph.Component

/-- Holds for the module names that are resolved. -/
def isRelative (specifier : List Char) : Bool :=
  ['.', '/'].isPrefixOf specifier || ['.', '.', '/'].isPrefixOf specifier

/-- Takes one step from a directory, whose names are given reversed; `none` above the root. -/
def stepFrom? (dir : List (List Char)) (segment : List Char) : Option (List (List Char)) :=
  if segment = [] ∨ segment = ['.'] then some dir
  else if segment = ['.', '.'] then
    match dir with
    | [] => none
    | _ :: up => some up
  else some (segment :: dir)

/-- Takes steps from a directory. -/
def stepsFrom? (dir : List (List Char)) : List (List Char) → Option (List (List Char))
  | [] => some dir
  | segment :: rest => (stepFrom? dir segment).bind fun dir => stepsFrom? dir rest

/-- The relative path that a relative module name means in a file, without an extension added. -/
def resolveRelative (importer specifier : List Char) : Option (List Char) :=
  if isRelative specifier then
    let dir := (Path.splitOn '/' importer).reverse.tail
    (stepsFrom? dir (Path.splitOn '/' specifier)).map fun names =>
      Path.joinSlash names.reverse
  else none

/-- The extensions that a module name may leave out, the preferred one first. -/
def moduleExtensions : List (List Char) :=
  [['t', 's', 'x'], ['j', 's', 'x'], ['t', 's'], ['j', 's']]

/-- The files that a resolved module name may mean, in order: the name itself if it has one of the
extensions, the name with an extension, and the index file of a directory. -/
def moduleFiles (base : List Char) : List (List Char) :=
  let known := (Path.extension? base).any (· ∈ moduleExtensions)
  (if known then [base] else [])
    ++ moduleExtensions.map (fun e => base ++ '.' :: e)
    ++ moduleExtensions.map (fun e => base ++ "/index.".toList ++ e)

/-- The file below a root that a module name in a file means. -/
def linkedFile? (tree : FileTree) (root importer specifier : String) : Option String :=
  (resolveRelative importer.toList specifier.toList).bind fun base =>
    ((moduleFiles base).find? fun file =>
      tree.isFile (String.ofList (Path.join root.toList file))).map String.ofList

/-- Adds an id unless it is there or is the importing file's own. -/
def addLink (own : String) (links : List String) (id : String) : List String :=
  if id = own ∨ id ∈ links then links else links ++ [id]

/-- The ids of the files that a file's imports mean, each once, without its own. -/
def linksOf (tree : FileTree) (root importer : String) (imports : List String) : List String :=
  (imports.filterMap fun s => (linkedFile? tree root importer s).map componentId).foldl
    (addLink (componentId importer)) []

end ContentGraph.Component
