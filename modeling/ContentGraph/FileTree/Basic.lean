import ContentGraph.Path.Basic
import ContentGraph.Time

/-!
# File trees

A tree of directories, files and symbolic links, and a working directory in it. A path is walked
piece by piece; a link is replaced by its target, at most forty times.
-/

namespace ContentGraph

/-- A file, a directory or a symbolic link. -/
inductive FileNode
  | file (bytes : List UInt8) (modified : Millis)
  | directory (entries : List (String × FileNode))
  | link (target : String)
deriving Repr, Inhabited

/-- Why a path cannot be used. -/
inductive FileFault
  | missing
  | notDirectory
  | isDirectory
  | taken
  | tooManyLinks
deriving Repr, DecidableEq

/-- The wording of a fault, with the number that systems give it. -/
def FileFault.message : FileFault → String
  | .missing => "No such file or directory (os error 2)"
  | .notDirectory => "Not a directory (os error 20)"
  | .isDirectory => "Is a directory (os error 21)"
  | .taken => "File exists (os error 17)"
  | .tooManyLinks => "Too many levels of symbolic links (os error 40)"

namespace FileNode

/-- The entries of a directory. -/
def entries : FileNode → List (String × FileNode)
  | .directory es => es
  | _ => []

/-- The entry of a name. -/
def find? (name : String) : List (String × FileNode) → Option FileNode
  | [] => none
  | (n, node) :: rest => if n = name then some node else find? name rest

/-- The node at a place, which is given by names and reached through directories only. -/
def at? : List String → FileNode → Option FileNode
  | [], node => some node
  | name :: rest, node => (find? name node.entries).bind (at? rest)

/-- Puts a node at a place; missing directories on the way are made. -/
def put (node : FileNode) : List String → FileNode → FileNode
  | [], _ => node
  | name :: rest, old => .directory (set name (put node rest) old.entries)
where
  /-- Changes the entry of a name, or adds one. -/
  set (name : String) (change : FileNode → FileNode) :
      List (String × FileNode) → List (String × FileNode)
    | [] => [(name, change (.directory []))]
    | (n, old) :: es => if n = name then (n, change old) :: es else (n, old) :: set name change es

/-- Takes the node at a place away. -/
def erase : List String → FileNode → FileNode
  | [name], .directory es => .directory (es.filter fun e => e.1 ≠ name)
  | name :: rest, .directory es =>
    .directory (es.map fun e => if e.1 = name then (e.1, erase rest e.2) else e)
  | _, node => node

mutual

/-- The number of directories in a tree. -/
def directories : FileNode → Nat
  | .directory es => directoriesIn es + 1
  | _ => 0

/-- The number of directories below some entries. -/
def directoriesIn : List (String × FileNode) → Nat
  | [] => 0
  | (_, node) :: rest => directories node + directoriesIn rest

end

end FileNode

/-- A tree of files and the place in it that relative paths start from. -/
structure FileTree where
  root : FileNode := .directory []
  workingDirectory : List String := []
deriving Repr, Inhabited

namespace FileTree

/-- Walks pieces of a path from a directory, whose place is given reversed. Where a link is met,
`next` walks its target and the remaining pieces. -/
def walkPieces (root : FileNode)
    (next : List String → List (List Char) → Except FileFault (List String)) :
    List String → List (List Char) → Except FileFault (List String)
  | here, [] => .ok here
  | here, piece :: rest =>
    if piece = [] ∨ piece = ['.'] then walkPieces root next here rest
    else if piece = ['.', '.'] then walkPieces root next here.tail rest
    else
      let name := String.ofList piece
      match (root.at? here.reverse).bind fun dir => FileNode.find? name dir.entries with
      | none => .error .missing
      | some (.directory _) => walkPieces root next (name :: here) rest
      | some (.link target) =>
        let pieces := Path.splitOn '/' target.toList
        next (if Path.isAbsolute target.toList then [] else here) (pieces ++ rest)
      | some (.file _ _) => if rest.isEmpty then .ok (name :: here) else .error .notDirectory

/-- Walks pieces of a path through at most so many links. -/
def resolve (root : FileNode) :
    Nat → List String → List (List Char) → Except FileFault (List String)
  | 0, _, _ => .error .tooManyLinks
  | links + 1, here, pieces => walkPieces root (resolve root links) here pieces

/-- The most links on a way. -/
def maxLinks : Nat := 40

/-- The place that a path leads to. -/
def locate (t : FileTree) (path : String) : Except FileFault (List String) :=
  let s := path.toList
  if s.isEmpty then .error .missing
  else
    let start := if Path.isAbsolute s then [] else t.workingDirectory.reverse
    (resolve t.root (maxLinks + 1) start (Path.splitOn '/' s)).map List.reverse

/-- The node that a path leads to. -/
def node (t : FileTree) (path : String) : Except FileFault FileNode := do
  match t.root.at? (← t.locate path) with
  | some node => .ok node
  | none => .error .missing

/-- Holds when a path leads to a directory. -/
def isDirectory (t : FileTree) (path : String) : Bool :=
  match t.node path with
  | .ok (.directory _) => true
  | _ => false

/-- Holds when a path leads to a file. -/
def isFile (t : FileTree) (path : String) : Bool :=
  match t.node path with
  | .ok (.file _ _) => true
  | _ => false

/-- The bytes of a file and the time of its last change. -/
def read (t : FileTree) (path : String) : Except FileFault (List UInt8 × Millis) := do
  match ← t.node path with
  | .file bytes modified => .ok (bytes, modified)
  | _ => .error .isDirectory

/-! ## Making entries -/

/-- The place for a new entry of a directory that is there. -/
def newPlace (t : FileTree) (path : String) : Except FileFault (List String) := do
  let s := (path.toList.reverse.dropWhile (· == '/')).reverse
  let name := (s.reverse.takeWhile (· != '/')).reverse
  let front := s.take (s.length - name.length)
  let place ← t.locate (String.ofList (if front.isEmpty then ['.'] else front))
  return place ++ [String.ofList name]

/-- Makes one directory. -/
def makeDirectory (t : FileTree) (path : String) : Except FileFault FileTree :=
  let s := (path.toList.reverse.dropWhile (· == '/')).reverse
  match t.locate (String.ofList s) with
  | .ok _ => .error .taken
  | .error .missing => do
    return { t with root := FileNode.put (.directory []) (← t.newPlace path) t.root }
  | .error e => .error e

/-- Makes a directory and those on the way that are missing; one that is there is left. -/
def makeDirectories (t : FileTree) : Nat → String → Except FileFault FileTree
  | 0, _ => .error .missing
  | fuel + 1, path =>
    if path.isEmpty then .ok t
    else
      match t.makeDirectory path with
      | .ok t => .ok t
      | .error .missing =>
        match Path.parent? path.toList with
        | none => .error .missing
        | some parent => do
          let t ← t.makeDirectories fuel (String.ofList parent)
          match t.makeDirectory path with
          | .ok t => .ok t
          | .error e => if t.isDirectory path then .ok t else .error e
      | .error e => if t.isDirectory path then .ok t else .error e

/-- Writes a file, which need not be there. -/
def write (t : FileTree) (path : String) (bytes : List UInt8) (modified : Millis) :
    Except FileFault FileTree := do
  if t.isDirectory path then throw .isDirectory
  let place ← match t.locate path with
    | .ok place => .ok place
    | .error .missing => t.newPlace path
    | .error e => .error e
  return { t with root := FileNode.put (.file bytes modified) place t.root }

end FileTree

end ContentGraph
