import ContentGraph.FileTree.Basic

/-!
# Walks through a file tree

A walk lists the files below a directory. Links are passed over or followed; a link that leads to
no file or back to a directory that the walk is in stops the walk with a fault.
-/

namespace ContentGraph.FileTree

/-- A file that a walk met: the path to open it, and its path relative to where the walk began. -/
structure Entry where
  path : String
  relative : String
deriving Repr, DecidableEq

/-- Why a walk stopped. -/
inductive WalkFault
  /-- A link leads to a directory that the walk is in. -/
  | loop (path ancestor : String)
  /-- A link leads nowhere. -/
  | unusable (path : String) (fault : FileFault)
deriving Repr, DecidableEq

/-- The wording of a fault. -/
def WalkFault.message : WalkFault → String
  | .loop path ancestor =>
    "File system loop found: " ++ path ++ " points to an ancestor " ++ ancestor
  | .unusable path fault => "IO error for operation on " ++ path ++ ": " ++ fault.message

/-- A directory that the walk is in: its place, and the path by which it was entered. -/
structure Open where
  place : List String
  path : String

/-- The path of an entry of a directory. -/
def entryPath (dir name : String) : String :=
  String.ofList (Path.join dir.toList name.toList)

/-- The relative path of an entry of a directory; the first directory's is empty. -/
def entryRelative (dir name : String) : String := if dir.isEmpty then name else dir ++ "/" ++ name

/-- The files in a directory and below. `inside` are the directories that the walk is in, innermost
first, starting with this one. -/
def filesBelow (t : FileTree) (follow : Bool) :
    Nat → List Open → (path relative : String) → List (String × FileNode) →
      Except WalkFault (List Entry)
  | 0, _, _, _, _ => .ok []
  | fuel + 1, inside, path, relative, entries => do
    let here := (inside.head?.map Open.place).getD []
    let found ← entries.mapM fun (name, node) =>
      let path := entryPath path name
      let relative := entryRelative relative name
      let enter (place : List String) (es : List (String × FileNode)) :=
        filesBelow t follow fuel (⟨place, path⟩ :: inside) path relative es
      match node with
      | .file _ _ => .ok [⟨path, relative⟩]
      | .directory es => enter (here ++ [name]) es
      | .link _ =>
        if follow then
          match t.locate path with
          | .error e => .error (.unusable path e)
          | .ok place =>
            match t.root.at? place with
            | some (.directory es) =>
              match inside.find? (·.place = place) with
              | some ancestor => .error (.loop path ancestor.path)
              | none => enter place es
            | _ => .ok [⟨path, relative⟩]
        else .ok []
    return found.flatten

/-- A bound for how deep directories are entered: between two links a walk only goes down, and a
link is followed to each directory at most once. -/
def depthBound (t : FileTree) : Nat := (t.root.directories + 1) * (t.root.directories + 1)

/-- The files below a directory. -/
def walk (t : FileTree) (follow : Bool) (path : String) : Except WalkFault (List Entry) :=
  match t.locate path with
  | .error e => .error (.unusable path e)
  | .ok place =>
    match t.root.at? place with
    | some (.directory es) => t.filesBelow follow t.depthBound [⟨place, path⟩] path "" es
    | _ => .ok []

end ContentGraph.FileTree
