import ContentGraph.Command.Execution
import Std.Time.DateTime.Timestamp

/-!
# Command line

Reads the files that a command works on into a tree, carries the command out on that tree, prints
what it printed and writes its store back.
-/

namespace ContentGraph.Main

/-- What was read of the file system, and the directories whose entries were. -/
structure View where
  tree : FileTree
  listed : List (List String) := []

/-- Reads of the file system that add to a view. -/
abbrev ViewM := StateT View IO

/-- The names on the way of a path. -/
def names (path : String) : List String := (path.splitOn "/").filter (· ≠ "")

/-- The path of a place. -/
def pathOf (place : List String) : String := "/" ++ "/".intercalate place

/-- A path that leads nowhere, as no name of a file has a zero in it. -/
def nowhere : String := "/\x00"

/-- Adds a node at a place. -/
def add (place : List String) (node : FileNode) : ViewM Unit :=
  modify fun v => { v with tree.root := FileNode.put node place v.tree.root }

/-- The bytes of a file and the time of its last change; a file that cannot be read is empty. -/
def readFile (path : String) (seconds : Int) (nanos : Nat) : IO FileNode := do
  let bytes := match ← (IO.FS.readBinFile path).toBaseIO with
    | .ok bytes => bytes.toList
    | .error _ => []
  return .file bytes (seconds * 1000 + nanos / 1000000)

/-- Adds what lies on a way, and tells the place that the way ends at. -/
partial def follow (here : List String) : List String → ViewM (List String)
  | [] => return here
  | "." :: rest => follow here rest
  | ".." :: rest => follow here.dropLast rest
  | name :: rest => do
    let place := here ++ [name]
    let path := (← IO.currentDir) / pathOf place
    match ← path.symlinkMetadata.toBaseIO with
    | .error _ => return place
    | .ok found =>
      match found.type with
      | .symlink =>
        match ← (IO.FS.realPath path).toBaseIO with
        | .ok target =>
          add place (.link target.toString)
          follow [] (names target.toString ++ rest)
        | .error _ =>
          add place (.link nowhere)
          return place
      | .dir =>
        if ((← get).tree.root.at? place).isNone then add place (.directory [])
        follow place rest
      | .file =>
        add place (← readFile (pathOf place) found.modified.sec found.modified.nsec.toNat)
        follow place rest
      | .other => return place

/-- Adds what lies at the end of a way and all below it. -/
partial def gather (way : List String) : ViewM Unit := do
  let place ← follow [] way
  let path := (← IO.currentDir) / pathOf place
  if (← path.isDir) && !(← get).listed.contains place then
    modify fun v => { v with listed := place :: v.listed }
    if let .ok entries ← path.readDir.toBaseIO then
      for entry in entries do gather (place ++ [entry.fileName])

/-- The names on the way of a path from the working directory. -/
def wayOf (path : String) : IO (List String) :=
  return names ((← IO.currentDir) / path).toString

/-- Adds the files that a command works on. -/
def gatherFor (invocation : Command.Invocation) : ViewM Unit := do
  discard (follow [] (← wayOf invocation.settings))
  if let .ok settings := invocation.load (← get).tree then
    discard (follow [] (← wayOf settings.store.path))
    for root in invocation.command.sources settings do gather (← wayOf root)

/-- Writes the store back if a command changed its file. -/
def writeBack (path : String) (before after : FileTree) : IO Unit := do
  match after.read path with
  | .error _ => return
  | .ok (bytes, _) =>
    unless (before.read path).toOption.map (·.1) = some bytes do
      if let some parent := Path.parent? path.toList then
        unless parent.isEmpty do IO.FS.createDirAll (String.ofList parent)
      IO.FS.writeBinFile path (ByteArray.mk bytes.toArray)

end ContentGraph.Main

open ContentGraph in
/-- Runs the program on the files that its arguments point to. -/
def main (args : List String) : IO UInt32 := do
  let home := Main.names (← IO.currentDir).toString
  let now := (← Std.Time.Timestamp.now).toMillisecondsSinceUnixEpoch.val
  let invocation? := (Command.parse args).toOption
  let mut tree : FileTree := { workingDirectory := home }
  if let some invocation := invocation? then
    tree := (← (Main.gatherFor invocation).run { tree }).2.tree
  let (exit, after) := Command.program tree (fun _ => now) args
  if let some settings := invocation?.bind (·.load tree |>.toOption) then
    Main.writeBack settings.store.path tree after
  IO.print exit.stdout
  IO.eprint exit.stderr
  return exit.code.toUInt32
