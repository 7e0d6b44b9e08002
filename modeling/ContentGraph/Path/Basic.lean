import ContentGraph.Text.Utf8

/-!
# Paths

A path is cut at slashes. Empty pieces and pieces of one dot are dropped, except that a leading
slash is the root and one dot in front of a relative path is kept. The pieces may be of any
letters, so that paths of characters and paths of bytes are read alike.
-/

namespace ContentGraph.Path

/-- One piece of a path. -/
inductive Component (α : Type)
  | root
  | current
  | parent
  | name (letters : List α)
deriving Repr, DecidableEq

/-- Cuts a list at every `mark`. -/
def splitOn {α : Type} [DecidableEq α] (mark : α) : List α → List (List α)
  | [] => [[]]
  | c :: s =>
    if c = mark then [] :: splitOn mark s
    else
      match splitOn mark s with
      | piece :: rest => (c :: piece) :: rest
      | [] => [[c]]

/-- The two letters with a meaning in paths. -/
structure Marks (α : Type) where
  slash : α
  dot : α

/-- The marks of character paths. -/
def charMarks : Marks Char := ⟨'/', '.'⟩

/-- The marks of byte paths. -/
def byteMarks : Marks UInt8 := ⟨0x2F, 0x2E⟩

/-- The component of a piece between slashes that is neither empty nor one dot. -/
def component {α : Type} [DecidableEq α] (m : Marks α) (piece : List α) : Component α :=
  if piece = [m.dot, m.dot] then .parent else .name piece

/-- The components of a path. -/
def components {α : Type} [DecidableEq α] (m : Marks α) (path : List α) : List (Component α) :=
  let pieces := splitOn m.slash path
  let front :=
    if path.head? = some m.slash then [.root]
    else if pieces.head? = some [m.dot] then [.current]
    else []
  front ++ ((pieces.filter fun p => p ≠ [] ∧ p ≠ [m.dot]).map (component m))

/-- The letters of a component. -/
def Component.letters {α : Type} (m : Marks α) : Component α → List α
  | .root => [m.slash]
  | .current => [m.dot]
  | .parent => [m.dot, m.dot]
  | .name s => s

/-- Joins texts with a slash between them. -/
def joinSlash (pieces : List (List Char)) : List Char := List.intercalate ['/'] pieces

/-- The components of a path with one slash between them. -/
def normalize (path : List Char) : List Char :=
  joinSlash ((components charMarks path).map (·.letters charMarks))

/-- The same for a path of bytes, each component read with replacement. -/
def normalizeBytes (path : List UInt8) : List Char :=
  joinSlash ((components byteMarks path).map fun c => Utf8.decodeLossy (c.letters byteMarks))

/-! ## File names -/

/-- The last component, if it is a name. -/
def fileName? (path : List Char) : Option (List Char) :=
  match (components charMarks path).getLast? with
  | some (.name s) => some s
  | _ => none

/-- Cuts a file name at its last dot, unless that is its first letter. -/
def splitExtension (name : List Char) : List Char × Option (List Char) :=
  let back := name.reverse
  let extension := (back.takeWhile (· ≠ '.')).reverse
  match back.dropWhile (· ≠ '.') with
  | [] => (name, none)
  | [_] => (name, none)
  | _ :: stem => (stem.reverse, some extension)

/-- The file name without its extension. -/
def stem? (path : List Char) : Option (List Char) := (fileName? path).map fun n => (splitExtension n).1

/-- The extension of the file name. -/
def extension? (path : List Char) : Option (List Char) := (fileName? path).bind fun n => (splitExtension n).2

/-- The file stem of a path, or the path itself when it ends in no file name. -/
def stemOrSelf (path : String) : String :=
  match stem? path.toList with
  | some s => String.ofList s
  | none => path

/-! ## Joining -/

/-- Holds for paths that start at the root. -/
def isAbsolute (path : List Char) : Bool := path.head? == some '/'

/-- A path taken relative to a base; an absolute path replaces the base. -/
def join (base path : List Char) : List Char :=
  if isAbsolute path then path
  else if base.isEmpty || base.getLast? == some '/' then base ++ path
  else base ++ '/' :: path

/-- The path with its last component dropped, unless that is the root or there is none. -/
def parent? (path : List Char) : Option (List Char) :=
  let body := (path.reverse.dropWhile (· == '/')).reverse
  let dir := (body.reverse.dropWhile (· != '/')).reverse
  if body.isEmpty then none
  else
    let trimmed := (dir.reverse.dropWhile (· == '/')).reverse
    some (if trimmed.isEmpty && !dir.isEmpty then ['/'] else trimmed)

end ContentGraph.Path
