import ContentGraph.Toml.Scalar

/-!
# TOML documents

Keys, arrays, tables in braces, and the lines of a document. Arrays and tables in braces nest at
most 79 levels deep, and a key has at most 79 parts. Recursion is on the room that is left for
nesting; loops inside one level have a budget, which `parse?` sets to the length of the text.
-/

namespace ContentGraph.Toml

open Text

/-! ## Keys -/

/-- The characters of keys without quotes. -/
def isKeyChar (c : Char) : Bool := isLetter c || isDigit c || c == '_' || c == '-'

/-- Reads one part of a key. -/
def keyPart : Reader String := fun s =>
  match lineString s with
  | some r => some r
  | none =>
    let word := s.takeWhile isKeyChar
    if word.isEmpty then none else some (String.ofList word, s.drop word.length)

/-- Reads the parts of a key, with dots between and blanks around each. -/
def keyParts : Nat → Reader (List String)
  | 0, _ => none
  | fuel + 1, s =>
    match keyPart (skipBlanks s) with
    | none => none
    | some (k, s) =>
      match skipBlanks s with
      | '.' :: s => (keyParts fuel s).map fun (ks, s) => (k :: ks, s)
      | s => some ([k], s)

/-- The most parts that a key may have. -/
def maxKeyParts : Nat := 79

/-- Reads a key: the tables on its way, and its last part. -/
def key : Reader (List String × String) := fun s =>
  match keyParts maxKeyParts s with
  | some (ks, s) => ks.getLast?.map fun k => ((ks.dropLast, k), s)
  | none => none

/-! ## Values -/

/-- Drops blanks, comments and line ends. -/
def skipGap : Nat → List Char → List Char
  | 0, s => s
  | fuel + 1, s =>
    match dropNewline? (skipComment (skipBlanks s)) with
    | some s => skipGap fuel s
    | none => skipBlanks s

/-- Reads items up to the closing bracket; `done` is reversed. -/
def arrayItems (item : Reader Value) : Nat → List Value → Reader (List Value)
  | 0, _, _ => none
  | fuel + 1, done, s =>
    match skipGap (s.length + 1) s with
    | ']' :: s => some (done.reverse, s)
    | s =>
      match item s with
      | none => none
      | some (v, s) =>
        match skipGap (s.length + 1) s with
        | ',' :: s => arrayItems item fuel (v :: done) s
        | ']' :: s => some ((v :: done).reverse, s)
        | _ => none

/-- Reads entries up to the closing brace into a table. -/
def braceEntries (item : Reader Value) : Nat → Value → Reader Value
  | 0, _, _ => none
  | fuel + 1, t, s =>
    match key s with
    | some ((path, k), '=' :: s) =>
      match item (skipBlanks s) with
      | none => none
      | some (v, s) =>
        match assign path k v t with
        | none => none
        | some t =>
          match skipBlanks s with
          | ',' :: s => braceEntries item fuel t s
          | '}' :: s => some (t, s)
          | _ => none
    | _ => none

/-- Reads a value with `room` levels of nesting left, from a text of at most `fuel` characters. -/
def value (fuel : Nat) : Nat → Reader Value
  | 0 => scalar
  | room + 1 => fun s =>
    match s with
    | '[' :: s => (arrayItems (value fuel room) fuel [] s).map fun (vs, s) => (.array vs, s)
    | '{' :: s =>
      match skipBlanks s with
      | '}' :: s => some (.table .braces [], s)
      | s => braceEntries (value fuel room) fuel (.table .braces []) s
    | s => scalar s

/-- The deepest nesting that is read. -/
def maxNesting : Nat := 79

/-! ## Lines -/

/-- A document under construction: its table, and the path to the table that entries go to. -/
structure Draft where
  root : Value := .table .header []
  path : List String := []

/-- Opens a table or an element of an array of tables by a header. -/
def Draft.header (d : Draft) (change : String → Value → Option Value) (path : List String)
    (k : String) : Option Draft :=
  (changeAt .header (change k) path d.root).map fun root => ⟨root, path ++ [k]⟩

/-- Adds an entry to the open table. -/
def Draft.entry (d : Draft) (path : List String) (k : String) (v : Value) : Option Draft :=
  (changeAt .header (assign path k v) d.path d.root).map fun root => { d with root }

/-- Reads one line that holds a header or an entry. -/
def line (fuel : Nat) (d : Draft) (s : List Char) : Option (Draft × List Char) :=
  match s with
  | '[' :: '[' :: s => do
    let ((path, k), s) ← key s
    let s ← dropText [']', ']'] s
    let d ← d.header openElement path k
    let s ← endLine? s
    return (d, s)
  | '[' :: s => do
    let ((path, k), s) ← key s
    let s ← dropText [']'] s
    let d ← d.header openTable path k
    let s ← endLine? s
    return (d, s)
  | s => do
    let ((path, k), s) ← key s
    let s ← dropText ['='] s
    let (v, s) ← value fuel maxNesting (skipBlanks s)
    let d ← d.entry path k v
    let s ← endLine? s
    return (d, s)

/-- Reads lines up to the end of the text. -/
def readLines (size : Nat) : Nat → Draft → List Char → Option Value
  | 0, _, _ => none
  | fuel + 1, d, s =>
    match skipBlanks s with
    | [] => some d.root
    | s =>
      match endLine? s with
      | some s => readLines size fuel d s
      | none =>
        match line size d s with
        | some (d, s) => readLines size fuel d s
        | none => none

/-- Reads a document; a byte order mark may stand in front. -/
def parse? (text : String) : Option Value :=
  let s := match text.toList with
    | '\uFEFF' :: s => s
    | s => s
  readLines (s.length + 1) (s.length + 1) {} s

end ContentGraph.Toml
