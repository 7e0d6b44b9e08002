/-!
# TOML values

A document is a table. A table remembers how it came to be, because that decides whether a later
line may add to it: a table that a header opened, one that a longer header only passed through,
one that dotted keys made, and one written in braces, which is closed.
-/

namespace ContentGraph.Toml

/-- How a table came to be. -/
inductive Origin
  /-- Opened by its own header; also the document. -/
  | header
  /-- Passed through by a longer header. -/
  | passage
  /-- Made by a dotted key. -/
  | dotted
  /-- Written in braces. -/
  | braces
deriving Repr, DecidableEq, Inhabited

/-- A TOML value. -/
inductive Value
  | string (s : String)
  | integer (n : Int)
  /-- A floating-point number, as it is written. -/
  | float (written : String)
  | boolean (b : Bool)
  /-- A date, a time or both, as it is written. -/
  | dateTime (written : String)
  | array (items : List Value)
  | table (origin : Origin) (entries : List (String × Value))
  /-- An array whose elements have a header each; the last element is kept first. -/
  | tables (elements : List Value)
deriving Repr, Inhabited

/-- The value at a key. -/
def lookup? (key : String) : List (String × Value) → Option Value
  | [] => none
  | (k, v) :: rest => if k = key then some v else lookup? key rest

/-- Sets the value at a key. -/
def store (key : String) (value : Value) : List (String × Value) → List (String × Value)
  | [] => [(key, value)]
  | (k, v) :: rest => if k = key then (k, value) :: rest else (k, v) :: store key value rest

/-! ## Ways into a table -/

/-- Who goes into a table: a header, or a dotted key. -/
inductive Guest
  | header
  | dotted
deriving Repr, DecidableEq

/-- The origin of a table that a guest makes on the way. -/
def Guest.made : Guest → Origin
  | .header => .passage
  | .dotted => .dotted

/-- Holds when a guest may go into a table. -/
def Guest.mayEnter : Guest → Origin → Bool
  | .header, origin => origin ≠ .braces
  | .dotted, origin => origin = .passage || origin = .dotted

/-- Changes the table at the end of a path, on which missing tables are made. Of an array of
tables the last element is meant. -/
def changeAt (guest : Guest) (change : Value → Option Value) : List String → Value → Option Value
  | [], t => change t
  | key :: path, .table origin entries =>
    match lookup? key entries with
    | none =>
      (changeAt guest change path (.table guest.made [])).map fun v =>
        .table origin (store key v entries)
    | some (.table inner es) =>
      if guest.mayEnter inner then
        (changeAt guest change path (.table inner es)).map fun v =>
          .table origin (store key v entries)
      else none
    | some (.tables (t :: rest)) =>
      (changeAt guest change path t).map fun v =>
        .table origin (store key (.tables (v :: rest)) entries)
    | some _ => none
  | _ :: _, _ => none

/-- Adds an entry under a new key. -/
def addEntry (key : String) (value : Value) : Value → Option Value
  | .table origin entries =>
    match lookup? key entries with
    | none => some (.table origin (store key value entries))
    | some _ => none
  | _ => none

/-- Adds an entry under a key of one or more parts. A dotted key ends only in a table that dotted
keys made. -/
def assign (path : List String) (key : String) (value : Value) (t : Value) : Option Value :=
  if path.isEmpty then addEntry key value t
  else
    changeAt .dotted (fun
      | .table .dotted entries => addEntry key value (.table .dotted entries)
      | _ => none) path t

/-- Opens a table by its header, which may happen once. -/
def openTable (key : String) : Value → Option Value
  | .table origin entries =>
    match lookup? key entries with
    | none => some (.table origin (store key (.table .header []) entries))
    | some (.table .passage es) => some (.table origin (store key (.table .header es) entries))
    | some _ => none
  | _ => none

/-- Opens one more element of an array of tables. -/
def openElement (key : String) : Value → Option Value
  | .table origin entries =>
    match lookup? key entries with
    | none => some (.table origin (store key (.tables [.table .header []]) entries))
    | some (.tables elements) =>
      some (.table origin (store key (.tables (.table .header [] :: elements)) entries))
    | some _ => none
  | _ => none

/-! ## Reading records -/

/-- The field of a record: by its name in a table, by its place in an array. -/
def Value.field? (name : String) (place : Nat) : Value → Option Value
  | .table _ entries => lookup? name entries
  | .array items => items[place]?
  | .tables elements => elements.reverse[place]?
  | _ => none

/-- Holds for values that are read as records; a date has no fields. -/
def Value.isRecord : Value → Bool
  | .table _ _ => true
  | .array _ => true
  | .tables _ => true
  | .dateTime _ => true
  | _ => false

/-- Holds for records whose fields go by place. -/
def Value.isPlaced : Value → Bool
  | .array _ => true
  | .tables _ => true
  | _ => false

/-- The text of a string. -/
def Value.string? : Value → Option String
  | .string s => some s
  | _ => none

/-- A truth value. -/
def Value.boolean? : Value → Option Bool
  | .boolean b => some b
  | _ => none

/-- A natural number up to a greatest one. -/
def Value.natural? (greatest : Nat) : Value → Option Nat
  | .integer n => if 0 ≤ n ∧ n ≤ greatest then some n.toNat else none
  | _ => none

/-- A list of strings. -/
def Value.strings? : Value → Option (List String)
  | .array items => items.mapM Value.string?
  | .tables elements => elements.mapM Value.string?
  | _ => none

end ContentGraph.Toml
