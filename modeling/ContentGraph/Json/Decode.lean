import ContentGraph.Json.Reader
import ContentGraph.Text.Utf8

/-!
# Decoding records from JSON text

A decoder reads a value of a fixed shape straight from a text. It fails with `Fault.malformed` when
the text is no JSON, and with `Fault.mismatch` when the value has another shape; the fault met first
counts. A record is an object, whose unknown fields are skipped and whose known fields may stand
once, or an array of its fields in order, of which later ones may be left out.
-/

namespace ContentGraph.Json

open Text (Reader dropText)

/-- Why a text does not decode. -/
inductive Fault
  /-- The text is no JSON. -/
  | malformed
  /-- The text is JSON of another shape. -/
  | mismatch
deriving Repr, DecidableEq

/-- Reads a value of a fixed shape from the front of a text. -/
abbrev Decoder (α : Type) := List Char → Except Fault (α × List Char)

/-- A reader as a decoder. -/
def ofReader {α : Type} (r : Reader α) : Decoder α := fun s =>
  match r s with
  | some x => .ok x
  | none => .error .malformed

/-! ## Skipping -/

/-- Passes over the inside of a string; an escape is only looked at for its form. -/
def skipString : Nat → List Char → Option (List Char)
  | 0, _ => none
  | fuel + 1, s =>
    match s with
    | [] => none
    | '"' :: s => some s
    | '\\' :: 'u' :: s => (hex4 s).bind fun (_, s) => skipString fuel s
    | '\\' :: e :: s => if (simpleEscape? e).isSome then skipString fuel s else none
    | c :: s => if c.toNat < 0x20 || c = '\\' then none else skipString fuel s

/-- Passes over a value that holds no other values; a number may have any size. -/
def skipScalar (fuel : Nat) (s : List Char) : Option (List Char) :=
  match s with
  | 'n' :: s => dropText "ull".toList s
  | 't' :: s => dropText "rue".toList s
  | 'f' :: s => dropText "alse".toList s
  | '"' :: s => skipString fuel s
  | s => (numberText s).map (·.2)

/-- Passes over items parted by commas and the closing bracket. -/
def skipItems (item : List Char → Option (List Char)) : Nat → List Char → Option (List Char)
  | 0, _ => none
  | fuel + 1, s =>
    match (item (skipSpace s)).map skipSpace with
    | some (',' :: s) => skipItems item fuel s
    | some (']' :: s) => some s
    | _ => none

/-- Passes over fields parted by commas and the closing brace. -/
def skipFields (item : List Char → Option (List Char)) (size : Nat) :
    Nat → List Char → Option (List Char)
  | 0, _ => none
  | fuel + 1, s =>
    match skipSpace s with
    | '"' :: s =>
      match (skipString size s).map skipSpace with
      | some (':' :: s) =>
        match (item (skipSpace s)).map skipSpace with
        | some (',' :: s) => skipFields item size fuel s
        | some ('}' :: s) => some s
        | _ => none
      | _ => none
    | _ => none

/-- Passes over a value of any shape, nested at most `room` levels deep. -/
def skipValue (fuel : Nat) : Nat → List Char → Option (List Char)
  | 0, s => skipScalar fuel s
  | room + 1, s =>
    match s with
    | '[' :: s =>
      match skipSpace s with
      | ']' :: s => some s
      | s => skipItems (skipValue fuel room) fuel s
    | '{' :: s =>
      match skipSpace s with
      | '}' :: s => some s
      | s => skipFields (skipValue fuel room) fuel fuel s
    | s => skipScalar fuel s

/-- Passes over any value. -/
def skipAny : Decoder Unit := fun s =>
  match skipValue (s.length + 1) (s.length + 1) (skipSpace s) with
  | some s => .ok ((), s)
  | none => .error .malformed

/-! ## Shapes -/

/-- The fault of a value that has not the wanted shape: of a scalar only after it was read. -/
def otherShape (s : List Char) : Fault :=
  match s with
  | '[' :: _ => .mismatch
  | '{' :: _ => .mismatch
  | s => if (readScalar (s.length + 1) s).isSome then .mismatch else .malformed

/-- Decodes a string. -/
def decodeString : Decoder String := fun s =>
  match skipSpace s with
  | '"' :: s => ofReader (stringBody (s.length + 1) []) s
  | s => .error (otherShape s)

/-- Decodes a natural number below 2⁶⁴. -/
def decodeNatural : Decoder Nat := fun s =>
  let s := skipSpace s
  match s with
  | c :: _ =>
    if c = '-' || Text.isDigit c then
      match readNumber s with
      | some (.integer n, s) => if 0 ≤ n then .ok (n.toNat, s) else .error .mismatch
      | some (.double _, _) => .error .mismatch
      | none => .error .malformed
    else .error (otherShape s)
  | [] => .error .malformed

/-- Decodes `null` as nothing. -/
def decodeOptional {α : Type} (inner : Decoder α) : Decoder (Option α) := fun s =>
  match skipSpace s with
  | 'n' :: s =>
    match dropText "ull".toList s with
    | some s => .ok (none, s)
    | none => .error .malformed
  | s => (inner s).map fun (x, s) => (some x, s)

/-- Decodes `null`. -/
def decodeNull : Decoder Unit := fun s =>
  match skipSpace s with
  | 'n' :: s =>
    match dropText "ull".toList s with
    | some s => .ok ((), s)
    | none => .error .malformed
  | s => .error (otherShape s)

/-- Decodes a name of a closed set: the bare string, or an object with the name as its only key
and `null` behind it. -/
def decodeName {α : Type} (named : String → Option α) : Decoder α := fun s =>
  match skipSpace s with
  | '"' :: s => do
    let (k, s) ← ofReader (stringBody (s.length + 1) []) s
    match named k with
    | some x => .ok (x, s)
    | none => .error .mismatch
  | '{' :: s => do
    let (k, s) ← decodeString s
    let x ← match named k with
      | some x => .ok x
      | none => .error .mismatch
    match skipSpace s with
    | ':' :: s =>
      let ((), s) ← decodeNull s
      match skipSpace s with
      | '}' :: s => .ok (x, s)
      | _ => .error .malformed
    | _ => .error .malformed
  | _ => .error .malformed

/-! ## Records -/

/-- A record under construction: `set i` decodes field number `i` into the record. -/
structure RecordShape (α : Type) where
  names : List String
  set : Nat → α → Decoder α

/-- Decodes the fields of an object; `seen` are the fields met so far. -/
def decodeFields {α : Type} (shape : RecordShape α) (start : Bool) :
    Nat → List Nat → α → Decoder α
  | 0, _, _, _ => .error .malformed
  | fuel + 1, seen, x, s => do
    let s := skipSpace s
    let s ← match s, start with
      | '}' :: s, _ => return (x, s)
      | ',' :: s, false => .ok (skipSpace s)
      | s, true => .ok s
      | _, false => .error .malformed
    match s with
    | '"' :: s =>
      let (k, s) ← ofReader (stringBody (s.length + 1) []) s
      let place := shape.names.idxOf k
      let known := place < shape.names.length
      if known ∧ place ∈ seen then .error .mismatch
      else
        match skipSpace s with
        | ':' :: s =>
          if known then
            let (x, s) ← shape.set place x s
            decodeFields shape false fuel (place :: seen) x s
          else
            let ((), s) ← skipAny s
            decodeFields shape false fuel seen x s
        | _ => .error .malformed
    | _ => .error .malformed

/-- Decodes the fields of an array in order; what is left behind the last is a fault. -/
def decodePlaces {α : Type} (shape : RecordShape α) (start : Bool) : List Nat → α → Decoder α
  | [], x, s =>
    match skipSpace s with
    | ']' :: s => .ok (x, s)
    | _ => .error .malformed
  | i :: rest, x, s => do
    match skipSpace s, start with
    | ']' :: s, _ => return (x, s)
    | ',' :: s, false =>
      match skipSpace s with
      | ']' :: _ => .error .malformed
      | s =>
        let (x, s) ← shape.set i x s
        decodePlaces shape false rest x s
    | s, true =>
      let (x, s) ← shape.set i x s
      decodePlaces shape false rest x s
    | _, false => .error .malformed

/-- Decodes a record whose fields all have defaults, given by `x`. -/
def decodeRecord {α : Type} (shape : RecordShape α) (x : α) : Decoder α := fun s =>
  match skipSpace s with
  | '{' :: s => decodeFields shape true (s.length + 1) [] x s
  | '[' :: s => decodePlaces shape true (List.range shape.names.length) x s
  | s => .error (otherShape s)

/-! ## Texts -/

/-- Decodes characters that hold one value and space around it. -/
def decodeChars {α : Type} (d : Decoder α) (s : List Char) : Except Fault α := do
  let (x, rest) ← d s
  if (skipSpace rest).isEmpty then .ok x else .error .malformed

/-- Decodes a text that holds one value and space around it. -/
def decodeText {α : Type} (d : Decoder α) (s : String) : Except Fault α := decodeChars d s.toList

/-- What stands for bytes that are not UTF-8. No token begins with this character, and no backslash
may stand before it; half of a pair makes a string one that is not read, but may be skipped. -/
def illFormed : List Char := '\uFFFD' :: "\\udc00".toList

theorem stringBody_illFormed (fuel : Nat) (done s : List Char) :
    stringBody (fuel + 2) done (illFormed ++ s) = none := rfl

theorem skipString_illFormed (fuel : Nat) (s : List Char) :
    skipString (fuel + 2) (illFormed ++ s) = skipString fuel s := rfl

/-- Decodes bytes that hold one value and space around it. Only in a string that is skipped may they
be other than UTF-8. -/
def decodeBytes {α : Type} (d : Decoder α) (bytes : List UInt8) : Except Fault α :=
  decodeChars d ((Utf8.pieces bytes).flatMap fun c => (c.map fun c => [c]).getD illFormed)

end ContentGraph.Json
