import ContentGraph.Json.Decimal

/-!
# JSON values

A number is an exact integer from -2⁶³ to 2⁶⁴ - 1 or a binary64 number. The fields of an object
are kept in strictly increasing order of their keys, so equal objects are equal lists;
`Fields.insert` keeps that order (`Fields.sorted_insert`).
-/

namespace ContentGraph

/-- A JSON number. -/
inductive Number
  /-- An integer from -2⁶³ to 2⁶⁴ - 1. -/
  | integer (n : Int)
  /-- The bits of a finite binary64 number. -/
  | double (bits : UInt64)
deriving Repr, DecidableEq, Inhabited

/-- A JSON value. -/
inductive Json
  | null
  | bool (b : Bool)
  | number (n : Number)
  | string (s : String)
  | array (items : List Json)
  | object (fields : List (String × Json))
deriving Repr, BEq, Inhabited

/-- The fields of an object, in increasing order of keys. -/
abbrev Fields := List (String × Json)

namespace Fields

/-- The value at a key. -/
def get? (key : String) : Fields → Option Json
  | [] => none
  | (k, v) :: rest => if k = key then some v else get? key rest

/-- Sets the value at a key. -/
def insert (key : String) (value : Json) : Fields → Fields
  | [] => [(key, value)]
  | (k, v) :: rest =>
    if key < k then (key, value) :: (k, v) :: rest
    else if key = k then (key, value) :: rest
    else (k, v) :: insert key value rest

/-- Sets the value at a key that has none. -/
def insertNew (key : String) (value : Json) (fields : Fields) : Fields :=
  match fields.get? key with
  | some _ => fields
  | none => fields.insert key value

/-- The fields given last win. -/
def ofList (pairs : List (String × Json)) : Fields :=
  pairs.foldl (fun fields p => fields.insert p.1 p.2) []

/-- Holds when keys strictly increase. -/
def Sorted (fields : Fields) : Prop := fields.Pairwise fun a b => a.1 < b.1

@[simp] theorem get?_insert_self (key : String) (value : Json) (fields : Fields) :
    (fields.insert key value).get? key = some value := by
  induction fields with
  | nil => simp [insert, get?]
  | cons p rest ih =>
    obtain ⟨k, v⟩ := p
    unfold insert
    split
    · simp [get?]
    · split
      · simp [get?]
      · next h =>
        have : k ≠ key := fun e => h e.symm
        simp [get?, this, ih]

theorem get?_insert_of_ne {key other : String} (value : Json) (fields : Fields)
    (h : other ≠ key) : (fields.insert key value).get? other = fields.get? other := by
  induction fields with
  | nil => simp [insert, get?, h.symm]
  | cons p rest ih =>
    obtain ⟨k, v⟩ := p
    unfold insert
    split
    · simp [get?, h.symm]
    · split
      · next e => simp [get?, ← e, h.symm]
      · simp [get?, ih]

theorem mem_insert {key : String} {value : Json} {fields : Fields} {p : String × Json}
    (h : p ∈ fields.insert key value) : p = (key, value) ∨ p ∈ fields := by
  induction fields with
  | nil =>
    simp only [insert, List.mem_singleton] at h
    simp [h]
  | cons q rest ih =>
    obtain ⟨k, v⟩ := q
    unfold insert at h
    split at h
    · rcases List.mem_cons.1 h with h | h
      · simp [h]
      · exact Or.inr h
    · split at h
      · rcases List.mem_cons.1 h with h | h
        · simp [h]
        · exact Or.inr (List.mem_cons_of_mem _ h)
      · rcases List.mem_cons.1 h with h | h
        · simp [h]
        · rcases ih h with h | h
          · exact Or.inl h
          · exact Or.inr (List.mem_cons_of_mem _ h)

theorem sorted_insert {key : String} {value : Json} {fields : Fields} (h : fields.Sorted) :
    (fields.insert key value).Sorted := by
  induction fields with
  | nil => simp [insert, Sorted]
  | cons p rest ih =>
    obtain ⟨k, v⟩ := p
    obtain ⟨hk, hrest⟩ := List.pairwise_cons.1 h
    unfold insert
    split
    · next hlt =>
      refine List.pairwise_cons.2 ⟨fun q hq => ?_, h⟩
      rcases List.mem_cons.1 hq with rfl | hq
      · exact hlt
      · exact String.lt_trans hlt (hk q hq)
    · split
      · next e => exact List.pairwise_cons.2 ⟨fun q hq => e ▸ hk q hq, hrest⟩
      · next hnlt hne =>
        refine List.pairwise_cons.2 ⟨fun q hq => ?_, ih hrest⟩
        rcases mem_insert hq with rfl | hq
        · have hle : k ≤ key := String.not_lt.1 hnlt
          exact Std.lt_of_le_of_ne hle (fun e' => hne e'.symm)
        · exact hk q hq

end Fields

namespace Json

/-- The text of a string value. -/
def string? : Json → Option String
  | .string s => some s
  | _ => none

/-- A number that is a natural number below 2⁶⁴. -/
def natural? : Json → Option Nat
  | .number (.integer n) => if 0 ≤ n then some n.toNat else none
  | _ => none

/-- A number that is an integer. -/
def integer? : Json → Option Int
  | .number (.integer n) => some n
  | _ => none

/-- A truth value. -/
def bool? : Json → Option Bool
  | .bool b => some b
  | _ => none

/-- The items of a list. -/
def items? : Json → Option (List Json)
  | .array items => some items
  | _ => none

/-- A list of strings. -/
def strings? : Json → Option (List String)
  | .array items => items.mapM string?
  | _ => none

/-- A list of string values. -/
def ofStrings (xs : List String) : Json := .array (xs.map .string)

/-- A natural number. -/
def ofNat (n : Nat) : Json := .number (.integer n)

/-- An object; of two fields with one key the later wins. -/
def ofFields (pairs : List (String × Json)) : Json := .object (Fields.ofList pairs)

/-- The field of an object. -/
def field? (key : String) : Json → Option Json
  | .object fields => Fields.get? key fields
  | _ => none

mutual

/-- Holds when every object inside has strictly increasing keys. -/
def Canonical : Json → Prop
  | .array items => CanonicalItems items
  | .object fields => Fields.Sorted fields ∧ CanonicalFields fields
  | _ => True

/-- Holds when every item is canonical. -/
def CanonicalItems : List Json → Prop
  | [] => True
  | v :: rest => v.Canonical ∧ CanonicalItems rest

/-- Holds when every field's value is canonical. -/
def CanonicalFields : List (String × Json) → Prop
  | [] => True
  | (_, v) :: rest => v.Canonical ∧ CanonicalFields rest

end

end Json

end ContentGraph
