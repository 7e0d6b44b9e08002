import ContentGraph.Asset.Basic

/-!
# Search filters

Optional conditions of a search: the source, the type, and the size of the page. A size of
zero asks for every match.
-/

namespace ContentGraph

/-- Conditions of a search. -/
structure Filters where
  source : Option String := none
  type : Option AssetType := none
  limit : Option Nat := none
deriving Repr, DecidableEq

namespace Filters

/-- The page size, unless every match is wanted. -/
def effectiveLimit (f : Filters) : Option Nat := f.limit.filter (0 < ·)

/-- Filters as JSON; what is not set is left out. -/
def toJson (f : Filters) : Json := .ofFields
  ((f.source.map fun s => ("source", Json.string s)).toList
    ++ (f.type.map fun t => ("type", Json.string t.name)).toList
    ++ (f.limit.map fun n => ("limit", Json.ofNat n)).toList)

/-- The fields of filters in JSON text. -/
def shape : Json.RecordShape Filters where
  names := ["source", "type", "limit"]
  set
    | 0, f, s => (Json.decodeOptional Json.decodeString s).map fun (x, s) =>
        ({ f with source := x }, s)
    | 1, f, s => (Json.decodeOptional AssetType.decoder s).map fun (x, s) =>
        ({ f with type := x }, s)
    | _, f, s => (Json.decodeOptional Json.decodeNatural s).map fun (x, s) =>
        ({ f with limit := x }, s)

/-- Decodes filters from JSON text. -/
def decoder : Json.Decoder Filters := Json.decodeRecord shape {}

/-- Holds when an asset is of the wanted source and type. -/
def admits (f : Filters) (a : Asset) : Bool :=
  f.source.all (· == a.source) && f.type.all (· == a.type)

end Filters

end ContentGraph
