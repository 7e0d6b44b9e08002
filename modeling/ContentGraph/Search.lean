import ContentGraph.Store.Backend
import ContentGraph.Text.Blank

/-!
# Searching a store

A search for a text that has something in it. A store itself takes the empty text, which stands in
every asset.
-/

namespace ContentGraph

namespace Search

/-- Why a search finds nothing. -/
inductive Fault
  /-- The text to look for is blank. -/
  | blank
  | store (fault : Store.Fault)
deriving Repr, DecidableEq

/-- The wording of a fault. -/
def Fault.message : Fault → String
  | .blank => "query must not be empty"
  | .store fault => fault.message

end Search

/-- Searches a store for a text that is not blank. -/
def search {σ : Type} [Store.Backend σ] (query : String) (filters : Filters) (s : σ) :
    Except Search.Fault Page × σ :=
  if Text.allBlank query.toList then (.error .blank, s)
  else
    let (r, s) := Store.Backend.search query filters s
    (r.mapError .store, s)

end ContentGraph
