/-!
# Readers of text

A reader takes a value from the front of a text and returns it with what is behind, or fails.
-/

namespace ContentGraph.Text

/-- Takes a value from the front of a text. -/
abbrev Reader (α : Type) := List Char → Option (α × List Char)

/-- Drops a text that stands in front. -/
def dropText : List Char → List Char → Option (List Char)
  | [], s => some s
  | c :: t, d :: s => if c = d then dropText t s else none
  | _ :: _, [] => none

end ContentGraph.Text
