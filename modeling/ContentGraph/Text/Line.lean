/-!
# Lines

A text is cut after each line feed. A line is shown without its line feed and without one
carriage return before it; the empty piece behind a final line feed is no line.
-/

namespace ContentGraph.Text

/-- Drops one carriage return that stands in front; lines are gathered reversed. -/
def dropReturn : List Char → List Char
  | '\r' :: s => s
  | s => s

/-- Gathers lines; `line` is the open line, reversed. -/
def linesFrom (line : List Char) : List Char → List (List Char)
  | [] => if line.isEmpty then [] else [line.reverse]
  | c :: s =>
    if c = '\n' then (dropReturn line).reverse :: linesFrom [] s else linesFrom (c :: line) s

/-- The lines of a text. -/
def lines (s : List Char) : List (List Char) := linesFrom [] s

/-- The number of line feeds and one more: an editor's count of lines. -/
def lineCount (s : List Char) : Nat := s.count '\n' + 1

end ContentGraph.Text
