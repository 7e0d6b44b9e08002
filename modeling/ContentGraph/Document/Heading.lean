import ContentGraph.Text.Blank
import ContentGraph.Text.Line
import ContentGraph.Path.Basic

/-!
# Headings and titles of documents

A heading line is one to six `#`, a space and some text; lines inside a fence do not count. A
fence line starts, behind indentation, with three backticks or three tildes, and turns the fence
on or off. The title is the text of the first line that starts with one `#` and a space, fences
not regarded, or else the file's stem.
-/

namespace ContentGraph.Document

open ContentGraph.Text

/-- The backtick. -/
def backtick : Char := '\x60'

/-- Holds for lines that open or close a fence. -/
def isFence (line : List Char) : Bool :=
  let s := trimStart line
  [backtick, backtick, backtick].isPrefixOf s || ['~', '~', '~'].isPrefixOf s

/-- The text of a heading line, which may be empty: what is behind the hashes, without white
space around it and without hashes at its end. -/
def headingText? (line : List Char) : Option (List Char) :=
  let s := trimStart line
  let level := (s.takeWhile (· == '#')).length
  let rest := s.dropWhile (· == '#')
  if 1 ≤ level ∧ level ≤ 6 ∧ rest.head? = some ' ' then
    some (trim (trimEndOf '#' (trim rest)))
  else none

/-- The headings of some lines, of which the first is inside a fence or not. -/
def headingsFrom (fenced : Bool) : List (List Char) → List String
  | [] => []
  | line :: rest =>
    if isFence line then headingsFrom (!fenced) rest
    else if fenced then headingsFrom fenced rest
    else
      match headingText? line with
      | some [] => headingsFrom fenced rest
      | some t => String.ofList t :: headingsFrom fenced rest
      | none => headingsFrom fenced rest

/-- The headings of a text. -/
def headings (text : String) : List String := headingsFrom false (lines text.toList)

/-- What stands behind one `#` and a space at the front of a line, without white space. -/
def titleLine? (line : List Char) : Option (List Char) :=
  match trim line with
  | '#' :: ' ' :: rest => some (trim rest)
  | _ => none

/-- The title of a document. -/
def title (relative text : String) : String :=
  match (lines text.toList).findSome? titleLine? with
  | some (c :: rest) => String.ofList (c :: rest)
  | _ => Path.stemOrSelf relative

end ContentGraph.Document
