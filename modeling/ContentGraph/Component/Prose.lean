import ContentGraph.Text.Blank
import ContentGraph.Text.Digit

/-!
# Prose

Which string literals read like text for people: those that hold a space and are of none of
seven forms that code has, such as names, paths, addresses, colours and sizes.
-/

namespace ContentGraph.Component

open Text

/-- A letter or underscore, and letters, digits and underscores behind it. -/
def isIdentifier : List Char → Bool
  | [] => false
  | c :: s => (isLetter c || c == '_') && s.all fun d => isLetter d || isDigit d || d == '_'

/-- A dot or slash in front. -/
def startsLikePath : List Char → Bool
  | [] => false
  | c :: _ => c == '.' || c == '/'

/-- The scheme of a web address in front. -/
def startsLikeAddress (s : List Char) : Bool :=
  "http://".toList.isPrefixOf s || "https://".toList.isPrefixOf s

/-- A hash and hexadecimal digits. -/
def isColour : List Char → Bool
  | '#' :: s => !s.isEmpty && s.all isHexDigit
  | _ => false

/-- Digits and `px`. -/
def isPixelSize (s : List Char) : Bool :=
  let rest := s.dropWhile isDigit
  s.head?.any isDigit && rest == ['p', 'x']

/-- The attribute names that are never text. -/
def attributeNames : List String := ["className", "style", "src", "href", "alt", "title"]

/-- One of the attribute names that are never text. -/
def isAttributeName (s : List Char) : Bool := attributeNames.any fun n => n.toList == s

/-- Letters, digits, underscores and hyphens only. -/
def isToken (s : List Char) : Bool :=
  !s.isEmpty && s.all fun c => isLetter c || isDigit c || c == '_' || c == '-'

/-- The forms that code has. -/
def codeForms : List (List Char → Bool) :=
  [isIdentifier, startsLikePath, startsLikeAddress, isColour, isPixelSize, isAttributeName, isToken]

/-- Holds for text that reads like prose. -/
def isProse (s : List Char) : Bool := !(codeForms.any fun form => form s) && s.contains ' '

end ContentGraph.Component
