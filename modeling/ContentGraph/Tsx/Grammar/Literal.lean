import ContentGraph.Tsx.Goal

/-!
# Grammar of literals

Strings, templates, numbers and regular expressions. Inside a string, behind a raw line feed
only space and comments may stand before the closing quote or an escape or text that follows a
comment directly.
-/

namespace ContentGraph.Tsx.Grammar

open Piece

/-- Text of a string up to its quote, a backslash or the end of the line. -/
def stringText (quote : Char) : Piece := immediate .stringFragment fun src i =>
  let j := src.skipWhile (fun c => c != quote && c != backslash && c != '\r' && c != '\n') i
  if i < j then some j else none

/-- An escape of a string. -/
def escape : Piece := immediate .escapeSequence escape?

/-- A comment behind space. -/
def commentNode : Piece := fun src i => immediate .comment comment? src (skipSpace src i)

/-- The inside of a string. -/
def stringParts (quote : Char) : Piece := many (choice [stringText quote, escape, commentNode])

/-- A string between two equal quotes. -/
def quotedString (quote : Char) : Piece :=
  let q := String.singleton quote
  node .string (seq [mark q, stringParts quote,
    fun src i => immediateMark q src (skipSpace src i)])

/-- A string. -/
def string : Piece := choice [quotedString singleQuote, quotedString doubleQuote]

/-- Plain text of a template. -/
def templateText : Piece := immediate .stringFragment fun src i =>
  match templateText? src i with
  | some j => if i < j then some j else none
  | none => none

/-- A template whose substitutions hold the given piece. -/
def templateOf (kind : Kind) (inside : Piece) : Piece :=
  let substitution := node .templateSubstitution
    (seq [immediateMark "$\x7b", inside, closeBrace])
  node kind (seq [mark "\x60", many (choice [templateText, escape, substitution]),
    immediateMark "\x60"])

/-- A number. -/
def number : Piece := lexeme .number number?

/-- A regular expression. -/
def regex : Piece := lexeme .regex regex?

/-- A name that starts with `#`. -/
def privateName : Piece := lexeme .propertyIdentifier fun src i =>
  if src.isAt i '#' then word? src (i + 1) else none

/-- Any word as the name of a property. -/
def propertyWord : Piece := wordIf .propertyIdentifier fun _ => true

/-- The name of a property behind a dot. -/
def memberName : Piece := choice [privateName, propertyWord]

/-- Any word as a name. -/
def anyName : Piece := wordIf .identifier fun _ => true

/-- A word as a name, unless it is one that starts an expression. -/
def name : Piece := wordIf .identifier fun w => w ∉ operandWords

/-- The name of a property, method or field. -/
def propertyName (g : Goals) : Piece := choice [
  propertyWord, privateName, string, number,
  node .member (seq [mark "[", g (.expression .inner), mark "]"])]

/-- Holds where the name of a property may start. -/
def startsPropertyName (src : Source) (i : Nat) : Bool :=
  let j := skipTrivia src i
  (word? src j).isSome || (number? src j).isSome ||
    (src.at? j).any fun c => c == '#' || c == '[' || c == singleQuote || c == doubleQuote

end ContentGraph.Tsx.Grammar
