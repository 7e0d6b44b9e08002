import ContentGraph.Tsx.Grammar.Type

/-!
# Grammar of markup

Elements, fragments, attributes and what stands between tags. The name of a closing tag is not
compared with that of its opening tag.
-/

namespace ContentGraph.Tsx.Grammar

open Piece
open Text (isDigit isLetter)

/-- Holds for the characters of a name that has a hyphen. -/
def isHyphenNameChar (c : Char) : Bool :=
  isLetter c || isDigit c || c == '_' || c == '$'

/-- The position behind a name that has a hyphen. -/
def hyphenName? (src : Source) (i : Nat) : Option Nat :=
  match src.at? i with
  | none => none
  | some c =>
    if isHyphenNameChar c && !isDigit c then
      let j := src.skipWhile isHyphenNameChar i
      if src.isAt j '-' then some (src.skipWhile (fun c => isHyphenNameChar c || c == '-') j)
      else none
    else none

/-- A simple name: one with a hyphen, or a word. -/
def markupWord (kind : Kind) : Piece := lexeme kind fun src i =>
  match hyphenName? src i, word? src i with
  | some j, some k => some (max j k)
  | some j, none => some j
  | none, k => k

/-- A name with a namespace in front. -/
def namespaceName : Piece :=
  node .jsxNamespaceName (seq [markupWord .identifier, mark ":", markupWord .identifier])

/-- A dotted name. -/
def dottedName : Piece :=
  node .memberExpression (seq [anyName, many1 (seq [mark ".", propertyWord])])

/-- The name of an element. -/
def elementName : Piece := choice [namespaceName, dottedName, markupWord .identifier]

/-- A character reference together with the space in front of it. -/
def spacedReference : Piece := immediate .characterReference fun src i =>
  characterReference? src (skipSpace src i)

/-- A quoted attribute value. Space belongs to the reference behind it, else to the text. -/
def quotedValue (quote : Char) : Piece :=
  let q := String.singleton quote
  let text := immediate .stringFragment fun src i =>
    let j := attributeText src quote (src.size + 1) i
    if i < j then some j else none
  node .string (seq [mark q,
    many (choice [spacedReference, text]), mark q])

/-- An expression in braces, which may be empty or spread. -/
def container (g : Goals) (expressions : Piece) : Piece :=
  node .jsxExpression (braced (optional (choice [
    node .spread (seq [mark "...", g (.expression .inner)]), expressions])))

/-- An attribute, or an expression in braces in its place. -/
def tagAttribute (g : Goals) (expressions : Piece) : Piece := choice [
  container g expressions,
  node .jsxAttribute (seq [
    choice [namespaceName, markupWord .propertyIdentifier],
    optional (seq [mark "=", choice [
      quotedValue doubleQuote, quotedValue singleQuote, container g expressions, g .markup]])])]

/-- Name, type arguments and attributes of an opening tag; a fragment has none. -/
def tagInside (g : Goals) (expressions : Piece) : Piece := optional (seq [
  choice [
    label .name namespaceName,
    seq [label .name dottedName, optional (typeArguments g)],
    seq [label .name (markupWord .identifier), optional (typeArguments g)]],
  many (tagAttribute g expressions)])

/-- Text between tags, up to the next markup character. -/
def textChild : Piece := immediate .jsxText fun src i =>
  let (j, seen) := markupText src false false i
  if seen then some j else none

/-- What may stand between tags. -/
def child (g : Goals) (expressions : Piece) : Piece := choice [
  textChild,
  fun src i => immediate .comment htmlComment? src (skipSpace src i),
  fun src i => immediate .characterReference characterReference? src (skipSpace src i),
  container g expressions,
  seq [notAhead (mark "</"), g .markup]]

/-- The closing tag of an element or fragment. -/
def closingTag : Piece := label .closeTag (node .jsxClosingElement (seq [
  mark "</", optional (label .name elementName), mark ">"]))

/-- An element or fragment. -/
def markup (g : Goals) (expressions : Piece) : Piece := fun src i =>
  match seq [mark "<", tagInside g expressions] src i with
  | none => none
  | some (opening, j) =>
    choice [
      onto .jsxSelfClosingElement opening (mark "/>"),
      node .jsxElement (seq [
        label .openTag (onto .jsxOpeningElement opening (mark ">")),
        many (child g expressions),
        closingTag])] src j

end ContentGraph.Tsx.Grammar
