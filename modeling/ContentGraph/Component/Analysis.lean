import ContentGraph.Component.Prose
import ContentGraph.Component.Literal
import ContentGraph.Text.Blank
import ContentGraph.Tsx.Parser

/-!
# Analysis of components

One walk over the syntax tree of a component file collects the modules that it imports, what it
exports, the tags that it renders, and its text: runs of text between tags and string literals
that read like prose.
-/

namespace ContentGraph.Component

open Tsx

/-- What one walk over a component file yields. -/
structure Info where
  /-- Names of modules as they are written, relative ones and others. -/
  imports : List String := []
  exports : List String := []
  /-- Tags, each at its first place only. -/
  jsxElements : List String := []
  textContent : List String := []
  hasDefaultExport : Bool := false
  hasNamedExports : Bool := false
deriving Repr, DecidableEq

/-- Text between tags counts from one character more than this. -/
def minMarkupText : Nat := 3

/-- A literal counts from one character more than this. -/
def minLiteral : Nat := 10

/-- The tags whose presence alone makes a file worth storing. -/
def contentfulTags : List String :=
  ["h1", "h2", "h3", "h4", "h5", "h6", "p", "span", "div", "Card", "Modal", "Button"]

/-- Holds when text was found or a contentful tag is rendered. -/
def Info.isExtractable (info : Info) : Bool :=
  !info.textContent.isEmpty || info.jsxElements.any (· ∈ contentfulTags)

/-- The text of the asset: what was found, or a summary of the tags. -/
def Info.content (info : Info) : String :=
  if info.textContent.isEmpty then
    "React component with JSX elements: " ++ ", ".intercalate info.jsxElements
  else " ".intercalate info.textContent

/-! ## Reading nodes -/

/-- The source that a node covers. -/
def textOf (src : Source) (n : Node) : List Char := src.slice n.span.start n.span.stop

/-- The same as a string. -/
def nameOf (src : Source) (n : Node) : String := String.ofList (textOf src n)

/-- The pieces of a string node. -/
def literalPieces (src : Source) (n : Node) : List LiteralPiece :=
  (n.children.filter (·.kind.isNamed)).map fun part =>
    if part.kind = .escapeSequence then .escape (textOf src part) else .text (textOf src part)

/-- The value of a string node. -/
def stringValue (src : Source) (n : Node) : List Char := literalValue (literalPieces src n)

/-- Holds for text between tags and character references. -/
def isTextPiece (n : Node) : Bool := n.kind = .jsxText ∨ n.kind = .characterReference

/-- The run of text pieces that starts at the cursor, as written; `none` inside a run. -/
def textRun? (src : Source) (c : Cursor) : Option (List Char) :=
  if c.previousSibling?.any isTextPiece then none
  else
    let last := ((c.laterSiblings.takeWhile isTextPiece).getLast?).getD c.node
    some (src.slice c.node.span.start last.span.stop)

/-- Adds a text that is long enough after white space is dropped at its ends. -/
def Info.addText (info : Info) (least : Nat) (accept : List Char → Bool) (raw : List Char) : Info :=
  let text := Text.trim raw
  if least < text.length ∧ accept text then
    { info with textContent := info.textContent ++ [String.ofList text] }
  else info

/-- Adds the name of a tag, unless it has a namespace or is there already. -/
def Info.addTag (info : Info) (src : Source) (n : Node) : Info :=
  if n.kind = .identifier ∨ n.kind = .memberExpression then
    let tag := String.ofList ((textOf src n).filter fun c => !Text.isBlank c)
    if tag ∈ info.jsxElements then info
    else { info with jsxElements := info.jsxElements ++ [tag] }
  else info

/-- Adds the tag of an element or of its opening tag, if it has one. -/
def Info.addTagOf (info : Info) (src : Source) (tag : Option Node) : Info :=
  match tag.bind (Node.childAt? .name) with
  | some n => info.addTag src n
  | none => info

/-- Adds an exported name. -/
def Info.addExport (info : Info) (src : Source) (name : Option Node) : Info :=
  match name with
  | some n => { info with exports := info.exports ++ [nameOf src n] }
  | none => info

/-- Adds what an export statement tells. -/
def Info.visitExport (info : Info) (src : Source) (n : Node) : Info :=
  if n.children.any (·.kind = .token "default") then
    let info := { info with hasDefaultExport := true }
    match n.childAt? .value with
    | none => info
    | some v =>
      match v.kind with
      | .identifier => info.addExport src (some v)
      | .functionExpression => info.addExport src (v.childAt? .name)
      | .generatorFunction => info.addExport src (v.childAt? .name)
      | _ => info
  else { info with hasNamedExports := true }

/-- Adds what one node tells. -/
def Info.visit (src : Source) (info : Info) (c : Cursor) : Info :=
  let n := c.node
  let exported := c.parent?.any (·.kind = .exportStatement)
  match n.kind with
  | .importStatement =>
    match n.childAt? .source with
    | some s => { info with imports := info.imports ++ [String.ofList (stringValue src s)] }
    | none => info
  | .exportStatement => info.visitExport src n
  | .functionDeclaration => if exported then info.addExport src (n.childAt? .name) else info
  | .generatorFunctionDeclaration =>
    if exported then info.addExport src (n.childAt? .name) else info
  | .jsxElement => info.addTagOf src (n.childAt? .openTag)
  | .jsxSelfClosingElement => info.addTagOf src (some n)
  | .jsxText =>
    match textRun? src c with
    | some raw => info.addText minMarkupText (fun _ => true) raw
    | none => info
  | .characterReference =>
    match textRun? src c with
    | some raw => info.addText minMarkupText (fun _ => true) raw
    | none => info
  | .string => info.addText minLiteral isProse (stringValue src n)
  | _ => info

/-- What a syntax tree yields. -/
def Info.ofTree (src : Source) (root : Node) : Info :=
  (Cursor.ofRoot root).walk (Info.visit src) {}

/-- What a text yields, if it is well formed. -/
def analyze? (text : String) : Option Info :=
  let src := Source.ofString text
  (parse? src).map (Info.ofTree src)

end ContentGraph.Component
