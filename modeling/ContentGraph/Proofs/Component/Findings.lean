import ContentGraph.Component.Analysis
import ContentGraph.Proofs.Tsx.Walk

/-!
# What nodes tell

A visit adds to what is known about a file what one node tells: a module, an exported name, a tag, a
text (`Info.visit_eq`). So what a tree yields is what its nodes tell, in the order of the document
(`Info.yields_ofTree`).
-/

namespace ContentGraph.Component

open Tsx

section Findings

variable (src : Source)

/-- The module that a node imports. -/
def importOf? (n : Node) : Option String :=
  if n.kind = .importStatement then
    (n.childAt? .source).map fun s => String.ofList (stringValue src s)
  else none

/-- A plain or dotted name of a tag, without white space. -/
def tagName? (n : Node) : Option String :=
  if n.kind = .identifier ∨ n.kind = .memberExpression then
    some (String.ofList ((textOf src n).filter fun c => !Text.isBlank c))
  else none

/-- The tag that a node renders. -/
def tagOf? (n : Node) : Option String :=
  match n.kind with
  | .jsxElement => ((n.childAt? .openTag).bind (Node.childAt? .name)).bind (tagName? src)
  | .jsxSelfClosingElement => (n.childAt? .name).bind (tagName? src)
  | _ => none

/-- Holds for statements that export a default. -/
def isDefaultExport (n : Node) : Bool :=
  n.kind = .exportStatement && n.children.any (·.kind = .token "default")

/-- Holds for statements that export something else. -/
def isNamedExport (n : Node) : Bool :=
  n.kind = .exportStatement && !n.children.any (·.kind = .token "default")

/-- The node that names a value which is exported as the default. -/
def valueName? (v : Node) : Option Node :=
  match v.kind with
  | .identifier => some v
  | .functionExpression => v.childAt? .name
  | .generatorFunction => v.childAt? .name
  | _ => none

/-- The node that names what is exported at a cursor. -/
def exportName? (c : Cursor) : Option Node :=
  match c.node.kind with
  | .exportStatement =>
    if isDefaultExport c.node then (c.node.childAt? .value).bind valueName? else none
  | .functionDeclaration =>
    if c.parent?.any (·.kind = .exportStatement) then c.node.childAt? .name else none
  | .generatorFunctionDeclaration =>
    if c.parent?.any (·.kind = .exportStatement) then c.node.childAt? .name else none
  | _ => none

/-- A text that is told if it is long enough without the white space at its ends. -/
def told? (least : Nat) (accept : List Char → Bool) (raw : List Char) : Option String :=
  if least < (Text.trim raw).length ∧ accept (Text.trim raw) then
    some (String.ofList (Text.trim raw))
  else none

/-- The text that is told at a cursor. -/
def textAt? (c : Cursor) : Option String :=
  if isTextPiece c.node then (textRun? src c).bind (told? minMarkupText fun _ => true)
  else if c.node.kind = .string then told? minLiteral isProse (stringValue src c.node)
  else none

end Findings

/-! ## Visits -/

section Visit

variable (info : Info) (src : Source)

theorem Info.addText_eq (least : Nat) (accept : List Char → Bool) (raw : List Char) :
    info.addText least accept raw
      = { info with textContent := info.textContent ++ (told? least accept raw).toList } := by
  unfold addText told?
  dsimp only
  split <;> simp

theorem Info.addTag_eq (n : Node) :
    info.addTag src n = { info with
      jsxElements := info.jsxElements ++ (tagName? src n).toList.filter (· ∉ info.jsxElements) } := by
  unfold addTag tagName?
  dsimp only
  split
  · split <;> simp [*]
  · simp

theorem Info.addTagOf_eq (tag : Option Node) :
    info.addTagOf src tag = { info with
      jsxElements := info.jsxElements
        ++ ((tag.bind (Node.childAt? .name)).bind (tagName? src)).toList.filter
          (· ∉ info.jsxElements) } := by
  unfold addTagOf
  split <;> simp [*, addTag_eq]

theorem Info.addExport_eq (name : Option Node) :
    info.addExport src name
      = { info with exports := info.exports ++ (name.map (nameOf src)).toList } := by
  cases name <;> simp [addExport]

theorem Info.visitExport_eq (n : Node) (h : n.kind = .exportStatement) :
    info.visitExport src n = { info with
      exports := info.exports ++ ((if isDefaultExport n then (n.childAt? .value).bind valueName?
        else none).map (nameOf src)).toList
      hasDefaultExport := info.hasDefaultExport || isDefaultExport n
      hasNamedExports := info.hasNamedExports || isNamedExport n } := by
  unfold visitExport isDefaultExport isNamedExport
  split
  · rename_i hdefault
    cases hvalue : n.childAt? .value with
    | none => simp [h, hdefault]
    | some v =>
      unfold valueName?
      dsimp only
      split <;> simp [addExport_eq, *]
  · rename_i hnamed
    simp [h, hnamed]

/-- **Visits.** A visit adds what its node tells; a tag that is there is not added again. -/
theorem Info.visit_eq (c : Cursor) :
    info.visit src c = {
      imports := info.imports ++ (importOf? src c.node).toList
      exports := info.exports ++ ((exportName? c).map (nameOf src)).toList
      jsxElements := info.jsxElements ++ (tagOf? src c.node).toList.filter (· ∉ info.jsxElements)
      textContent := info.textContent ++ (textAt? src c).toList
      hasDefaultExport := info.hasDefaultExport || isDefaultExport c.node
      hasNamedExports := info.hasNamedExports || isNamedExport c.node } := by
  have hplain (kind : Kind) (h : c.node.kind = kind) (hkind : kind ≠ .exportStatement) :
      isDefaultExport c.node = false ∧ isNamedExport c.node = false := by
    simp [isDefaultExport, isNamedExport, h, hkind]
  unfold visit importOf? exportName? tagOf? textAt?
  dsimp only
  cases hkind : c.node.kind
  case exportStatement => simp [visitExport_eq, hkind, isTextPiece]
  case importStatement =>
    cases c.node.childAt? .source <;> simp [hplain _ hkind, hkind, isTextPiece]
  case functionDeclaration =>
    by_cases hexported : c.parent?.any (·.kind = .exportStatement) <;>
      simp [hexported, addExport_eq, hplain _ hkind, hkind, isTextPiece]
  case generatorFunctionDeclaration =>
    by_cases hexported : c.parent?.any (·.kind = .exportStatement) <;>
      simp [hexported, addExport_eq, hplain _ hkind, hkind, isTextPiece]
  case jsxElement => simp [addTagOf_eq, hplain _ hkind, hkind, isTextPiece]
  case jsxSelfClosingElement => simp [addTagOf_eq, hplain _ hkind, hkind, isTextPiece]
  case jsxText =>
    cases textRun? src c <;> simp [addText_eq, hplain _ hkind, hkind, isTextPiece]
  case characterReference =>
    cases textRun? src c <;> simp [addText_eq, hplain _ hkind, hkind, isTextPiece]
  case string => simp [addText_eq, hplain _ hkind, hkind, isTextPiece]
  all_goals simp [hplain _ hkind, hkind, isTextPiece]

/-! ## Walks -/

variable {src}

/-- A field to which each visit adds what is told at its cursor holds all that is told. -/
theorem Info.foldl_visit {α : Type} {field : Info → List α} {tells : Cursor → Option α}
    (h : ∀ info c, field (Info.visit src info c) = field info ++ (tells c).toList)
    (cs : List Cursor) :
    field (cs.foldl (Info.visit src) info) = field info ++ cs.filterMap tells := by
  induction cs generalizing info with
  | nil => simp
  | cons c cs ih =>
    rw [List.foldl_cons, ih, h, List.append_assoc]
    cases htells : tells c <;> simp [htells]

/-- **Yields.** Such a field of what a tree yields is told by its nodes, in the order of the document. -/
theorem Info.yields_ofTree {α : Type} {field : Info → List α} {tells : Cursor → Option α}
    (h : ∀ info c, field (Info.visit src info c) = field info ++ (tells c).toList)
    (hnone : field {} = []) (root : Node) :
    field (Info.ofTree src root) = (Cursor.cursors root).filterMap tells := by
  rw [Info.ofTree, Cursor.walk_eq_foldl, Info.foldl_visit {} h, hnone, List.nil_append]

/-- The texts that a tree tells, in the order of the document. -/
theorem Info.textContent_eq (src : Source) (root : Node) :
    (Info.ofTree src root).textContent = (Cursor.cursors root).filterMap (textAt? src) :=
  Info.yields_ofTree (fun info c => congrArg Info.textContent (info.visit_eq src c)) rfl root

end Visit

end ContentGraph.Component
