import ContentGraph.Proofs.Component.Findings

/-!
# Passages

The places of a syntax tree whose source may be text for people: text pieces that stand side by
side, and string literals. The analysis tells exactly those passages that are long enough, and of
the literals those that read like prose, in the order of the document (`textContent_ofTree`). It
looks at no passage's surroundings, so character references inside a quoted attribute are told as
if they stood between tags.
-/

namespace ContentGraph.Component

open Tsx

/-- A place of a tree whose source may be text for people. -/
inductive Passage
  /-- A text piece and those that follow it directly, among the children of a node of a kind; a root
  has no such node above it. -/
  | run (holder : Option Kind) (first : Node) (more : List Node)
  | literal (n : Node)

namespace Passage

/-- The text of a passage as it is told, if it is: without white space at its ends. -/
def text? (src : Source) : Passage → Option String
  | run _ first more =>
    let text := Text.trim (src.slice first.span.start ((more.getLast?).getD first).span.stop)
    if minMarkupText < text.length then some (String.ofList text) else none
  | literal n =>
    let text := Text.trim (stringValue src n)
    if minLiteral < text.length ∧ isProse text then some (String.ofList text) else none

/-- Holds for literals, and for what stands between the tags of an element or fragment. -/
def isOnPage : Passage → Bool
  | run holder _ _ => holder = some .jsxElement
  | literal _ => true

end Passage

mutual

/-- The passages at a node and below it that do not start with the node's own text. -/
def passages : Node → List Passage
  | .mk kind field span children =>
    (if kind = .string then [.literal (.mk kind field span children)] else [])
      ++ passagesAmong (some kind) false children

/-- The passages at siblings and below them; `inRun` says that a text piece stands before them. -/
def passagesAmong (holder : Option Kind) (inRun : Bool) : List Node → List Passage
  | [] => []
  | n :: after =>
    (if isTextPiece n && !inRun then [.run holder n (after.takeWhile isTextPiece)] else [])
      ++ passages n ++ passagesAmong holder (isTextPiece n) after

end

/-- The run of text pieces that starts at a node in its place among siblings. -/
def runAt (place : Option Frame) (n : Node) : List Passage :=
  if isTextPiece n && !(place.bind (·.before.head?)).any isTextPiece then
    [.run (place.map (·.parent.kind)) n (((place.map (·.after)).getD []).takeWhile isTextPiece)]
  else []

/-- The passages of a tree, in the order of the document. -/
def passagesOf (root : Node) : List Passage := passagesAmong none false [root]

/-! ## The passage at a cursor -/

/-- The passage that starts at a cursor. -/
def passageAt? (c : Cursor) : Option Passage :=
  if isTextPiece c.node then
    if c.previousSibling?.any isTextPiece then none
    else some (.run (c.parent?.map Node.kind) c.node (c.laterSiblings.takeWhile isTextPiece))
  else if c.node.kind = .string then some (.literal c.node)
  else none

theorem filterMap_cons_passageAt? (c : Cursor) (cs : List Cursor) :
    (c :: cs).filterMap passageAt? = (passageAt? c).toList ++ cs.filterMap passageAt? := by
  cases h : passageAt? c <;> simp [h]

theorem passageAt?_eq (n : Node) (path : List Frame) :
    (passageAt? ⟨n, path⟩).toList
      = runAt path.head? n ++ if n.kind = .string then [.literal n] else [] := by
  by_cases hpiece : isTextPiece n
  · -- a text piece is no string
    have hstring : n.kind ≠ .string := by
      intro hkind
      simp [isTextPiece, hkind] at hpiece
    cases path with
    | nil => simp [passageAt?, runAt, hpiece, hstring, Cursor.previousSibling?, Cursor.parent?,
        Cursor.laterSiblings]
    | cons frame path =>
      by_cases hinside : frame.before.head?.any isTextPiece
      · simp [passageAt?, runAt, hpiece, hinside, hstring, Cursor.previousSibling?]
      · simp [passageAt?, runAt, hpiece, hinside, hstring, Cursor.previousSibling?, Cursor.parent?,
          Cursor.laterSiblings]
  · by_cases hstring : n.kind = .string
    · simp [passageAt?, runAt, hpiece, hstring]
    · simp [passageAt?, runAt, hpiece, hstring]

mutual

theorem passages_below (path : List Frame) : (n : Node) →
    (Cursor.below path n).filterMap passageAt? = runAt path.head? n ++ passages n
  | .mk kind field span children => by
      rw [Cursor.below, filterMap_cons_passageAt?, passageAt?_eq, passages_belowAll, passages,
        List.append_assoc]
      rfl

theorem passages_belowAll (parent : Node) (path : List Frame) (before : List Node) :
    (ns : List Node) → (Cursor.belowAll parent path before ns).filterMap passageAt?
      = passagesAmong (some parent.kind) (before.head?.any isTextPiece) ns
  | [] => rfl
  | n :: after => by
      rw [Cursor.belowAll, List.filterMap_append, passages_below, passages_belowAll, passagesAmong]
      rfl

end

/-- The passages of a tree start at the cursors that a walk comes to. -/
theorem filterMap_passageAt?_cursors (root : Node) :
    (Cursor.cursors root).filterMap passageAt? = passagesOf root := by
  rw [Cursor.cursors, passages_below]
  simp [passagesOf, passagesAmong, runAt]

/-! ## What is told -/

/-- The text that is told at a cursor is that of the passage that starts there; inside a run there is
none. -/
theorem textAt?_eq (src : Source) (c : Cursor) :
    textAt? src c = (passageAt? c).bind (Passage.text? src) := by
  unfold textAt? passageAt?
  split
  · unfold textRun?
    split
    · rfl
    · simp [told?, Passage.text?]
  · split <;> rfl

/-- **What is told.** The text content of a tree are those of its passages that are to be told, in
the order of the document. -/
theorem textContent_ofTree (src : Source) (root : Node) :
    (Info.ofTree src root).textContent = (passagesOf root).filterMap (Passage.text? src) := by
  rw [Info.textContent_eq, ← filterMap_passageAt?_cursors, List.filterMap_filterMap]
  exact congrArg (List.filterMap · _) (funext (textAt?_eq src))

end ContentGraph.Component
