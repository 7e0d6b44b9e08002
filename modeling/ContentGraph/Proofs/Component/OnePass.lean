import ContentGraph.Proofs.Component.Findings
import ContentGraph.Proofs.Tsx.Preorder

/-!
# One pass over a component

The analysis of a component walks over its tree by moves of a cursor. Main statement: for every tree
the walk ends, and has come to every place of the tree once, parents before children and siblings
left to right; so what is collected is what the nodes tell in that order, and of the tags each the
first time only (`onePass_ofTree`).
-/

namespace ContentGraph.Component

open Tsx

section Pass

variable (src : Source)

/-- A further element is kept if it is new. -/
theorem eraseDups_concat (tags : List String) (told : Option String) :
    (tags ++ told.toList).eraseDups
      = tags.eraseDups ++ told.toList.filter (· ∉ tags.eraseDups) := by
  rw [List.eraseDups_append]
  cases told with
  | none => rfl
  | some tag =>
      by_cases hmem : tag ∈ tags
      · simp [List.removeAll, hmem]
      · simp [List.removeAll, hmem, List.eraseDups_cons]

/-- Visits keep of the tags each the first time only. -/
theorem Info.jsxElements_foldl (cs : List Cursor) {info : Info} {tags : List String}
    (h : info.jsxElements = tags.eraseDups) :
    (cs.foldl (Info.visit src) info).jsxElements
      = (tags ++ cs.filterMap fun c => tagOf? src c.node).eraseDups := by
  induction cs generalizing info tags with
  | nil => simpa using h
  | cons c cs ih =>
      have hvisit : (info.visit src c).jsxElements
          = (tags ++ (tagOf? src c.node).toList).eraseDups := by
        rw [Info.visit_eq, eraseDups_concat, ← h]
      rw [List.foldl_cons, ih hvisit, List.append_assoc]
      cases htag : tagOf? src c.node <;> simp [htag]

/-- The tags of a tree, in the order of the document, each the first time only. -/
theorem Info.jsxElements_ofTree (root : Node) :
    (Info.ofTree src root).jsxElements
      = ((Cursor.cursors root).filterMap fun c => tagOf? src c.node).eraseDups := by
  have hnone : ({} : Info).jsxElements = ([] : List String).eraseDups := rfl
  rw [Info.ofTree, Cursor.walk_eq_foldl, Info.jsxElements_foldl src _ hnone, List.nil_append]

/-- What one pass over a tree means. -/
structure OnePass (root : Node) (info : Info) : Prop where
  /-- The walk ends in one way, after two rounds for each node. -/
  ends : ∀ k cs, Cursor.Ends (.arrived (.ofRoot root)) k cs
    ↔ k = 2 * root.size ∧ cs = Cursor.cursors root
  /-- It has come to all places, each time to the node that is there. -/
  complete : ∀ place n, (∃ c ∈ Cursor.cursors root, c.place = place ∧ c.node = n)
    ↔ root.at? place = some n
  /-- It comes to parents before children, to siblings left to right, and to no place twice. -/
  ordered : (Cursor.cursors root).Pairwise fun c d => c.place < d.place
  /-- What is collected comes of one visit to each. -/
  visited : info = (Cursor.cursors root).foldl (Info.visit src) {}
  imports : info.imports = (Cursor.cursors root).filterMap fun c => importOf? src c.node
  exports : info.exports
    = (Cursor.cursors root).filterMap fun c => (exportName? c).map (nameOf src)
  textContent : info.textContent = (Cursor.cursors root).filterMap (textAt? src)
  /-- Of the plain and dotted names of tags each is kept the first time. -/
  jsxElements : info.jsxElements
    = ((Cursor.cursors root).filterMap fun c => tagOf? src c.node).eraseDups

/-- **One pass.** The analysis of a tree ends, and has visited every node once, parents before
children and siblings left to right. It collects what they tell in that order, and leaves out
nothing but tags that it has already. -/
theorem onePass_ofTree (root : Node) : OnePass src root (Info.ofTree src root) where
  ends := Cursor.ends_iff root
  complete _ _ := Cursor.mem_cursors_iff
  ordered := Cursor.pairwise_place_cursors root
  visited := Cursor.walk_eq_foldl _ _ root
  imports := Info.yields_ofTree (fun info c => congrArg Info.imports (info.visit_eq src c)) rfl root
  exports := Info.yields_ofTree (fun info c => congrArg Info.exports (info.visit_eq src c)) rfl root
  textContent := Info.textContent_eq src root
  jsxElements := Info.jsxElements_ofTree src root

end Pass

end ContentGraph.Component
