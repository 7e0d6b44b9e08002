import ContentGraph.Tsx.Tree

/-!
# Walks over trees

A walk by moves of a cursor comes to every node of a tree once, parents before children and
siblings left to right: it folds over the cursors that recursion on the tree lists
(`walk_eq_foldl`), and the nodes of these are the tree in preorder (`map_node_cursors`).
-/

namespace ContentGraph.Tsx.Cursor

mutual

/-- The cursors at a node and at the nodes below it. -/
def below (path : List Frame) : Node → List Cursor
  | .mk kind field span children =>
    ⟨.mk kind field span children, path⟩
      :: belowAll (.mk kind field span children) path [] children

/-- The cursors at siblings, and at the nodes below them; to the left of them, nearest first, stand
the nodes `before`. -/
def belowAll (parent : Node) (path : List Frame) (before : List Node) : List Node → List Cursor
  | [] => []
  | n :: after => below (⟨parent, before, after⟩ :: path) n
      ++ belowAll parent path (n :: before) after

end

/-- The cursors at all nodes of a tree. -/
def cursors (root : Node) : List Cursor := below [] root

mutual

theorem map_node_below (path : List Frame) :
    (n : Node) → (below path n).map (·.node) = n.preorder
  | .mk kind field span children => by
      simp only [below, Node.preorder, List.map_cons, map_node_belowAll]

theorem map_node_belowAll (parent : Node) (path : List Frame) (before : List Node) :
    (ns : List Node) → (belowAll parent path before ns).map (·.node) = Node.preorderAll ns
  | [] => rfl
  | n :: after => by
      simp only [belowAll, Node.preorderAll, List.map_append, map_node_below, map_node_belowAll]

end

/-- The cursors at siblings; to the left of them, nearest first, stand the nodes `before`. -/
def siblings (parent : Node) (path : List Frame) (before : List Node) : List Node → List Cursor
  | [] => []
  | n :: after =>
    ⟨n, ⟨parent, before, after⟩ :: path⟩ :: siblings parent path (n :: before) after

/-- The cursors at the children of a cursor's node. -/
def children (c : Cursor) : List Cursor := siblings c.node c.path [] c.node.children

/-- Each sibling stands between those before and those behind it. -/
theorem siblings_eq_mapIdx (parent : Node) (path : List Frame) (before ns : List Node) :
    siblings parent path before ns
      = ns.mapIdx fun k n => ⟨n, ⟨parent, (ns.take k).reverse ++ before, ns.drop (k + 1)⟩ :: path⟩ := by
  induction ns generalizing before with
  | nil => rfl
  | cons n after ih =>
      rw [siblings, ih, List.mapIdx_cons]
      simp

theorem map_node_siblings (parent : Node) (path : List Frame) (before ns : List Node) :
    (siblings parent path before ns).map (·.node) = ns := by
  induction ns generalizing before with
  | nil => rfl
  | cons n after ih => rw [siblings, List.map_cons, ih]

theorem map_node_children (c : Cursor) : c.children.map (·.node) = c.node.children :=
  map_node_siblings c.node c.path [] c.node.children

theorem below_eq (path : List Frame) (n : Node) :
    below path n = ⟨n, path⟩ :: belowAll n path [] n.children := by
  obtain ⟨kind, field, span, children⟩ := n
  rw [below, Node.children]

/-- A walk over siblings and what is below them comes to the siblings in their order. -/
theorem siblings_sublist_belowAll (parent : Node) (path : List Frame) (before ns : List Node) :
    (siblings parent path before ns).Sublist (belowAll parent path before ns) := by
  induction ns generalizing before with
  | nil => exact List.Sublist.slnil
  | cons n after ih =>
      rw [siblings, belowAll, below_eq, List.cons_append]
      exact ((ih (n :: before)).trans (List.sublist_append_right _ _)).cons_cons _

mutual

theorem children_sublist_below {c : Cursor} (path : List Frame) : (n : Node) → c ∈ below path n →
    c.children.Sublist (below path n)
  | .mk kind field span children, h => by
      rw [below] at h ⊢
      rcases List.mem_cons.1 h with rfl | h
      · exact (siblings_sublist_belowAll _ path [] children).cons _
      · exact (children_sublist_belowAll _ path [] children h).cons _

theorem children_sublist_belowAll {c : Cursor} (parent : Node) (path : List Frame)
    (before : List Node) : (ns : List Node) → c ∈ belowAll parent path before ns →
    c.children.Sublist (belowAll parent path before ns)
  | n :: after, h => by
      rw [belowAll] at h ⊢
      rcases List.mem_append.1 h with h | h
      · exact (children_sublist_below _ n h).trans (List.sublist_append_left _ _)
      · exact (children_sublist_belowAll parent path _ after h).trans (List.sublist_append_right _ _)

end

/-- A walk comes to the children of a node in their order. -/
theorem children_sublist_cursors {c : Cursor} {root : Node} (h : c ∈ cursors root) :
    c.children.Sublist (cursors root) :=
  children_sublist_below [] root h

/-! ## The walk -/

section Walk

variable {α : Type} (visit : α → Cursor → α)

/-- Walks on from the next cursor, if there is one. -/
def walkOn (acc : α) : Option Cursor → α
  | some c => walk visit acc c
  | none => acc

theorem walk_eq (acc : α) (c : Cursor) : walk visit acc c = walkOn visit (visit acc c) c.next? := by
  rw [walk]
  split
  · rename_i d hnext
    simp only [hnext, walkOn]
  · rename_i hnext
    simp only [hnext, walkOn]

/-- The cursor at the first of some siblings; behind the last it moves on from the parent. -/
def firstFrom (parent : Node) (path : List Frame) (before : List Node) :
    List Node → Option Cursor
  | [] => nextFrom path parent
  | n :: after => some ⟨n, ⟨parent, before, after⟩ :: path⟩

theorem next?_eq (n : Node) (path : List Frame) :
    next? ⟨n, path⟩ = firstFrom n path [] n.children := by
  unfold next? firstChild?
  cases n.children with
  | nil => rfl
  | cons m after => rfl

theorem nextFrom_cons (n parent : Node) (path : List Frame) (before after : List Node) :
    nextFrom (⟨parent, before, after⟩ :: path) n = firstFrom parent path (n :: before) after := by
  cases after with
  | nil => rfl
  | cons m after => rfl

mutual

/-- A walk that has come to a node visits what is below it, and goes on behind it. -/
theorem walk_below (path : List Frame) : (n : Node) → (acc : α) →
    walk visit acc ⟨n, path⟩ = walkOn visit ((below path n).foldl visit acc) (nextFrom path n)
  | .mk kind field span children, acc => by
      rw [walk_eq, next?_eq, below, List.foldl_cons]
      exact walkOn_firstFrom (.mk kind field span children) path [] children _

/-- A walk that has come to siblings visits them all, and goes on behind their parent. -/
theorem walkOn_firstFrom (parent : Node) (path : List Frame) (before : List Node) :
    (ns : List Node) → (acc : α) →
    walkOn visit acc (firstFrom parent path before ns)
      = walkOn visit ((belowAll parent path before ns).foldl visit acc) (nextFrom path parent)
  | [], acc => rfl
  | n :: after, acc => by
      show walk visit acc ⟨n, ⟨parent, before, after⟩ :: path⟩ = _
      rw [walk_below, nextFrom_cons, belowAll, List.foldl_append]
      exact walkOn_firstFrom parent path (n :: before) after _

end

/-- **Walks.** A walk over a tree folds over the cursors at all its nodes. -/
theorem walk_eq_foldl (acc : α) (root : Node) :
    walk visit acc (ofRoot root) = (cursors root).foldl visit acc :=
  walk_below visit [] root acc

end Walk

end ContentGraph.Tsx.Cursor
