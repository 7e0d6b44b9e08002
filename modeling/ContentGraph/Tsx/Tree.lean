/-!
# Syntax trees

A node has a kind, perhaps a field name under which its parent knows it, the span of source that
it covers, and children. Keywords and punctuation are nodes too, of the kind `token`. A cursor
is a node with the way back to the root; `Cursor.walk` visits a tree by moves of a cursor, and
`Node.preorder` lists it by recursion.
-/

namespace ContentGraph.Tsx

/-- The kinds of node. Constructs that no reader tells apart share a general kind. -/
inductive Kind
  /-- A keyword or punctuation. -/
  | token (text : String)
  | program
  | comment
  -- modules
  | importStatement
  | importClause
  | importRequireClause
  | importAlias
  | exportStatement
  | exportClause
  | moduleSpecifier
  -- declarations and statements
  | functionDeclaration
  | generatorFunctionDeclaration
  | functionSignature
  | classDeclaration
  | declaration
  | declarator
  | statement
  | statementBlock
  | clause
  -- classes and objects
  | decorator
  | classBody
  | method
  | member
  | pair
  | spread
  | parameters
  | parameter
  -- expressions
  | identifier
  | propertyIdentifier
  | undefined
  | keywordValue
  | number
  | string
  | stringFragment
  | escapeSequence
  | templateString
  | templateSubstitution
  | regex
  | object
  | array
  | functionExpression
  | generatorFunction
  | arrowFunction
  | classExpression
  | memberExpression
  | subscriptExpression
  | nonNullExpression
  | parenthesizedExpression
  | callExpression
  | arguments
  | assignment
  | expression
  | objectPattern
  | arrayPattern
  | restPattern
  | pattern
  -- types
  | typeAscription
  | typeParameters
  | typeArguments
  | objectType
  | typeExpression
  -- markup
  | jsxElement
  | jsxOpeningElement
  | jsxClosingElement
  | jsxSelfClosingElement
  | jsxNamespaceName
  | jsxAttribute
  | jsxExpression
  | jsxText
  | characterReference
deriving Repr, DecidableEq, Inhabited

/-- Holds for all nodes but keywords and punctuation. -/
def Kind.isNamed : Kind → Bool
  | .token _ => false
  | _ => true

/-- The names under which a parent knows a child. -/
inductive Field
  | source
  | name
  | value
  | declaration
  | openTag
  | closeTag
deriving Repr, DecidableEq

/-- A stretch of source, by character positions. -/
structure Span where
  start : Nat
  stop : Nat
deriving Repr, DecidableEq, Inhabited

/-- A node of a syntax tree. -/
inductive Node
  | mk (kind : Kind) (field : Option Field) (span : Span) (children : List Node)
deriving Repr, Inhabited

namespace Node

/-- The kind of a node. -/
def kind : Node → Kind
  | mk k _ _ _ => k

/-- The field under which the parent knows a node. -/
def field : Node → Option Field
  | mk _ f _ _ => f

/-- The source that a node covers. -/
def span : Node → Span
  | mk _ _ s _ => s

/-- The children of a node, left to right. -/
def children : Node → List Node
  | mk _ _ _ cs => cs

/-- The same node under a field. -/
def withField (f : Field) : Node → Node
  | mk k _ s cs => mk k (some f) s cs

/-- The first child under a field. -/
def childAt? (f : Field) (n : Node) : Option Node := n.children.find? (·.field == some f)

mutual

/-- A node and all nodes below it, parents first and siblings left to right. -/
def preorder : Node → List Node
  | mk k f s cs => mk k f s cs :: preorderAll cs

/-- The nodes of some trees, one tree after the other. -/
def preorderAll : List Node → List Node
  | [] => []
  | n :: ns => preorder n ++ preorderAll ns

end

mutual

/-- The number of nodes. -/
def size : Node → Nat
  | mk _ _ _ cs => sizeAll cs + 1

/-- The number of nodes of some trees. -/
def sizeAll : List Node → Nat
  | [] => 0
  | n :: ns => size n + sizeAll ns

end

end Node

/-! ## Cursors -/

/-- A child's surroundings: the parent, and the siblings to the left (nearest first) and right. -/
structure Frame where
  parent : Node
  before : List Node
  after : List Node
deriving Repr, Inhabited

/-- A node in a tree, with the surroundings of each node on the way up, nearest first. -/
structure Cursor where
  node : Node
  path : List Frame
deriving Repr, Inhabited

namespace Cursor

/-- The cursor at the root of a tree. -/
def ofRoot (n : Node) : Cursor := ⟨n, []⟩

/-- The parent of the node. -/
def parent? (c : Cursor) : Option Node := c.path.head?.map (·.parent)

/-- The sibling to the left. -/
def previousSibling? (c : Cursor) : Option Node := c.path.head?.bind fun f => f.before.head?

/-- The siblings to the right, nearest first. -/
def laterSiblings (c : Cursor) : List Node :=
  match c.path with
  | [] => []
  | f :: _ => f.after

/-- Moves to the first child. -/
def firstChild? (c : Cursor) : Option Cursor :=
  match c.node.children with
  | [] => none
  | n :: rest => some ⟨n, ⟨c.node, [], rest⟩ :: c.path⟩

/-- Moves to the sibling to the right. -/
def nextSibling? (c : Cursor) : Option Cursor :=
  match c.path with
  | ⟨p, before, n :: after⟩ :: path => some ⟨n, ⟨p, c.node :: before, after⟩ :: path⟩
  | _ => none

/-- Moves up. -/
def up? (c : Cursor) : Option Cursor :=
  match c.path with
  | f :: path => some ⟨f.parent, path⟩
  | [] => none

/-- Moves to the sibling to the right of the node or of the nearest node above that has one. -/
def nextFrom : List Frame → Node → Option Cursor
  | [], _ => none
  | ⟨p, before, n :: after⟩ :: path, node => some ⟨n, ⟨p, node :: before, after⟩ :: path⟩
  | ⟨p, _, []⟩ :: path, _ => nextFrom path p

/-- Moves to the next node of a walk: the first child, else a sibling to the right of the node or
of a node above it. -/
def next? (c : Cursor) : Option Cursor :=
  match c.firstChild? with
  | some d => some d
  | none => nextFrom c.path c.node

/-- The number of nodes to the right of a path. -/
def sizeBeside : List Frame → Nat
  | [] => 0
  | f :: path => Node.sizeAll f.after + sizeBeside path

/-- The number of nodes behind the cursor's node in a walk. -/
def remaining (c : Cursor) : Nat := Node.sizeAll c.node.children + sizeBeside c.path

theorem remaining_nextFrom {path : List Frame} {node : Node} {d : Cursor}
    (h : nextFrom path node = some d) :
    d.remaining < sizeBeside path := by
  fun_induction nextFrom path node with
  | case1 => simp at h
  | case2 p before n after path node =>
    cases h
    obtain ⟨k, f, s, cs⟩ := n
    simp only [remaining, Node.children, sizeBeside, Node.sizeAll, Node.size]
    omega
  | case3 p before path node ih =>
    have := ih h
    simpa [sizeBeside, Node.sizeAll] using this

theorem remaining_next? {c d : Cursor} (h : c.next? = some d) : d.remaining < c.remaining := by
  obtain ⟨⟨k, f, s, cs⟩, path⟩ := c
  cases cs with
  | nil =>
    simp only [next?, firstChild?, Node.children] at h
    have := remaining_nextFrom h
    simp only [remaining, Node.children, Node.sizeAll] at this ⊢
    omega
  | cons n rest =>
    simp only [next?, firstChild?, Node.children, Option.some.injEq] at h
    subst h
    obtain ⟨k', f', s', cs'⟩ := n
    simp only [remaining, Node.children, sizeBeside, Node.sizeAll, Node.size]
    omega

/-- Folds a function over the nodes from the cursor on, by moves of the cursor. -/
def walk {α : Type} (visit : α → Cursor → α) (acc : α) (c : Cursor) : α :=
  let acc := visit acc c
  match h : c.next? with
  | some d =>
    have := remaining_next? h
    walk visit acc d
  | none => acc
termination_by c.remaining

end Cursor

end ContentGraph.Tsx
