import ContentGraph.Tsx.Piece

/-!
# Goals

The recursive parts of the grammar. Each rule is a piece that is given the pieces of all goals,
so that the rules need no recursion of their own.
-/

namespace ContentGraph.Tsx

/-- What the surroundings of an expression allow. -/
structure Context where
  /-- Holds when a statement may end behind the expression. -/
  ends : Bool
  /-- Holds when an arrow function may name its result type. -/
  arrowTypes : Bool
deriving Repr

/-- An expression that ends a statement. -/
def Context.statement : Context := ⟨true, true⟩

/-- An expression inside brackets or before other parts. -/
def Context.inner : Context := ⟨false, true⟩

/-- What the surroundings of a type allow. -/
structure TypeContext where
  /-- Holds when a statement or member may end behind the type. -/
  ends : Bool
  /-- How such an end is told. -/
  rule : EndRule
deriving Repr

/-- A type inside brackets or before other parts. -/
def TypeContext.inner : TypeContext := ⟨false, ⟨false, false⟩⟩

/-- A type that ends a statement or a field. -/
def TypeContext.statement : TypeContext := ⟨true, ⟨false, false⟩⟩

/-- A type that ends a signature. -/
def TypeContext.signature : TypeContext := ⟨true, ⟨false, true⟩⟩

/-- The recursive parts of the grammar. -/
inductive Goal
  | statement
  | expression (c : Context)
  | operand (c : Context)
  | type (c : TypeContext)
  | typeOperand (c : TypeContext)
  | pattern
  | markup
deriving Repr

/-- A piece for every goal. -/
abbrev Goals := Goal → Piece

/-- Holds where an expression cannot go on because a statement ends. -/
def Context.stops (c : Context) (src : Source) (i : Nat) : Bool :=
  c.ends && endsHere src ⟨true, false⟩ i

/-- Holds where a type cannot go on because a statement or member ends. -/
def TypeContext.stops (c : TypeContext) (src : Source) (i : Nat) : Bool :=
  c.ends && endsHere src c.rule i

/-- The words that are no names where an expression may start. -/
def operandWords : List String :=
  ["function", "class", "new", "typeof", "void", "delete", "await", "yield", "import", "this",
    "super", "true", "false", "null", "undefined", "using"]

/-- The words that are no names where a statement may start. -/
def statementWords : List String :=
  ["if", "for", "while", "do", "switch", "try", "with", "break", "continue", "return", "throw",
    "debugger", "var", "const", "interface", "enum", "abstract"]

end ContentGraph.Tsx
