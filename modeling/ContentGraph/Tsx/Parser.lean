import ContentGraph.Tsx.Grammar.Statement

/-!
# Reading TSX

`parse?` ties the rules of the grammar together: the pieces of all goals with fuel `n + 1` are
the rules over the pieces with fuel `n`. Each rule reads something before it comes back to the
same goal, so fuel in proportion to the size of the source is enough.
-/

namespace ContentGraph.Tsx

/-- The rule of a goal. -/
def rule (g : Goals) : Goals
  | .statement => Grammar.statement g
  | .expression c => Grammar.expression g c
  | .operand c => Grammar.operand g c
  | .type c => Grammar.type g c
  | .typeOperand c => Grammar.bracketedType g c
  | .pattern => Grammar.pattern g
  | .markup => Grammar.markup g (Grammar.expressions g .inner)

/-- The pieces of all goals, to a depth of nesting. -/
def goals : Nat → Goals
  | 0, _ => Piece.fail
  | n + 1, goal => fun src i => rule (goals n) goal src i

/-- The line by which a script names its interpreter. -/
def interpreterLine : Piece := Piece.optional fun src i =>
  if src.startsWith i ['#', '!'] then some ([], src.skipWhile (· != '\n') i) else none

/-- A whole source. -/
def programPiece (g : Goals) : Piece :=
  Piece.node .program (Piece.seq [interpreterLine, Piece.many (g .statement)])

/-- The syntax tree of a source, if all of it is well formed. -/
def parse? (src : Source) : Option Node :=
  match programPiece (goals (8 * src.size + 64)) src 0 with
  | some ([n], j) => if skipPageTrivia src j = src.size then some n else none
  | _ => none

end ContentGraph.Tsx
