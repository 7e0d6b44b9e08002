import ContentGraph.Tsx.Lexeme
import ContentGraph.Tsx.Tree

/-!
# Pieces of grammar

A piece reads some of a source from a position: it gives the nodes that it read and the position
behind them, or fails. Pieces are put together in sequence, by ordered choice, by repetition, and
by wrapping what was read into one node. Between lexemes stand space and comments.
-/

namespace ContentGraph.Tsx

/-- Reads nodes from a position of a source. -/
abbrev Piece := Source → Nat → Option (List Node × Nat)

namespace Piece

/-- Reads nothing. -/
def empty : Piece := fun _ i => some ([], i)

/-- Fails. -/
def fail : Piece := fun _ _ => none

/-- One piece behind the other. -/
def andThen (p q : Piece) : Piece := fun src i =>
  match p src i with
  | none => none
  | some (ns, j) =>
    match q src j with
    | none => none
    | some (ms, k) => some (ns ++ ms, k)

/-- One piece behind the other, which what the first read decides on. -/
def andThenBy (p : Piece) (q : List Node → Piece) : Piece := fun src i =>
  match p src i with
  | none => none
  | some (ns, j) => (q ns src j).map fun (ms, k) => (ns ++ ms, k)

/-- Pieces one behind the other. -/
def seq : List Piece → Piece
  | [] => empty
  | [p] => p
  | p :: ps => andThen p (seq ps)

/-- The first piece that does not fail. -/
def choice : List Piece → Piece
  | [] => fail
  | p :: ps => fun src i =>
    match p src i with
    | some r => some r
    | none => choice ps src i

/-- A piece or nothing. -/
def optional (p : Piece) : Piece := fun src i => (p src i).getD ([], i) |> some

/-- Repeats a piece while it reads on; `done` is what was read. -/
def repeatFrom (p : Piece) (src : Source) : Nat → List Node → Nat → List Node × Nat
  | 0, done, i => (done, i)
  | fuel + 1, done, i =>
    match p src i with
    | some (ns, j) => if i < j then repeatFrom p src fuel (done ++ ns) j else (done, i)
    | none => (done, i)

/-- A piece as often as it reads on. -/
def many (p : Piece) : Piece := fun src i => some (repeatFrom p src (src.size + 1) [] i)

/-- A piece once or more. -/
def many1 (p : Piece) : Piece := andThen p (many p)

/-- Reads on only where a test holds. -/
def when (test : Source → Nat → Bool) (p : Piece) : Piece := fun src i =>
  if test src i then p src i else none

/-- Reads nothing where a test holds. -/
def check (test : Source → Nat → Bool) : Piece := when test empty

/-- Reads nothing where a piece would fail. -/
def notAhead (p : Piece) : Piece := fun src i => if (p src i).isSome then none else some ([], i)

/-- Reads nothing where a piece would not fail. -/
def ahead (p : Piece) : Piece := fun src i => (p src i).map fun _ => ([], i)

/-! ## Nodes -/

/-- Wraps nodes that start at `start` or at the first of them. -/
def nodeOf (kind : Kind) (start stop : Nat) (children : List Node) : Node :=
  .mk kind none ⟨(children.head?.map (·.span.start)).getD start, stop⟩ children

/-- Wraps what a piece reads into one node. -/
def node (kind : Kind) (p : Piece) : Piece := fun src i =>
  match p src i with
  | none => none
  | some (ns, j) => some ([nodeOf kind (skipTrivia src i) j ns], j)

/-- Puts what a piece reads under a field. -/
def label (f : Field) (p : Piece) : Piece := fun src i =>
  (p src i).map fun (ns, j) => (ns.map (Node.withField f), j)

/-- Wraps nodes already read together with what a piece reads behind them. -/
def onto (kind : Kind) (left : List Node) (p : Piece) : Piece := fun src i =>
  (p src i).map fun (ns, j) => ([nodeOf kind i j (left ++ ns)], j)

/-- Extends what a piece read as long as a step, given what was read, reads on. -/
def growFrom (step : List Node → Piece) (src : Source) : Nat → List Node → Nat → List Node × Nat
  | 0, left, i => (left, i)
  | fuel + 1, left, i =>
    match step left src i with
    | some (ns, j) => if i < j then growFrom step src fuel ns j else (left, i)
    | none => (left, i)

/-- Extends a piece by steps. -/
def grow (p : Piece) (step : List Node → Piece) : Piece := fun src i =>
  match p src i with
  | none => none
  | some (ns, j) => some (growFrom step src (src.size + 1) ns j)

/-! ## Lexemes -/

/-- A lexeme that stands right at a position. -/
def immediate (kind : Kind) (find : Source → Nat → Option Nat) : Piece := fun src i =>
  (find src i).map fun j => ([Node.mk kind none ⟨i, j⟩ []], j)

/-- A lexeme behind space and comments. -/
def lexeme (kind : Kind) (find : Source → Nat → Option Nat) : Piece := fun src i =>
  immediate kind find src (skipTrivia src i)

/-- Punctuation right at a position. -/
def immediateMark (text : String) : Piece :=
  immediate (.token text) fun src i =>
    if src.startsWith i text.toList then some (i + text.length) else none

/-- Punctuation. -/
def mark (text : String) : Piece := fun src i => immediateMark text src (skipTrivia src i)

/-- Punctuation that none of the given characters follows. -/
def markNot (text : String) (follow : List Char) : Piece := fun src i =>
  let j := skipTrivia src i
  if (src.at? (j + text.length)).any (· ∈ follow) then none else immediateMark text src j

/-- A word that meets a condition. -/
def wordIf (kind : Kind) (ok : String → Bool) : Piece :=
  lexeme kind fun src i =>
    match word? src i with
    | some j => if ok (String.ofList (src.slice i j)) then some j else none
    | none => none

/-- A keyword. -/
def keyword (text : String) : Piece := wordIf (.token text) (· == text)

/-- One of some keywords. -/
def keywords (texts : List String) : Piece := choice (texts.map keyword)

/-- The word that comes next; empty if another lexeme does. -/
def nextWord (src : Source) (i : Nat) : String := wordText src (skipTrivia src i)

/-- The character that comes next. -/
def nextChar? (src : Source) (i : Nat) : Option Char := src.at? (skipTrivia src i)

/-- Holds when one of some words comes next. -/
def nextWordIn (words : List String) (src : Source) (i : Nat) : Bool := nextWord src i ∈ words

/-- Holds when one of some characters comes next. -/
def nextCharIn (chars : List Char) (src : Source) (i : Nat) : Bool :=
  (nextChar? src i).any (· ∈ chars)

/-! ## Lists -/

/-- A piece once or more, parted by another. -/
def sepBy1 (p sep : Piece) : Piece := andThen p (many (andThen sep p))

/-- A piece once or more with commas between, and perhaps one behind. -/
def commaList1 (p : Piece) : Piece := andThen (sepBy1 p (mark ",")) (optional (mark ","))

/-- Pieces with commas between, each of which may be left out. -/
def gappedList (p : Piece) : Piece :=
  andThen (optional p) (many (andThen (mark ",") (optional p)))

/-- The opening brace. -/
def openBrace : Piece := mark "\x7b"

/-- The closing brace. -/
def closeBrace : Piece := mark "\x7d"

/-- A piece in braces. -/
def braced (p : Piece) : Piece := seq [openBrace, p, closeBrace]

/-- A piece in parentheses. -/
def parenthesized (p : Piece) : Piece := seq [mark "(", p, mark ")"]

/-! ## Ends of statements -/

/-- Reads nothing where a statement may end without a semicolon. -/
def implicitEnd (rule : EndRule) : Piece := check fun src i => endsHere src rule i

/-- The end of a statement: an implicit one, or a semicolon. -/
def statementEnd (rule : EndRule) : Piece := choice [implicitEnd rule, mark ";"]

end Piece

end ContentGraph.Tsx
