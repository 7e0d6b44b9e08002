import ContentGraph.Text.Digit
import ContentGraph.Tsx.Lexeme
import ContentGraph.Word

/-!
# Values of string literals

A literal is read as pieces of plain text and escapes. An escape stands for one character, or
for nothing where it continues a line; one whose digits name no character stands for itself.
-/

namespace ContentGraph.Component

/-- A piece of a literal as it is written. -/
inductive LiteralPiece
  | text (written : List Char)
  | escape (written : List Char)
deriving Repr, DecidableEq

/-- The number that hexadecimal digits write behind `n`, while it is below 2³². -/
def hexNumberFrom? (n : Nat) : List Char → Option Nat
  | [] => some n
  | c :: s =>
    match Text.hexDigit? c with
    | none => none
    | some d => if n * 16 + d < Word.count 32 then hexNumberFrom? (n * 16 + d) s else none

/-- The number that one or more hexadecimal digits write, perhaps with a plus sign in front. -/
def hexNumber? (s : List Char) : Option Nat :=
  let digits := match s with
    | '+' :: t => t
    | t => t
  if digits.isEmpty then none else hexNumberFrom? 0 digits

/-- What an escape stands for; `whole` is the escape with its backslash, `first` the character
behind that and `rest` what follows. -/
def unescapeParts (whole : List Char) (first : Char) (rest : List Char) : List Char :=
  if first = 'n' then ['\n']
  else if first = 't' then ['\t']
  else if first = 'r' then ['\r']
  else if first = 'b' then ['\x08']
  else if first = 'f' then ['\x0c']
  else if first = 'v' then ['\x0b']
  else if first = '0' ∧ rest = [] then ['\x00']
  else if first = '\n' ∨ first = '\r' ∨ Tsx.isSeparator first then []
  else if first = 'x' ∨ first = 'u' then
    let digits := rest.dropWhile (· == '\x7b')
    let digits := (digits.reverse.dropWhile (· == '\x7d')).reverse
    match (hexNumber? digits).bind Text.charOf? with
    | some c => [c]
    | none => whole
  else [first]

/-- What an escape stands for. -/
def unescape (written : List Char) : List Char :=
  let body := match written with
    | '\\' :: s => s
    | s => s
  match body with
  | [] => []
  | first :: rest => unescapeParts written first rest

/-- The value of one piece. -/
def LiteralPiece.value : LiteralPiece → List Char
  | .text s => s
  | .escape s => unescape s

/-- The value of a literal. -/
def literalValue (pieces : List LiteralPiece) : List Char := pieces.flatMap LiteralPiece.value

end ContentGraph.Component
