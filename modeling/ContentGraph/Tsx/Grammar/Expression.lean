import ContentGraph.Tsx.Grammar.Markup

/-!
# Grammar of expressions

Operands with what is attached to them, operators between operands, functions, classes and
object literals. Chains of operators are read from left to right; that binding strengths are not
told apart changes no reader's answer.
-/

namespace ContentGraph.Tsx.Grammar

open Piece
open Text (isDigit)

/-- An expression inside brackets. -/
def inner (g : Goals) : Piece := g (.expression .inner)

/-- Expressions with commas between. -/
def expressions (g : Goals) (c : Context) : Piece :=
  sepBy1 (g (.expression c)) (mark ",")

/-- Statements in braces. -/
def block (g : Goals) : Piece := node .statementBlock (braced (many (g .statement)))

/-- Three dots and an expression. -/
def spread (g : Goals) : Piece := node .spread (seq [mark "...", inner g])

/-- The arguments of a call. -/
def arguments (g : Goals) : Piece :=
  node .arguments (parenthesized (gappedList (choice [spread g, inner g])))

/-- A template with substitutions. -/
def template (g : Goals) : Piece := templateOf .templateString (expressions g .inner)

/-! ## Functions -/

/-- Parameters, answer and body of a function that is a value. -/
def functionTail (g : Goals) : Piece := seq [signature g .inner, block g]

/-- A function or generator as a value. -/
def functionValue (g : Goals) : Piece :=
  let opening := seq [optional (keyword "async"), keyword "function"]
  let named := optional (label .name anyName)
  choice [
    node .generatorFunction (seq [opening, mark "*", named, functionTail g]),
    node .functionExpression (seq [opening, named, functionTail g])]

/-- The body of an arrow function. -/
def arrowBody (g : Goals) (c : Context) : Piece := choice [
  when (nextCharIn ['\x7b']) (block g),
  g (.expression c)]

/-- An arrow function. -/
def arrowFunction (g : Goals) (c : Context) : Piece :=
  let types := if c.arrowTypes then optional (resultAscription g .inner) else empty
  node .arrowFunction (seq [
    optional (seq [keyword "async", notAhead (mark "=>")]),
    choice [
      seq [name, mark "=>"],
      seq [optional (typeParameters g), parameters g, types, mark "=>"]],
    arrowBody g c])

/-! ## Classes -/

/-- What a class extends and implements. -/
def heritage (g : Goals) : Piece :=
  let base := seq [inner g, optional (typeArguments g)]
  seq [
    optional (node .clause (seq [keyword "extends", sepBy1 base (mark ",")])),
    optional (node .clause (seq [keyword "implements", sepBy1 (innerType g) (mark ",")]))]

/-- How the end of a field without a value is told. -/
def fieldRule : EndRule := ⟨false, false⟩

/-- Holds where a field ends, so that no modifier stands before it. -/
def fieldStops (src : Source) (i : Nat) : Bool := endsHere src fieldRule i

/-- The word modifiers of methods, in their order. -/
def methodModifiers : List (List String) := signatureModifiers

/-- The word modifiers of abstract methods, in their order. -/
def abstractModifiers : List (List String) :=
  [accessWords, ["abstract"], ["override"], ["get", "set"]]

/-- The orders in which the word modifiers of fields may stand. -/
def fieldModifiers : List (List (List String)) :=
  let reach := [["declare"], accessWords, ["declare"]]
  [reach ++ [["static"], ["override"], ["readonly"]],
    reach ++ [["abstract"], ["readonly"]],
    reach ++ [["readonly"], ["abstract"]],
    reach ++ [["accessor"]]]

/-- Modifiers in one of some orders, with the name that they stand before. -/
def modifiedName (g : Goals) (orders : List (List (List String))) : Piece :=
  choice (orders.map fun order => seq [
    modifiersInOrder fieldStops order,
    optional (mark "*"),
    propertyName g,
    check fun src i => fieldStops src i || !startsPropertyName src i])

/-- A method with its body, or its signature alone. -/
def classMethod (g : Goals) : Piece := node .method (seq [
  modifiedName g [methodModifiers, abstractModifiers],
  optional (mark "?"),
  when (nextCharIn ['(', '<']) (signature g .signature),
  choice [
    when (nextCharIn ['\x7b']) (block g),
    mark ",",
    statementEnd ⟨false, true⟩]])

/-- A field with a type and a value. -/
def classField (g : Goals) : Piece := node .member (seq [
  modifiedName g fieldModifiers,
  optional (choice [mark "?", mark "!"]),
  optional (ascription g .statement),
  choice [
    seq [initializer g .statement, choice [mark ",", statementEnd ⟨true, false⟩]],
    choice [mark ",", statementEnd fieldRule]]])

/-- A member of a class. -/
def classMember (g : Goals) : Piece := choice [
  mark ";",
  node .member (seq [keyword "static", block g]),
  seq [indexSignature g, choice [mark ",", statementEnd fieldRule]],
  seq [many (decorator g), choice [classMethod g, classField g]]]

/-- The members of a class in braces. -/
def classBody (g : Goals) : Piece := node .classBody (braced (many (classMember g)))

/-- Type parameters, bases and body of a class. -/
def classTail (g : Goals) : Piece := seq [optional (typeParameters g), heritage g, classBody g]

/-- A class as a value. -/
def classValue (g : Goals) : Piece := node .classExpression (seq [
  many (decorator g), keyword "class",
  optional (seq [notAhead (choice [keyword "extends", keyword "implements"]), label .name anyName]),
  classTail g])

/-! ## Objects and arrays -/

/-- Holds behind a member of an object literal. -/
def memberDone : Piece := ahead (choice [mark ",", closeBrace])

/-- A member of an object literal. -/
def objectMember (g : Goals) : Piece := choice [
  spread g,
  node .pair (seq [propertyName g, mark ":", inner g]),
  seq [anyName, memberDone],
  node .method (seq [
    modifiersInOrder (fun _ _ => false) signatureModifiers,
    optional (mark "*"),
    propertyName g,
    optional (mark "?"),
    signature g .inner,
    block g])]

/-- An object literal. -/
def object (g : Goals) : Piece := node .object (braced (gappedList (objectMember g)))

/-- An array literal. -/
def array (g : Goals) : Piece :=
  node .array (seq [mark "[", gappedList (choice [spread g, inner g]), mark "]"])

/-! ## Patterns -/

/-- The equals sign of an assignment. -/
def assign : Piece := markNot "=" ['=', '>']

/-- A member of an object pattern. -/
def patternMember (g : Goals) : Piece :=
  let default := optional (seq [assign, inner g])
  choice [
    seq [ahead (mark "..."), g .pattern],
    node .pair (seq [propertyName g, mark ":", g .pattern, default]),
    node .pattern (seq [anyName, default])]

/-- An object pattern. -/
def objectPattern (g : Goals) : Piece :=
  node .objectPattern (braced (gappedList (patternMember g)))

/-- An array pattern. -/
def arrayPattern (g : Goals) : Piece :=
  node .arrayPattern (seq [mark "[",
    gappedList (seq [g .pattern, optional (seq [assign, inner g])]), mark "]"])

/-- A pattern that takes an object or array apart. -/
def destructuring (g : Goals) : Piece := choice [objectPattern g, arrayPattern g]

/-- A name or `this` with members behind it, as a target. -/
def memberTarget (g : Goals) : Piece :=
  grow (choice [name, node .undefined (keyword "undefined"),
      seq [node .keywordValue (keyword "this"), ahead (choice [mark ".", mark "["])]])
    fun left => choice [
      onto .memberExpression left (seq [mark ".", memberName]),
      onto .subscriptExpression left (seq [mark "[", expressions g .inner, mark "]"]),
      onto .nonNullExpression left (markNot "!" ['='])]

/-- A pattern: a rest, an object or array pattern, or a target. -/
def pattern (g : Goals) : Piece := choice [
  node .restPattern (seq [mark "...", choice [destructuring g, memberTarget g]]),
  destructuring g,
  memberTarget g]

/-! ## Operands -/

/-- A member of what was read, of which it is attached by a dot. -/
def memberStep (left : List Node) : Piece :=
  onto .memberExpression left (seq [markNot "." ['.'], memberName])

/-- A new object. -/
def newExpression (g : Goals) (primary : Piece) : Piece :=
  let constructor := grow primary fun left => choice [
    memberStep left,
    onto .subscriptExpression left (seq [mark "[", expressions g .inner, mark "]"]),
    onto .nonNullExpression left (markNot "!" ['='])]
  node .expression (seq [keyword "new", choice [
    seq [mark ".", keyword "target"],
    seq [constructor, optional (seq [
      optional (typeArguments g), ahead (mark "("), arguments g]),
      optional (typeArguments g)]]])

/-- An operand that nothing is attached to, but for `new`. -/
def simpleOperand (g : Goals) (c : Context) : Piece := choice [
  arrowFunction g c,
  functionValue g,
  classValue g,
  node .parenthesizedExpression (parenthesized (seq [inner g, choice [
    ascription g .inner, many (seq [mark ",", inner g])]])),
  string,
  template g,
  number,
  regex,
  object g,
  array g,
  g .markup,
  node .undefined (keyword "undefined"),
  node .keywordValue (keywords ["this", "super", "true", "false", "null"]),
  node .keywordValue (seq [keyword "import", ahead (choice [mark "(", mark "."])]),
  seq [privateName, ahead (keyword "in")],
  node .declaration (seq [keyword "namespace", check fun src i => !c.stops src i,
    notAhead (mark "="), moduleName,
    when (nextCharIn ['\x7b']) (block g)]),
  name]
where
  /-- A dotted name or a string. -/
  moduleName : Piece := choice [string, seq [anyName, many (seq [mark ".", propertyWord])]]

/-- Holds where nothing follows that could start an operand. -/
def endsInstantiation (c : Context) (src : Source) (i : Nat) : Bool :=
  c.stops src i ||
    (let j := skipTrivia src i
     let w := wordText src j
     if w != "" then w ∈ ["as", "satisfies", "in", "instanceof", "of", "implements", "extends"]
     else !(src.at? j).any fun d =>
       isDigit d || d == doubleQuote || d == singleQuote || d == '[' || d == '+' || d == '-'
         || d == '<' || d == '!' || d == '~' || d == '/' || d == '@' || d == '(' || d == tick)

/-- What may be attached behind an operand. -/
def attachment (g : Goals) (c : Context) (left : List Node) : Piece :=
  let free := fun src i => !c.stops src i
  choice [
    memberStep left,
    onto .callExpression left (seq [optional (seq [mark "?.", notAhead digit]), arguments g]),
    onto .subscriptExpression left (seq [
      optional (seq [mark "?.", notAhead digit]), mark "[", expressions g .inner, mark "]"]),
    onto .memberExpression left (seq [mark "?.", notAhead digit, memberName]),
    onto .callExpression left (seq [mark "?.", typeArguments g, arguments g]),
    onto .callExpression left (template g),
    onto .nonNullExpression left (when free (markNot "!" ['='])),
    onto .expression left (when free (choice [mark "++", mark "--"])),
    onto .callExpression left (seq [markNotAhead "<<", typeArguments g, choice [
      arguments g, template g, check (endsInstantiation c)]])]
where
  /-- A digit right at the position. -/
  digit : Piece := check fun src i => (src.at? i).any isDigit
  /-- Nothing, unless the given text comes next. -/
  markNotAhead (text : String) : Piece := notAhead (mark text)

/-- An operand with all that is attached to it. -/
def attachedOperand (g : Goals) (c : Context) : Piece :=
  let simple := simpleOperand g c
  grow (choice [newExpression g simple, simple, wordIf .identifier (· == "new")]) (attachment g c)

/-! ## Assignments -/

/-- Holds for what can be assigned to. -/
def isTarget : Kind → Bool
  | .identifier => true
  | .undefined => true
  | .memberExpression => true
  | .subscriptExpression => true
  | .nonNullExpression => true
  | .parenthesizedExpression => true
  | _ => false

/-- The signs that assign the result of an operator. -/
def updateSigns : List String :=
  ["+=", "-=", "*=", "/=", "%=", "^=", "&=", "|=", ">>=", ">>>=", "<<=", "**=", "&&=", "||=", "??="]

/-- An operand, or an assignment to one. -/
def assignment (g : Goals) (c : Context) : Piece := fun src i =>
  match attachedOperand g c src i with
  | none => patternAssignment src i
  | some (left, j) =>
    if (left.head?.map Node.kind).any isTarget then
      match onto .assignment left (seq [choice (assign :: updateSigns.map mark),
          g (.expression c)]) src j with
      | some r => some r
      | none => some (left, j)
    else if nextCharIn ['='] src j then
      match patternAssignment src i with
      | some r => some r
      | none => some (left, j)
    else some (left, j)
where
  /-- An assignment that takes an object or array apart. -/
  patternAssignment : Piece :=
    node .assignment (seq [destructuring g, assign, g (.expression c)])

/-- An operand with its sign, or a form that is led by a word. -/
def operand (g : Goals) (c : Context) : Piece := choice [
  node .expression (seq [choice [mark "++", mark "--"], g (.operand c)]),
  node .expression (seq [choice [mark "!", mark "~", mark "-", mark "+"], g (.operand c)]),
  node .expression (seq [keywords ["typeof", "void", "delete", "await"], g (.operand c)]),
  node .expression (seq [keyword "yield", choice [
    seq [mark "*", g (.expression c)],
    seq [check fun src i => !c.stops src i, g (.expression c)],
    empty]]),
  node .assignment (seq [keyword "using", choice [
      destructuring g, memberTarget g,
      node .parenthesizedExpression (parenthesized (expressions g .inner))],
    assign, g (.expression c)]),
  assignment g c]

/-! ## Operators -/

/-- The signs between operands, each with the characters that may not follow it. -/
def binarySigns : List (String × List Char) :=
  [(">>>", ['=']), (">>", ['=', '>']), ("<<", ['=']), ("===", []), ("!==", []), ("==", ['=']),
    ("!=", ['=']), ("<=", []), (">=", []), ("**", ['=']), ("&&", ['=']), ("||", ['=']),
    ("??", ['=']), ("&", ['=', '&']), ("^", ['=']), ("|", ['=', '|']), ("+", ['=', '+']),
    ("-", ['=', '-']), ("*", ['=', '*']), ("/", ['=']), ("%", ['=']), ("<", ['=', '<']),
    (">", ['=', '>'])]

/-- The question mark of a conditional expression. No second one, no dot without a digit, and
nothing that ends a parameter follows it. -/
def questionMark : Piece := seq [mark "?", check fun src i =>
  if src.isAt i '?' then false
  else if src.isAt i '.' then (src.at? (i + 1)).any isDigit
  else !(src.at? (src.skipWhile isAsciiSpace i)).any fun c => c == ':' || c == ')' || c == ',']

/-- The choices of a conditional expression. If the first choice takes the colon for a result
type, it is read again without result types. -/
def choices (g : Goals) (c : Context) : Piece := fun src i =>
  let last := seq [mark ":", g (.expression c)]
  match inner g src i with
  | none => none
  | some (first, j) =>
    if nextCharIn [':'] src j then (last src j).map fun (rest, k) => (first ++ rest, k)
    else seq [g (.expression ⟨false, false⟩), last] src i

/-- An expression: operands with operators between and behind them. -/
def expression (g : Goals) (c : Context) : Piece :=
  let typePlace : TypeContext := ⟨c.ends, ⟨true, false⟩⟩
  grow (g (.operand c)) fun left =>
    onto .expression left (when (fun src i => !c.stops src i) (choice [
      seq [choice (binarySigns.map fun s => markNot s.1 s.2), g (.operand c)],
      seq [keywords ["in", "instanceof"], g (.operand c)],
      seq [keyword "as", choice [keyword "const", g (.type typePlace)]],
      seq [keyword "satisfies", g (.type typePlace)],
      seq [questionMark, choices g c]]))

end ContentGraph.Tsx.Grammar
