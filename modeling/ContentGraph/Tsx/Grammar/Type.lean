import ContentGraph.Tsx.Grammar.Literal

/-!
# Grammar of types

Types, type parameters and arguments, parameters, signatures, and the members of object types.
-/

namespace ContentGraph.Tsx.Grammar

open Piece

/-- A type inside brackets. -/
def innerType (g : Goals) : Piece := g (.type .inner)

/-- A type behind a colon. -/
def ascription (g : Goals) (c : TypeContext) : Piece :=
  node .typeAscription (seq [mark ":", g (.type c)])

/-- Types between angle brackets. -/
def typeArguments (g : Goals) : Piece :=
  node .typeArguments (seq [mark "<", commaList1 (innerType g), mark ">"])

/-- One type parameter, with a bound and a default. -/
def typeParameter (g : Goals) : Piece := node .typeExpression (seq [
  optional (seq [keyword "const", ahead anyName]),
  anyName,
  optional (seq [choice [keyword "extends", mark ":"], innerType g]),
  optional (seq [markNot "=" ['>'], innerType g])])

/-- Type parameters between angle brackets. -/
def typeParameters (g : Goals) : Piece :=
  node .typeParameters (seq [mark "<", commaList1 (typeParameter g), mark ">"])

/-! ## Parameters and signatures -/

/-- A value behind an equals sign. -/
def initializer (g : Goals) (c : Context) : Piece :=
  seq [markNot "=" ['=', '>'], label .value (g (.expression c))]

/-- The words for who may reach a member. -/
def accessWords : List String := ["public", "private", "protected"]

/-- A modifier of a parameter, in front of another word or a pattern. -/
def parameterModifier (words : List String) : Piece := fun src i =>
  seq [keywords words, check fun src i =>
    (word? src (skipTrivia src i)).isSome || nextCharIn ['\x7b', '[', '.'] src i] src i

/-- A decorator: a dotted name, perhaps called, or an expression in parentheses. -/
def decorator (g : Goals) : Piece :=
  let argument := choice [
    g (.expression .inner), node .spread (seq [mark "...", g (.expression .inner)])]
  let arguments := node .arguments (parenthesized (gappedList argument))
  node .decorator (seq [mark "@", choice [
    seq [anyName, many (seq [mark ".", propertyWord]),
      optional (seq [optional (typeArguments g), arguments])],
    parenthesized (g (.expression .inner))]])

/-- One parameter of a function. -/
def parameter (g : Goals) : Piece := node .parameter (seq [
  many (decorator g),
  optional (parameterModifier accessWords),
  optional (parameterModifier ["override"]),
  optional (parameterModifier ["readonly"]),
  choice [keyword "this", g .pattern],
  optional (mark "?"),
  optional (ascription g .inner),
  optional (initializer g .inner)])

/-- The parameters of a function. -/
def parameters (g : Goals) : Piece :=
  node .parameters (parenthesized (optional (commaList1 (parameter g))))

/-- The subject of a type predicate. -/
def predicateSubject : Piece := choice [keyword "this", anyName]

/-- A type that tells about a parameter, such as `x is T`. -/
def typePredicate (g : Goals) (c : TypeContext) : Piece :=
  seq [predicateSubject, keyword "is", g (.type c)]

/-- What a function answers: a type, a predicate or an assertion. -/
def resultType (g : Goals) (c : TypeContext) : Piece := choice [
  seq [keyword "asserts", choice [typePredicate g c, predicateSubject]],
  typePredicate g c,
  g (.type c)]

/-- The answer of a function behind a colon. -/
def resultAscription (g : Goals) (c : TypeContext) : Piece :=
  node .typeAscription (seq [mark ":", resultType g c])

/-- Type parameters, parameters and answer of a function. -/
def signature (g : Goals) (c : TypeContext) : Piece := seq [
  optional (typeParameters g), parameters g, optional (resultAscription g c)]

/-! ## Members of object types -/

/-- The word modifiers that may stand in front of a signature's name, in their order. -/
def signatureModifiers : List (List String) :=
  [accessWords, ["static"], ["override"], ["readonly"], ["async"], ["get", "set"]]

/-- Modifiers in the given order, each only in front of a name. -/
def modifiersInOrder (stops : Source → Nat → Bool) : List (List String) → Piece
  | [] => empty
  | words :: rest => seq [
    optional (seq [keywords words, check fun src i =>
      !stops src i && (startsPropertyName src i || nextCharIn ['*'] src i)]),
    modifiersInOrder stops rest]

/-- An index signature or a mapped type's clause. -/
def indexSignature (g : Goals) : Piece := node .member (seq [
  optional (seq [optional (choice [mark "-", mark "+"]), keyword "readonly", ahead (mark "[")]),
  mark "[",
  anyName,
  choice [
    seq [mark ":", innerType g],
    seq [keyword "in", innerType g, optional (seq [keyword "as", innerType g])]],
  mark "]",
  node .typeAscription (seq [
    choice [mark "-?:", mark "+?:", mark "?:", mark ":"], g (.type .signature)])])

/-- A property, method, call, construction or index of an object type. -/
def typeMember (g : Goals) : Piece :=
  let c := TypeContext.signature
  choice [
    indexSignature g,
    node .member (signature g c),
    node .member (seq [
      optional (keyword "abstract"), keyword "new",
      optional (typeParameters g), parameters g, optional (ascription g c)]),
    node .member (seq [
      modifiersInOrder c.stops signatureModifiers,
      optional (mark "*"),
      propertyName g,
      optional (mark "?"),
      choice [
        when (nextCharIn ['(', '<']) (signature g c),
        optional (ascription g c)]]),
    seq [ahead (keyword "export"), g .statement]]

/-- The sign between members of an object type. -/
def memberSeparator : Piece := choice [mark ",", implicitEnd ⟨false, true⟩, mark ";"]

/-- Members of an object type in braces. -/
def objectType (g : Goals) : Piece :=
  let further := seq [memberSeparator, typeMember g]
  node .objectType (seq [
    choice [mark "\x7b|", openBrace],
    optional (choice [mark ",", mark ";"]),
    optional (seq [typeMember g, many further, optional memberSeparator]),
    choice [mark "|\x7d", closeBrace]])

/-! ## Types -/

/-- The words that no type is named by alone. -/
def typeWords : List String :=
  ["typeof", "keyof", "infer", "readonly", "unique", "new", "import"]

/-- A dotted name with type arguments. -/
def namedType (g : Goals) : Piece := seq [
  wordIf .identifier fun w => w ∉ typeWords,
  many (seq [mark ".", propertyWord]),
  optional (typeArguments g)]

/-- The loading of a module inside a type. -/
def importType (g : Goals) : Piece := seq [
  keyword "import",
  node .arguments (parenthesized (gappedList (g (.expression .inner))))]

/-- The type of a value: `typeof` and a dotted name. -/
def typeQuery (g : Goals) : Piece := seq [
  keyword "typeof",
  choice [importType g, keyword "this", anyName],
  many (choice [
    seq [mark ".", memberName],
    seq [mark "?.", memberName]]),
  optional (typeArguments g)]

/-- One member of a tuple type. -/
def tupleMember (g : Goals) : Piece := choice [
  node .parameter (seq [mark "...", anyName, mark ":", innerType g]),
  node .parameter (seq [anyName, mark "?", mark ":", innerType g]),
  node .parameter (seq [anyName, mark ":", innerType g]),
  node .typeExpression (seq [mark "...", innerType g]),
  seq [innerType g, optional (mark "?")]]

/-- A function type or the type of a constructor. -/
def functionType (g : Goals) (c : TypeContext) : Piece := seq [
  optional (seq [optional (keyword "abstract"), keyword "new"]),
  optional (typeParameters g),
  parameters g,
  mark "=>",
  resultType g c]

/-- A type without operators behind it. -/
def plainType (g : Goals) (c : TypeContext) : Piece := choice [
  functionType g c,
  parenthesized (innerType g),
  objectType g,
  seq [mark "[", optional (commaList1 (tupleMember g)), mark "]"],
  string,
  templateOf .typeExpression (innerType g),
  number,
  seq [choice [mark "-", mark "+"], number],
  mark "*",
  seq [mark "?", g (.typeOperand c)],
  seq [keyword "readonly", g (.type c)],
  seq [keyword "keyof", g (.typeOperand c)],
  seq [keyword "unique", keyword "symbol"],
  seq [keyword "infer", anyName, optional (seq [keyword "extends", g (.typeOperand c)])],
  typeQuery g,
  seq [importType g, many (seq [mark ".", propertyWord]), optional (typeArguments g)],
  namedType g]

/-- A type with brackets behind it: arrays and members. -/
def bracketedType (g : Goals) (c : TypeContext) : Piece :=
  grow (node .typeExpression (plainType g c)) fun left =>
    onto .typeExpression left (seq [
      check fun src i => !c.stops src i,
      mark "[", optional (innerType g), mark "]"])

/-- A type: operands joined by `|` and `&`, and conditions. -/
def type (g : Goals) (c : TypeContext) : Piece :=
  let joins := many (choice [mark "|", mark "&"])
  grow (node .typeExpression (seq [joins, g (.typeOperand c)])) fun left =>
    onto .typeExpression left (when (fun src i => !c.stops src i) (choice [
      seq [choice [markNot "|" ['\x7d'], mark "&"], joins, g (.typeOperand c)],
      seq [keyword "extends", g (.type .inner), mark "?", g (.type .inner), mark ":",
        g (.type c)]]))

end ContentGraph.Tsx.Grammar
