import ContentGraph.Tsx.Grammar.Expression

/-!
# Grammar of statements

Declarations, imports and exports, and statements of control.
-/

namespace ContentGraph.Tsx.Grammar

open Piece

/-- The end of a statement behind an expression. -/
def expressionEnd : Piece := statementEnd ⟨true, false⟩

/-- The end of a statement behind something that no operator continues. -/
def plainEnd : Piece := statementEnd ⟨false, false⟩

/-- Holds where a name stands right behind a word, so that the word does not end a statement. -/
def continues (src : Source) (i : Nat) : Bool := !endsHere src ⟨true, false⟩ i

/-- A word that leads a declaration. Where a statement may start (`free`), it may also be a name,
and a line feed behind it can make it a statement of its own. -/
def leadingWord (free : Bool) (text : String) : Piece :=
  seq [keyword text, check fun src i => !free || continues src i]

/-! ## Variables -/

/-- A variable with its type and value. -/
def declarator (g : Goals) : Piece := node .declarator (seq [
  label .name (choice [destructuring g, anyName]),
  optional (choice [
    seq [mark "!", ascription g .statement],
    ascription g .statement]),
  optional (initializer g .statement)])

/-- Holds when the last of some variables has a value. -/
def endsWithValue (ns : List Node) : Bool :=
  ns.getLast?.any fun n => (n.childAt? .value).isSome

/-- Variables with commas between. Only a value can be continued by an operator. -/
def declarators (g : Goals) : Piece :=
  andThenBy (sepBy1 (declarator g) (mark ",")) fun ns =>
    if endsWithValue ns then expressionEnd else plainEnd

/-- A declaration by `let` or `const`. -/
def lexicalDeclaration (free : Bool) (g : Goals) : Piece := node .declaration (choice [
  seq [keyword "const", notAhead (keyword "enum"), declarators g],
  seq [leadingWord free "let", declarators g]])

/-- A declaration by `var`. -/
def variableDeclaration (g : Goals) : Piece := node .declaration (seq [keyword "var", declarators g])

/-! ## Functions and classes -/

/-- A function with a name, or its signature alone. -/
def functionDeclaration (g : Goals) : Piece := fun src i =>
  let opening := seq [optional (keyword "async"), keyword "function"]
  let named := label .name anyName
  match seq [opening, mark "*", named, signature g .inner, block g] src i with
  | some (ns, j) => some ([nodeOf .generatorFunctionDeclaration i j ns], j)
  | none =>
    match seq [opening, named, signature g .signature] src i with
    | none => none
    | some (head, j) =>
      if nextCharIn ['\x7b'] src j then onto .functionDeclaration head (block g) src j
      else onto .functionSignature head (statementEnd ⟨false, true⟩) src j

/-- A class with a name. -/
def classDeclaration (g : Goals) : Piece := node .classDeclaration (seq [
  many (decorator g),
  optional (keyword "abstract"),
  keyword "class",
  notAhead (choice [keyword "extends", keyword "implements"]),
  label .name anyName,
  classTail g])

/-! ## Types and namespaces -/

/-- An interface. -/
def interfaceDeclaration (g : Goals) : Piece := node .declaration (seq [
  keyword "interface", label .name anyName, optional (typeParameters g),
  optional (seq [keyword "extends", sepBy1 (namedType g) (mark ",")]),
  objectType g])

/-- A name for a type. -/
def typeAlias (free : Bool) (g : Goals) : Piece := node .declaration (seq [
  leadingWord free "type", label .name anyName, optional (typeParameters g), assign,
  g (.type .statement), plainEnd])

/-- A member of an enumeration. -/
def enumMember (g : Goals) : Piece := node .member (seq [
  propertyName g, optional (initializer g .inner)])

/-- An enumeration. -/
def enumDeclaration (g : Goals) : Piece := node .declaration (seq [
  optional (keyword "const"), keyword "enum", label .name anyName,
  braced (optional (commaList1 (enumMember g)))])

/-- A namespace or module, of which the body may be left out. -/
def namespaceDeclaration (free : Bool) (g : Goals) : Piece := node .declaration (seq [
  choice [leadingWord free "namespace", leadingWord free "module"],
  choice [string, seq [anyName, many (seq [mark ".", propertyWord])]],
  choice [when (nextCharIn ['\x7b']) (block g), notAhead openBrace]])

/-- Another name for a member of a namespace. -/
def importAlias : Piece := node .importAlias (seq [
  keyword "import", anyName, assign,
  anyName, many (seq [mark ".", propertyWord]), plainEnd])

/-- A declaration without `declare` in front. -/
def plainDeclaration (free : Bool) (g : Goals) : Piece := choice [
  functionDeclaration g, classDeclaration g, lexicalDeclaration free g, variableDeclaration g,
  interfaceDeclaration g, typeAlias free g, enumDeclaration g, namespaceDeclaration free g,
  importAlias]

/-- A declaration, with at most `depth` times `declare` in front. -/
def declarationWith (free : Bool) (g : Goals) : Nat → Piece
  | 0 => plainDeclaration free g
  | depth + 1 => choice [
    plainDeclaration free g,
    node .declaration (seq [leadingWord free "declare", choice [
      seq [keyword "global", block g],
      seq [keyword "module", mark ".", propertyWord, mark ":", g (.type .statement), plainEnd],
      fun src i => declarationWith false g depth src i]])]

/-- A declaration. -/
def declaration (free : Bool) (g : Goals) : Piece := fun src i =>
  declarationWith free g (src.size + 1) src i

/-! ## Imports and exports -/

/-- A module's name behind `from`. -/
def fromClause : Piece := seq [keyword "from", label .source string]

/-- A part of a statement that may also end before it, unless it does so by a line feed. -/
def unlessEnded (p : Piece) : Piece :=
  optional (seq [check fun src i => !endsHere src ⟨false, false⟩ i, p])

/-- The name of an export, which may be a string. -/
def moduleExportName : Piece := choice [string, anyName]

/-- Holds behind a name in a list of names. -/
def nameDone : Piece := ahead (choice [mark ",", closeBrace])

/-- A name in a list of imports or exports, perhaps renamed, perhaps of a type. -/
def specifier : Piece :=
  let renamed := seq [moduleExportName, keyword "as", moduleExportName, nameDone]
  let plain := seq [moduleExportName, nameDone]
  let kind := keywords ["type", "typeof"]
  node .moduleSpecifier (choice [
    seq [kind, renamed], seq [kind, plain], renamed, plain])

/-- Names in braces. -/
def specifiers : Piece := braced (optional (commaList1 specifier))

/-- All exports of a module under one name. -/
def namespaceImport : Piece := seq [mark "*", keyword "as", anyName]

/-- What an import brings in. -/
def importClause : Piece := node .importClause (choice [
  namespaceImport,
  specifiers,
  seq [anyName, optional (seq [mark ",", choice [namespaceImport, specifiers]])]])

/-- Attributes of a module. -/
def importAttributes (g : Goals) : Piece := unlessEnded (seq [keyword "with", object g])

/-- The older form of import by a call of `require`. -/
def requireClause : Piece := node .importRequireClause (seq [
  anyName, assign, keyword "require", parenthesized (label .source string)])

/-- An import. -/
def importStatement (g : Goals) : Piece :=
  let sources := choice [
    seq [label .source string],
    seq [importClause, fromClause],
    requireClause]
  node .importStatement (seq [
    keyword "import",
    choice [sources, seq [keywords ["type", "typeof"], sources]],
    importAttributes g,
    plainEnd])

/-- What stands behind `export default`. -/
def defaultExport (g : Goals) : Piece := seq [keyword "default", choice [
  label .declaration (declaration true g),
  seq [label .value (g (.expression .statement)), expressionEnd]]]

/-- An export. -/
def exportStatement (g : Goals) : Piece :=
  let listed := node .exportClause specifiers
  node .exportStatement (seq [
    many (decorator g),
    keyword "export",
    choice [
      seq [mark "*", optional (seq [keyword "as", moduleExportName]), fromClause,
        importAttributes g, plainEnd],
      seq [listed, unlessEnded fromClause, importAttributes g, plainEnd],
      defaultExport g,
      seq [keyword "type", listed, unlessEnded fromClause, plainEnd],
      seq [keyword "as", keyword "namespace", anyName, plainEnd],
      seq [assign, g (.expression .statement), expressionEnd],
      label .declaration (declaration false g)]])

/-! ## Control -/

/-- A condition in parentheses. -/
def condition (g : Goals) : Piece :=
  node .parenthesizedExpression (parenthesized (seq [inner g, choice [
    ascription g .inner, many (seq [mark ",", inner g])]]))

/-- A clause of a statement, which may be left out; its word stands for nothing else there. -/
def clause (word : String) (p : Piece) : Piece :=
  choice [node .clause (seq [keyword word, p]), notAhead (keyword word)]

/-- A choice between statements. -/
def ifStatement (g : Goals) : Piece := node .statement (seq [
  keyword "if", condition g, g .statement, clause "else" (g .statement)])

/-- What a loop over a collection runs through. -/
def forInHeader (g : Goals) : Piece := parenthesized (seq [
  choice [
    seq [keyword "var", choice [destructuring g, anyName], optional (initializer g .inner)],
    seq [keywords ["let", "const"], choice [destructuring g, anyName]],
    choice [destructuring g, memberTarget g, condition g]],
  keywords ["in", "of"],
  expressions g .inner])

/-- Start, condition and step of a counting loop. -/
def forHeader (g : Goals) : Piece := parenthesized (seq [
  choice [
    lexicalDeclaration true g, variableDeclaration g,
    seq [expressions g .inner, mark ";"],
    mark ";"],
  choice [seq [expressions g .inner, mark ";"], mark ";"],
  optional (expressions g .inner)])

/-- A loop by `for`. -/
def forStatement (g : Goals) : Piece := fun src i =>
  match seq [keyword "for", optional (keyword "await"), forInHeader g] src i with
  | some (ns, j) => onto .statement ns (g .statement) src j
  | none => node .statement (seq [keyword "for", forHeader g, g .statement]) src i

/-- A case of a choice by value. -/
def switchCase (g : Goals) : Piece :=
  let body := many (seq [check fun src i => !nextWordIn ["case", "default"] src i, g .statement])
  choice [
    node .clause (seq [keyword "case", expressions g .inner, mark ":", body]),
    node .clause (seq [keyword "default", mark ":", body])]

/-- A statement that starts with a word of its own. -/
def controlStatement (g : Goals) : Piece := choice [
  ifStatement g,
  forStatement g,
  node .statement (seq [keyword "while", condition g, g .statement]),
  node .statement (seq [
    keyword "do", g .statement, keyword "while", condition g, optional plainEnd]),
  node .statement (seq [keyword "switch", condition g, braced (many (switchCase g))]),
  node .statement (seq [
    keyword "try", block g,
    clause "catch" (seq [
      optional (parenthesized (seq [
        choice [destructuring g, anyName], optional (ascription g .inner)])),
      block g]),
    clause "finally" (block g)]),
  node .statement (seq [keyword "with", condition g, g .statement]),
  node .statement (seq [keywords ["break", "continue"],
    optional (seq [check fun src i => !endsHere src ⟨false, false⟩ i, anyName]), plainEnd]),
  node .statement (seq [keyword "return", choice [
    implicitEnd ⟨false, false⟩,
    mark ";",
    seq [expressions g .statement, expressionEnd]]]),
  node .statement (seq [keyword "throw", expressions g .statement, expressionEnd]),
  node .statement (seq [keyword "debugger", plainEnd])]

/-- A statement with a label. -/
def labeledStatement (g : Goals) : Piece := node .statement (seq [
  wordIf .identifier (fun w => w ∉ operandWords ∧ w ∉ statementWords),
  mark ":", g .statement])

/-- The start of an export or a declaration whose word can be nothing else. -/
def reservedStart : Piece := choice [
  seq [keyword "let", mark "["],
  seq [leadingWord true "export", choice [mark "*", keyword "as"]]]

/-- An expression as a statement. -/
def expressionStatement (g : Goals) : Piece := node .statement (seq [
  check fun src i => !nextWordIn statementWords src i,
  notAhead reservedStart,
  expressions g .statement, expressionEnd])

/-- A statement. -/
def statement (g : Goals) : Piece := fun src i =>
  let j := skipPageTrivia src i
  choice [
    when (nextCharIn ['\x7b']) (block g),
    mark ";",
    guardedExport g,
    importStatement g,
    declaration true g,
    controlStatement g,
    labeledStatement g,
    expressionStatement g] src j
where
  /-- An export, unless its word stands alone. -/
  guardedExport (g : Goals) : Piece :=
    choice [
      seq [ahead (leadingWord true "export"), exportStatement g],
      seq [ahead (mark "@"), exportStatement g]]

end ContentGraph.Tsx.Grammar
