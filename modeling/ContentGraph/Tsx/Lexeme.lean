import ContentGraph.Text.Digit
import ContentGraph.Text.Utf8

/-!
# Lexemes

The words, numbers, strings and other smallest parts of a TSX source, and what may stand between
them. Positions count characters; each function takes the source and a position and, if the
lexeme stands there, gives the position behind it.
-/

namespace ContentGraph.Tsx

open Text (isDigit isHexDigit isLetter)

/-- A source text. -/
structure Source where
  letters : Array Char
deriving Repr

namespace Source

/-- The source of a text. -/
def ofString (s : String) : Source := ⟨s.toList.toArray⟩

/-- The number of characters. -/
def size (src : Source) : Nat := src.letters.size

/-- The character at a position. -/
def at? (src : Source) (i : Nat) : Option Char := src.letters[i]?

/-- Holds when the character at a position is `c`. -/
def isAt (src : Source) (i : Nat) (c : Char) : Bool := src.at? i == some c

/-- Holds when a text stands at a position. -/
def startsWith (src : Source) (i : Nat) : List Char → Bool
  | [] => true
  | c :: cs => src.isAt i c && startsWith src (i + 1) cs

/-- The characters from one position up to another. -/
def slice (src : Source) (start stop : Nat) : List Char :=
  (src.letters.extract start stop).toList

/-- The first position from `i` on whose character does not have a property. -/
def skipWhile (src : Source) (p : Char → Bool) (i : Nat) : Nat :=
  if h : i < src.letters.size then
    if p src.letters[i] then skipWhile src p (i + 1) else i
  else i
termination_by src.letters.size - i

/-- The first position from `i` on where a text stands, and the position behind it. -/
def find? (src : Source) (text : List Char) (i : Nat) : Option Nat :=
  if src.startsWith i text then some (i + text.length)
  else if i < src.size then find? src text (i + 1)
  else none
termination_by src.size - i

end Source

/-! ## Characters -/

/-- The single quote. -/
def singleQuote : Char := '\x27'

/-- The double quote. -/
def doubleQuote : Char := '\x22'

/-- The backtick, which encloses templates. -/
def tick : Char := '\x60'

/-- The backslash. -/
def backslash : Char := '\x5c'

/-- White space of the ASCII range. -/
def isAsciiSpace (c : Char) : Bool := c == ' ' || (0x9 ≤ c.toNat && c.toNat ≤ 0xD)

/-- The line and paragraph separators. -/
def isSeparator (c : Char) : Bool := c.toNat == 0x2028 || c.toNat == 0x2029

/-- White space between lexemes: of the ASCII range, of the category of space separators, the
separators of lines, and some characters without width. -/
def isSpace (c : Char) : Bool :=
  isAsciiSpace c ||
    (let n := c.toNat
     n == 0xA0 || n == 0x1680 || (0x2000 ≤ n && n ≤ 0x200B) || n == 0x202F || n == 0x205F
      || n == 0x3000 || n == 0xFEFF || n == 0x2060) || isSeparator c

/-- The punctuation that ends a word. -/
def isPunctuation (c : Char) : Bool :=
  c == ':' || c == ';' || c == tick || c == doubleQuote || c == singleQuote || c == '@' || c == '#'
    || c == '.' || c == ',' || c == '|' || c == '^' || c == '&' || c == '<' || c == '=' || c == '>'
    || c == '+' || c == '-' || c == '*' || c == '/' || c == backslash || c == '%' || c == '?'
    || c == '!' || c == '~' || c == '(' || c == ')' || c == '[' || c == ']' || c == '\x7b'
    || c == '\x7d'

/-- Characters that a word may hold behind its first. -/
def isWordChar (c : Char) : Bool := 0x20 ≤ c.toNat && !isSpace c && !isPunctuation c

/-- Characters that a word may start with. -/
def isWordStart (c : Char) : Bool := isWordChar c && !isDigit c

/-! ## Comments and space -/

/-- Holds for the characters that end a line comment. -/
def endsLine (c : Char) : Bool := c == '\n' || c == '\r' || isSeparator c

/-- The position behind a comment. -/
def comment? (src : Source) (i : Nat) : Option Nat :=
  if src.startsWith i ['/', '/'] then some (src.skipWhile (fun c => !endsLine c) (i + 2))
  else if src.startsWith i ['/', '*'] then src.find? ['*', '/'] (i + 2)
  else none

/-- The position behind a comment in the style of HTML, which runs to the end of its line. -/
def htmlComment? (src : Source) (i : Nat) : Option Nat :=
  if src.startsWith i ['<', '!', '-', '-'] || src.startsWith i ['-', '-', '>'] then
    some (src.skipWhile (fun c => c != '\n' && !isSeparator c) i)
  else none

/-- Passes over space. -/
def skipSpace (src : Source) (i : Nat) : Nat := src.skipWhile isSpace i

/-- Passes over space and comments, at most `fuel` of them. -/
def skipTriviaFrom (src : Source) : Nat → Nat → Nat
  | 0, i => i
  | fuel + 1, i =>
    let j := skipSpace src i
    match comment? src j with
    | some k => skipTriviaFrom src fuel k
    | none => j

/-- Passes over space and comments. -/
def skipTrivia (src : Source) (i : Nat) : Nat := skipTriviaFrom src (src.size + 1) i

/-- Passes over space and comments of both styles, at most `fuel` of them. -/
def skipPageTriviaFrom (src : Source) : Nat → Nat → Nat
  | 0, i => i
  | fuel + 1, i =>
    let j := skipTrivia src i
    match htmlComment? src j with
    | some k => skipPageTriviaFrom src fuel k
    | none => j

/-- Passes over space and comments of both styles. -/
def skipPageTrivia (src : Source) (i : Nat) : Nat := skipPageTriviaFrom src (src.size + 1) i

/-! ## Words and numbers -/

/-- The position behind a Unicode escape: `\u` with four digits, or with digits in braces. -/
def unicodeEscape? (src : Source) (i : Nat) : Option Nat :=
  if src.startsWith i [backslash, 'u', '\x7b'] then
    let j := src.skipWhile isHexDigit (i + 3)
    if i + 3 < j && src.isAt j '\x7d' then some (j + 1) else none
  else if src.startsWith i [backslash, 'u'] then
    if (List.range 4).all fun k => (src.at? (i + 2 + k)).any isHexDigit then some (i + 6) else none
  else none

/-- Passes over the rest of a word. -/
def wordRest (src : Source) : Nat → Nat → Nat
  | 0, i => i
  | fuel + 1, i =>
    let j := src.skipWhile isWordChar i
    match unicodeEscape? src j with
    | some k => wordRest src fuel k
    | none => j

/-- The position behind a word. -/
def word? (src : Source) (i : Nat) : Option Nat :=
  match src.at? i with
  | none => none
  | some c =>
    if isWordStart c then some (wordRest src (src.size - i + 1) (i + 1))
    else (unicodeEscape? src i).map (wordRest src (src.size - i + 1))

/-- The text of the word at a position; empty if there is none. -/
def wordText (src : Source) (i : Nat) : String :=
  match word? src i with
  | some j => String.ofList (src.slice i j)
  | none => ""

/-- Digits with single underscores between them: the position behind. -/
def digits? (src : Source) (p : Char → Bool) : Nat → Nat → Option Nat
  | 0, _ => none
  | fuel + 1, i =>
    let j := src.skipWhile p i
    if j = i then none
    else if src.isAt j '_' then
      match digits? src p fuel (j + 1) with
      | some k => some k
      | none => some j
    else some j

/-- The position behind digits that a prefix of two letters introduces. -/
def prefixed? (src : Source) (i : Nat) (lower upper : Char) (p : Char → Bool) : Option Nat :=
  if src.isAt i '0' && (src.isAt (i + 1) lower || src.isAt (i + 1) upper) then
    digits? src p (src.size + 1) (i + 2)
  else none

/-- The position behind an exponent, or the position itself if there is none. -/
def exponentEnd (src : Source) (i : Nat) : Nat :=
  if src.isAt i 'e' || src.isAt i 'E' then
    let j := if src.isAt (i + 1) '+' || src.isAt (i + 1) '-' then i + 2 else i + 1
    (digits? src isDigit (src.size + 1) j).getD i
  else i

/-- The position behind a number. -/
def number? (src : Source) (i : Nat) : Option Nat :=
  let decimal := digits? src isDigit (src.size + 1)
  let special := (prefixed? src i 'x' 'X' isHexDigit).orElse fun _ =>
    (prefixed? src i 'o' 'O' fun c => '0' ≤ c && c ≤ '7').orElse fun _ =>
      prefixed? src i 'b' 'B' fun c => c == '0' || c == '1'
  let suffixed (j : Nat) : Nat := if src.isAt j 'n' then j + 1 else j
  match special with
  | some j => some (suffixed j)
  | none =>
    if src.isAt i '.' then (decimal (i + 1)).map (exponentEnd src)
    else
      match decimal i with
      | none => none
      | some j =>
        -- a whole part of several digits has at most one zero in front
        let plain := j = i + 1 || !src.isAt i '0' ||
          (!src.isAt (i + 1) '0' && !src.isAt (i + 1) '_')
        if plain && src.isAt j '.' then
          some (exponentEnd src ((decimal (j + 1)).getD (j + 1)))
        else if plain && exponentEnd src j != j then some (exponentEnd src j)
        else some (suffixed j)

/-! ## Strings, templates and regular expressions -/

/-- The position behind an escape in a string or template. -/
def escape? (src : Source) (i : Nat) : Option Nat :=
  if !src.isAt i backslash then none
  else
    match src.at? (i + 1) with
    | none => none
    | some c =>
      let lineEnd (k : Nat) : Bool := (src.at? k).any fun d => d == '\n' || isSeparator d
      if (c == '\r' || c == '?') && lineEnd (i + 2) then some (i + 3)
      else if c == 'x' then
        if (src.at? (i + 2)).any isHexDigit && (src.at? (i + 3)).any isHexDigit then some (i + 4)
        else none
      else if c == 'u' then unicodeEscape? src i
      else if '0' ≤ c && c ≤ '7' then
        let octal (k : Nat) : Bool := (src.at? k).any fun d => '0' ≤ d && d ≤ '7'
        if octal (i + 2) then (if octal (i + 3) then some (i + 4) else some (i + 3))
        else some (i + 2)
      else some (i + 2)

/-- The position behind a character reference: `&`, a name of up to 30 letters, or `#` and up to
five digits, or `#x` and up to six hexadecimal digits, and a semicolon. -/
def characterReference? (src : Source) (i : Nat) : Option Nat :=
  if !src.isAt i '&' then none
  else
    let (start, p, most) : Nat × (Char → Bool) × Nat :=
      if src.isAt (i + 1) '#' then
        if src.isAt (i + 2) 'x' || src.isAt (i + 2) 'X' then (i + 3, isHexDigit, 6)
        else (i + 2, isDigit, 5)
      else (i + 1, isLetter, 30)
    let j := src.skipWhile p start
    if start < j && j ≤ start + most && src.isAt j ';' then some (j + 1) else none

/-- Passes over plain text of a quoted attribute: up to the quote, or an ampersand with a letter
or `#` behind it. An ampersand takes the character behind it along. -/
def attributeText (src : Source) (quote : Char) : Nat → Nat → Nat
  | 0, i => i
  | fuel + 1, i =>
    let j := src.skipWhile (fun c => c != quote && c != '&') i
    if src.isAt j '&' && (src.at? (j + 1)).any fun c => c != '#' && !isLetter c then
      attributeText src quote fuel (j + 2)
    else j

/-- Passes over plain text of a template: up to a backtick, a backslash or `${`; a NUL or the end
of the source stops with nothing. -/
def templateText? (src : Source) (i : Nat) : Option Nat :=
  if h : i < src.letters.size then
    let c := src.letters[i]
    if c == tick || c == backslash then some i
    else if c.toNat == 0 then none
    else if c == '$' && src.isAt (i + 1) '\x7b' then some i
    else templateText? src (i + 1)
  else none
termination_by src.letters.size - i

/-- Passes over the pattern of a regular expression. -/
def regexPattern? (src : Source) (inClass : Bool) : Nat → Nat → Option Nat
  | 0, _ => none
  | fuel + 1, i =>
    match src.at? i with
    | none => none
    | some c =>
      if c == '\n' then none
      else if c == backslash then
        if (src.at? (i + 1)).any (· != '\n') then regexPattern? src inClass fuel (i + 2) else none
      else if inClass then regexPattern? src (c != ']') fuel (i + 1)
      else if c == '[' then regexPattern? src true fuel (i + 1)
      else if c == '/' then some i
      else regexPattern? src false fuel (i + 1)

/-- The position behind a regular expression and its flags. -/
def regex? (src : Source) (i : Nat) : Option Nat :=
  if src.isAt i '/' && !src.isAt (i + 1) '/' && !src.isAt (i + 1) '*' then
    (regexPattern? src false (src.size + 1) (i + 1)).map fun j =>
      src.skipWhile (fun c => 'a' ≤ c && c ≤ 'z') (j + 1)
  else none

/-! ## Text of markup -/

/-- Holds for the characters that end text between tags. -/
def endsText (c : Char) : Bool :=
  c == '<' || c == '>' || c == '\x7b' || c == '\x7d' || c == '&' || c.toNat == 0

/-- Scans text between tags. `afterLine` says that only white space was met since a line feed.
Gives the position behind, and whether there is text: something other than line feeds and white
space behind them. -/
def markupText (src : Source) (afterLine seen : Bool) (i : Nat) : Nat × Bool :=
  if h : i < src.letters.size then
    let c := src.letters[i]
    if endsText c then (i, seen)
    else if c == '\n' then markupText src true seen (i + 1)
    else
      let still := afterLine && isAsciiSpace c
      markupText src still (seen || !still) (i + 1)
  else (i, seen)
termination_by src.letters.size - i

/-! ## Ends of statements -/

/-- What the place allows where an end of statement is looked for. -/
structure EndRule where
  /-- Holds when a binary operator may stand there. -/
  operator : Bool
  /-- Holds behind a signature, which a body may follow. -/
  signature : Bool
deriving Repr

/-- Passes over white space and comments behind a line feed. A single slash is a failure. -/
def skipLines? (src : Source) : Nat → Nat → Option Nat
  | 0, _ => none
  | fuel + 1, i =>
    let j := src.skipWhile isAsciiSpace i
    if src.startsWith j ['/', '/'] then
      skipLines? src fuel (src.skipWhile (fun c => c != '\n' && !isSeparator c && c.toNat != 0) (j + 2))
    else if src.startsWith j ['/', '*'] then
      skipLines? src fuel ((src.find? ['*', '/'] (j + 2)).getD src.size)
    else if src.isAt j '/' then none
    else some j

/-- Holds when the word `in` or `instanceof` stands at a position, seen by its letters alone. -/
def startsOperatorWord (src : Source) (i : Nat) : Bool :=
  if !src.startsWith i ['i', 'n'] then false
  else if !(src.at? (i + 2)).any isLetter then true
  else
    src.startsWith (i + 2) "stanceof".toList && !(src.at? (i + 10)).any isLetter

/-- Holds when a line feed before the character at `i` ends a statement. -/
def endsBefore (src : Source) (rule : EndRule) (i : Nat) : Bool :=
  match src.at? i with
  | none => true
  | some c =>
    if c == tick || c == ',' || c == '.' || c == ';' || c == '*' || c == '%' || c == '>' || c == '<'
        || c == '=' || c == '?' || c == '^' || c == '|' || c == '&' || c == '/' || c == ':' then false
    else if c == '\x7b' then !rule.signature
    else if c == '(' || c == '[' then !rule.operator
    else if c == '+' || c == '-' then src.isAt (i + 1) c
    else if c == '!' then !src.isAt (i + 1) '='
    else if c == 'i' then !startsOperatorWord src i
    else true

/-- Holds when a statement may end at a position without a semicolon: at the end of the source,
before a closing brace, or where a line feed is followed by what cannot go on. -/
def endsHereFrom (src : Source) (rule : EndRule) : Nat → Nat → Bool
  | 0, _ => false
  | fuel + 1, i =>
    let j := src.skipWhile (fun c => c != '\n' && isAsciiSpace c) i
    match src.at? j with
    | none => true
    | some c =>
      if c.toNat == 0 then true
      else if c == '\x7d' then
        if src.isAt (src.skipWhile isAsciiSpace (j + 1)) ':' then rule.operator else true
      else if c == '\n' then
        match skipLines? src (src.size + 1) (j + 1) with
        | some k => endsBefore src rule k
        | none => false
      else
        match comment? src (skipSpace src j) with
        | some k => endsHereFrom src rule fuel k
        | none => false

/-- Holds when a statement may end at a position without a semicolon. -/
def endsHere (src : Source) (rule : EndRule) (i : Nat) : Bool :=
  endsHereFrom src rule (src.size + 1) i

end ContentGraph.Tsx
