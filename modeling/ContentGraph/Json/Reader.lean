import ContentGraph.Json.Value
import ContentGraph.Text.Digit
import ContentGraph.Text.Reader
import ContentGraph.Word

/-!
# Reading JSON text

A reader takes characters from the front of a text and returns what is behind, or fails.
`Json.parse?` reads one value and nothing else; a value may be nested 127 levels deep, of two
fields with one key the later wins, and a number must not exceed the range of binary64.
Recursion is on the room that is left for nesting; loops inside one level have a budget, which
`parse?` sets to the length of the text.
-/

namespace ContentGraph.Json

open Text

/-- The four characters that may stand between tokens. -/
def isSpace (c : Char) : Bool := c == ' ' || c == '\n' || c == '\t' || c == '\r'

/-- Drops space in front. -/
def skipSpace (s : List Char) : List Char := s.dropWhile isSpace

/-! ## Strings -/

/-- Reads four hexadecimal digits. -/
def hex4 : Reader Nat
  | a :: b :: c :: d :: s => do
    let a ← hexDigit? a
    let b ← hexDigit? b
    let c ← hexDigit? c
    let d ← hexDigit? d
    return (((a * 16 + b) * 16 + c) * 16 + d, s)
  | _ => none

/-- Reads what follows `\u`: one unit, or a surrogate pair written as two escapes. -/
def unicodeEscape : Reader Char := fun s => do
  let (n, s) ← hex4 s
  if 0xDC00 ≤ n ∧ n ≤ 0xDFFF then none
  else if 0xD800 ≤ n ∧ n ≤ 0xDBFF then
    match s with
    | '\\' :: 'u' :: s =>
      let (m, s) ← hex4 s
      if 0xDC00 ≤ m ∧ m ≤ 0xDFFF then
        some (Char.ofNat (0x10000 + (n - 0xD800) * 0x400 + (m - 0xDC00)), s)
      else none
    | _ => none
  else some (Char.ofNat n, s)

/-- The character that a one-letter escape stands for. -/
def simpleEscape? : Char → Option Char
  | '"' => some '"'
  | '\\' => some '\\'
  | '/' => some '/'
  | 'b' => some '\x08'
  | 'f' => some '\x0c'
  | 'n' => some '\n'
  | 'r' => some '\r'
  | 't' => some '\t'
  | _ => none

/-- Reads the inside of a string up to its closing quote; `done` is reversed. -/
def stringBody : Nat → List Char → Reader String
  | 0, _, _ => none
  | fuel + 1, done, s =>
    match s with
    | [] => none
    | '"' :: s => some (String.ofList done.reverse, s)
    | '\\' :: 'u' :: s =>
      match unicodeEscape s with
      | some (c, s) => stringBody fuel (c :: done) s
      | none => none
    | '\\' :: e :: s =>
      match simpleEscape? e with
      | some c => stringBody fuel (c :: done) s
      | none => none
    | c :: s => if c.toNat < 0x20 || c = '\\' then none else stringBody fuel (c :: done) s

/-! ## Numbers -/

/-- Digits taken in turn while the number stays below 2⁶⁴: the number, and how many digits
were left over. -/
def significand (start : Nat) : List Char → Nat × Nat
  | [] => (start, 0)
  | c :: digits =>
    let n := start * 10 + (c.toNat - '0'.toNat)
    if n < Word.count 64 then significand n digits else (start, digits.length + 1)

/-- Text of a number, cut into its parts; `fraction` and `exponent` are absent unless written. -/
structure NumberText where
  negative : Bool
  whole : List Char
  fraction : Option (List Char)
  exponent : Option (Bool × List Char)
deriving Repr

/-- Reads a minus sign, if there is one. -/
def readMinus : List Char → Bool × List Char
  | '-' :: s => (true, s)
  | s => (false, s)

/-- Reads the sign of an exponent, if there is one; a minus turns it down. -/
def readSign : List Char → Bool × List Char
  | '+' :: s => (false, s)
  | s => readMinus s

/-- Reads at least one digit. -/
def readDigits : Reader (List Char) := fun s =>
  let digits := s.takeWhile isDigit
  if digits.isEmpty then none else some (digits, s.dropWhile isDigit)

/-- Reads the whole part of a number; a leading zero stands alone. -/
def readWhole : Reader (List Char) := fun s => do
  let (digits, s) ← readDigits s
  if digits.head? == some '0' && digits.length != 1 then none else return (digits, s)

/-- Reads a point and the digits behind it, if there is a point. -/
def readFraction : Reader (Option (List Char))
  | '.' :: s => (readDigits s).map fun (digits, s) => (some digits, s)
  | s => some (none, s)

/-- Reads the exponent behind its mark. -/
def readMarked : Reader (Option (Bool × List Char)) := fun s =>
  let (down, s) := readSign s
  (readDigits s).map fun (digits, s) => (some (down, digits), s)

/-- Reads an exponent, if there is one. -/
def readExponent : Reader (Option (Bool × List Char))
  | 'e' :: s => readMarked s
  | 'E' :: s => readMarked s
  | s => some (none, s)

/-- Reads the text of a number. -/
def numberText : Reader NumberText := fun s => do
  let (negative, s) := readMinus s
  let (whole, s) ← readWhole s
  let (fraction, s) ← readFraction s
  let (exponent, s) ← readExponent s
  return (⟨negative, whole, fraction, exponent⟩, s)

/-- The greatest exponent that is worked with. -/
def maxExponent : Nat := Word.count 31 - 1

/-- The number that a text stands for. Whole numbers in range are exact; `-0` and all else are
doubles. Digits beyond the first 2⁶⁴ are dropped: in the whole part they count as powers of ten. -/
def NumberText.value? (t : NumberText) : Option Number :=
  let (whole, dropped) := significand 0 t.whole
  match t.fraction, t.exponent with
  | none, none =>
    if 0 < dropped then (Binary64.ofParts? t.negative whole dropped).map .double
    else if !t.negative then some (.integer whole)
    else if whole = 0 ∨ Word.count 63 < whole then (Binary64.ofParts? true whole 0).map .double
    else some (.integer (-whole))
  | fraction, exponent =>
    let digits := fraction.getD []
    let (n, skipped) := significand whole digits
    let shift : Int := (dropped : Int) - (digits.length - skipped : Nat)
    match exponent with
    | none => (Binary64.ofParts? t.negative n shift).map .double
    | some (down, digits) =>
      let e := numberOf 10 digits
      if maxExponent < e then
        if n ≠ 0 ∧ !down then none else (Binary64.ofParts? t.negative 0 0).map .double
      else (Binary64.ofParts? t.negative n (if down then shift - e else shift + e)).map .double

/-- Reads a number. -/
def readNumber : Reader Number := fun s => do
  let (t, s) ← numberText s
  let n ← t.value?
  return (n, s)

/-! ## Values -/

/-- Reads a value that holds no other values. -/
def readScalar (fuel : Nat) : Reader Json := fun s =>
  match s with
  | 'n' :: s => (dropText "ull".toList s).map (Json.null, ·)
  | 't' :: s => (dropText "rue".toList s).map (Json.bool true, ·)
  | 'f' :: s => (dropText "alse".toList s).map (Json.bool false, ·)
  | '"' :: s => (stringBody fuel [] s).map fun (t, s) => (Json.string t, s)
  | s => (readNumber s).map fun (n, s) => (Json.number n, s)

/-- Reads items parted by commas up to the closing bracket; `done` is reversed. -/
def readItems (item : Reader Json) : Nat → List Json → Reader (List Json)
  | 0, _, _ => none
  | fuel + 1, done, s =>
    match item (skipSpace s) with
    | none => none
    | some (v, s) =>
      match skipSpace s with
      | ',' :: s => readItems item fuel (v :: done) s
      | ']' :: s => some ((v :: done).reverse, s)
      | _ => none

/-- Reads a key and the colon behind it. -/
def readKey (fuel : Nat) : Reader String := fun s =>
  match skipSpace s with
  | '"' :: s =>
    match stringBody fuel [] s with
    | none => none
    | some (k, s) =>
      match skipSpace s with
      | ':' :: s => some (k, s)
      | _ => none
  | _ => none

/-- Reads fields parted by commas up to the closing brace. -/
def readFields (item : Reader Json) (size : Nat) : Nat → Fields → Reader Fields
  | 0, _, _ => none
  | fuel + 1, done, s =>
    match readKey size s with
    | none => none
    | some (k, s) =>
      match item (skipSpace s) with
      | none => none
      | some (v, s) =>
        match skipSpace s with
        | ',' :: s => readFields item size fuel (done.insert k v) s
        | '}' :: s => some (done.insert k v, s)
        | _ => none

/-- Reads a value with `room` levels of nesting left, from a text of at most `fuel` characters. -/
def readValue (fuel : Nat) : Nat → Reader Json
  | 0 => readScalar fuel
  | room + 1 => fun s =>
    match s with
    | '[' :: s =>
      match skipSpace s with
      | ']' :: s => some (.array [], s)
      | s => (readItems (readValue fuel room) fuel [] s).map fun (vs, s) => (.array vs, s)
    | '{' :: s =>
      match skipSpace s with
      | '}' :: s => some (.object [], s)
      | s => (readFields (readValue fuel room) fuel fuel [] s).map fun (fs, s) => (.object fs, s)
    | s => readScalar fuel s

/-- The deepest nesting that is read. -/
def maxNesting : Nat := 127

/-- Reads a text that holds one value and space around it. -/
def parseChars? (s : List Char) : Option Json := do
  let (v, rest) ← readValue (s.length + 1) maxNesting (skipSpace s)
  if (skipSpace rest).isEmpty then some v else none

/-- Reads a text that holds one value and space around it. -/
def parse? (s : String) : Option Json := parseChars? s.toList

end ContentGraph.Json
