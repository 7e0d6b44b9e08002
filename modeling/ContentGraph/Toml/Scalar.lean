import ContentGraph.Text.Digit
import ContentGraph.Text.Reader
import ContentGraph.Toml.Value
import ContentGraph.Word

/-!
# TOML strings, numbers and dates

Readers for the values that hold no others. Between digits single underscores may stand; whole
numbers are those of 64 bits; a float that is too great is refused; dates and times are checked
against the calendar and the clock.
-/

namespace ContentGraph.Toml

open Text

/-! ## Space -/

/-- The characters that may stand in comments and strings: no control characters but the tab. -/
def isPlain (c : Char) : Bool := c == '\t' || (0x20 ≤ c.toNat && c.toNat != 0x7F)

/-- Drops spaces and tabs. -/
def skipBlanks (s : List Char) : List Char := s.dropWhile fun c => c == ' ' || c == '\t'

/-- Drops a line feed, which may have a carriage return before it. -/
def dropNewline? : List Char → Option (List Char)
  | '\n' :: s => some s
  | '\r' :: '\n' :: s => some s
  | _ => none

/-- Drops a comment. -/
def skipComment : List Char → List Char
  | '#' :: s => s.dropWhile isPlain
  | s => s

/-- Drops blanks, a comment and the end of the line or of the text. -/
def endLine? (s : List Char) : Option (List Char) :=
  match skipComment (skipBlanks s) with
  | [] => some []
  | s => dropNewline? s

/-! ## Strings -/

/-- The character that a one-letter escape stands for. -/
def simpleEscape? : Char → Option Char
  | 'b' => some '\x08'
  | 't' => some '\t'
  | 'n' => some '\n'
  | 'f' => some '\x0c'
  | 'r' => some '\r'
  | '"' => some '"'
  | '\\' => some '\\'
  | _ => none

/-- Reads a character that is written as so many hexadecimal digits. -/
def codePoint (width : Nat) : Reader Char := fun s =>
  let digits := s.take width
  if digits.length = width ∧ digits.all isHexDigit then
    (charOf? (numberOf 16 digits)).map (·, s.drop width)
  else none

/-- Reads what follows a backslash. -/
def escape : Reader Char
  | 'u' :: s => codePoint 4 s
  | 'U' :: s => codePoint 8 s
  | c :: s => (simpleEscape? c).map (·, s)
  | [] => none

/-- Reads the inside of a string up to its double quote; `done` is reversed. -/
def basicBody : Nat → List Char → Reader String
  | 0, _, _ => none
  | fuel + 1, done, s =>
    match s with
    | [] => none
    | '"' :: s => some (String.ofList done.reverse, s)
    | '\\' :: s =>
      match escape s with
      | some (c, s) => basicBody fuel (c :: done) s
      | none => none
    | c :: s => if isPlain c then basicBody fuel (c :: done) s else none

/-- Reads the inside of a string up to its single quote. -/
def literalBody : Reader String := fun s =>
  let body := s.takeWhile fun c => isPlain c && c != '\''
  match s.drop body.length with
  | '\'' :: s => some (String.ofList body, s)
  | _ => none

/-- Drops the blanks and line feeds behind a backslash that ends a line. -/
def continuation? (s : List Char) : Option (List Char) :=
  (dropNewline? (skipBlanks s)).map fun s => skipLines (s.length + 1) s
where
  /-- Drops blanks and line feeds. -/
  skipLines : Nat → List Char → List Char
    | 0, s => s
    | fuel + 1, s =>
      match dropNewline? (skipBlanks s) with
      | some s => skipLines fuel s
      | none => skipBlanks s

/-- Reads the inside of a string of several lines up to three quotes; one or two quotes may stand
before those. Line ends become line feeds. Escapes are read where `escaped` holds. -/
def blockBody (quote : Char) (escaped : Bool) : Nat → List Char → Reader String
  | 0, _, _ => none
  | fuel + 1, done, s =>
    let closing := (s.takeWhile (· == quote)).length
    if 3 ≤ closing then
      let inside := min (closing - 3) 2
      some (String.ofList (List.replicate inside quote ++ done).reverse, s.drop (inside + 3))
    else
      match s with
      | [] => none
      | c :: rest =>
        if escaped && c == '\\' then
          match continuation? rest with
          | some rest => blockBody quote escaped fuel done rest
          | none =>
            match escape rest with
            | some (d, rest) => blockBody quote escaped fuel (d :: done) rest
            | none => none
        else
          match dropNewline? s with
          | some rest => blockBody quote escaped fuel ('\n' :: done) rest
          | none => if isPlain c then blockBody quote escaped fuel (c :: done) rest else none

/-- Reads the inside of a string of several lines; a line end right behind the opening quotes does
not count. -/
def block (quote : Char) (escaped : Bool) : Reader String := fun s =>
  blockBody quote escaped (s.length + 1) [] ((dropNewline? s).getD s)

/-- Reads a string of one line. -/
def lineString : Reader String
  | '"' :: s => basicBody (s.length + 1) [] s
  | '\'' :: s => literalBody s
  | _ => none

/-- Reads a string. -/
def string : Reader String
  | '"' :: '"' :: '"' :: s => block '"' true s
  | '\'' :: '\'' :: '\'' :: s => block '\'' false s
  | s => lineString s

/-! ## Numbers -/

/-- Reads digits with single underscores between them, behind a first digit. -/
def moreDigits (ok : Char → Bool) : Reader (List Char)
  | '_' :: c :: s =>
    if ok c then (moreDigits ok s).map fun (ds, rest) => (c :: ds, rest) else none
  | ['_'] => none
  | c :: s =>
    if ok c then (moreDigits ok s).map fun (ds, rest) => (c :: ds, rest) else some ([], c :: s)
  | [] => some ([], [])

/-- Reads one or more digits with single underscores between them. -/
def digits (ok : Char → Bool) : Reader (List Char)
  | c :: s => if ok c then (moreDigits ok s).map fun (ds, rest) => (c :: ds, rest) else none
  | [] => none

/-- Reads a sign, if there is one: true for a minus. -/
def sign : List Char → Bool × List Char
  | '+' :: s => (false, s)
  | '-' :: s => (true, s)
  | s => (false, s)

/-- Reads decimal digits without a sign; a leading zero stands alone. -/
def wholePart : Reader (List Char)
  | '0' :: s => some (['0'], s)
  | s => digits isDigit s

/-- A whole number of 64 bits. -/
def integer? (n : Int) : Option Value :=
  if -(Word.count 63 : Int) ≤ n ∧ n < Word.count 63 then some (.integer n) else none

/-- Reads the digits of a number in a base other than ten. -/
def based (base : Nat) (ok : Char → Bool) : Reader Value := fun s => do
  let (ds, s) ← digits ok s
  let v ← integer? (numberOf base ds)
  return (v, s)

/-- The least number that rounds to no finite binary64 number. -/
def floatBound : Nat := Nat.pow 2 1024 - Nat.pow 2 970

/-- Holds when `n · 10 ^ e` is out of the range of binary64. -/
def overflows (n : Nat) (e : Int) : Bool :=
  let size : Int := (Nat.toDigits 10 n).length + e
  if n = 0 ∨ size < 309 then false
  else if 309 < size then true
  else if 0 ≤ e then floatBound ≤ n * Nat.pow 10 e.toNat
  else floatBound * Nat.pow 10 (-e).toNat ≤ n

/-- Reads the exponent of a float, if there is one. -/
def exponent : Reader (Option (Bool × List Char)) := fun s =>
  let behind (s : List Char) : Option (Option (Bool × List Char) × List Char) :=
    let (down, s) := sign s
    (digits isDigit s).map fun (ds, s) => (some (down, ds), s)
  match s with
  | 'e' :: s => behind s
  | 'E' :: s => behind s
  | s => some (none, s)

/-- Reads the fraction of a float, if there is one. -/
def fraction : Reader (Option (List Char))
  | '.' :: s => (digits isDigit s).map fun (ds, s) => (some ds, s)
  | s => some (none, s)

/-- Reads infinity or not-a-number behind a sign. -/
def specialFloat : Reader Value := fun s =>
  let rest := (sign s).2
  let word := rest.take 3
  if word = ['i', 'n', 'f'] ∨ word = ['n', 'a', 'n'] then
    some (.float (String.ofList word), rest.drop 3)
  else none

/-- Reads a decimal number: a float if it has a fraction or an exponent. Only a positive float can
be too great. -/
def decimal : Reader Value := fun s => do
  let (negative, rest) := sign s
  let (whole, rest) ← wholePart rest
  let (frac, rest) ← fraction rest
  let (expo, rest) ← exponent rest
  match frac, expo with
  | none, none =>
    let n : Int := numberOf 10 whole
    let v ← integer? (if negative then -n else n)
    return (v, rest)
  | frac, expo =>
    let ds := frac.getD []
    let e : Int := match expo with
      | none => 0
      | some (true, es) => -(numberOf 10 es)
      | some (false, es) => numberOf 10 es
    if !negative && overflows (numberOf 10 (whole ++ ds)) (e - ds.length) then none
    else some (.float (String.ofList (s.take (s.length - rest.length))), rest)

/-- Reads a number. -/
def number : Reader Value
  | '0' :: 'x' :: s => based 16 isHexDigit s
  | '0' :: 'o' :: s => based 8 (fun c => '0' ≤ c && c ≤ '7') s
  | '0' :: 'b' :: s => based 2 (fun c => c == '0' || c == '1') s
  | s =>
    match specialFloat s with
    | some r => some r
    | none => decimal s

/-! ## Dates and times -/

/-- Reads a number of exactly so many digits that lies in a range. -/
def fixedNumber (width least greatest : Nat) : Reader Nat := fun s =>
  let ds := s.take width
  let n := numberOf 10 ds
  if ds.length = width ∧ ds.all isDigit ∧ least ≤ n ∧ n ≤ greatest then some (n, s.drop width)
  else none

/-- The days of a month. -/
def daysOfMonth (year month : Nat) : Nat :=
  if month = 2 then
    if year % 4 = 0 ∧ (year % 100 ≠ 0 ∨ year % 400 = 0) then 29 else 28
  else if month = 4 ∨ month = 6 ∨ month = 9 ∨ month = 11 then 30
  else 31

/-- Drops a date. -/
def dropDate? (s : List Char) : Option (List Char) := do
  let (year, s) ← fixedNumber 4 0 9999 s
  let s ← dropText ['-'] s
  let (month, s) ← fixedNumber 2 1 12 s
  let s ← dropText ['-'] s
  let (_, s) ← fixedNumber 2 1 (daysOfMonth year month) s
  return s

/-- Drops a time of day; a minute may have 61 seconds. -/
def dropTime? (s : List Char) : Option (List Char) := do
  let (_, s) ← fixedNumber 2 0 23 s
  let s ← dropText [':'] s
  let (_, s) ← fixedNumber 2 0 59 s
  let s ← dropText [':'] s
  let (_, s) ← fixedNumber 2 0 60 s
  match s with
  | '.' :: rest =>
    let ds := rest.takeWhile isDigit
    if ds.isEmpty then some s else some (rest.drop ds.length)
  | s => some s

/-- Drops the distance from UTC, if there is one. -/
def skipOffset (s : List Char) : List Char :=
  let distance (rest : List Char) : Option (List Char) := do
    let (_, rest) ← fixedNumber 2 0 23 rest
    let rest ← dropText [':'] rest
    let (_, rest) ← fixedNumber 2 0 59 rest
    return rest
  match s with
  | 'Z' :: rest => rest
  | 'z' :: rest => rest
  | '+' :: rest => (distance rest).getD s
  | '-' :: rest => (distance rest).getD s
  | _ => s

/-- Drops a date, a time, or both with `T` or a space between. -/
def dropDateTime? (s : List Char) : Option (List Char) :=
  match dropDate? s with
  | none => dropTime? s
  | some rest =>
    match rest with
    | c :: s =>
      if c == 'T' || c == 't' || c == ' ' then some (((dropTime? s).map skipOffset).getD rest)
      else some rest
    | [] => some []

/-- Reads a date, a time or both. -/
def dateTime : Reader Value := fun s =>
  (dropDateTime? s).map fun rest =>
    (.dateTime (String.ofList (s.take (s.length - rest.length))), rest)

/-- Reads a value that holds no other values. -/
def scalar : Reader Value
  | [] => none
  | c :: s =>
    if c == '"' || c == '\'' then (string (c :: s)).map fun (t, s) => (.string t, s)
    else if c == 't' then (dropText "rue".toList s).map (.boolean true, ·)
    else if c == 'f' then (dropText "alse".toList s).map (.boolean false, ·)
    else if c == 'i' || c == 'n' then specialFloat (c :: s)
    else if c == '+' || c == '-' || isDigit c then
      match dateTime (c :: s) with
      | some r => some r
      | none => number (c :: s)
    else none

end ContentGraph.Toml
