/-!
# Glob patterns

A pattern is read into tokens. Two stars next to a slash stand for directories: in front of the
pattern for any leading ones, at its end for everything below, between slashes for any number of
directories; elsewhere they are two single stars. Braces hold branches, brackets a class of
characters, and a backslash takes the meaning from the character behind it.
-/

namespace ContentGraph.Glob

/-- A part of a pattern. -/
inductive Token
  | letter (c : Char)
  /-- Any one byte. -/
  | one
  /-- Any bytes. -/
  | run
  /-- Any leading directories, or none. -/
  | ancestors
  /-- A slash and any bytes. -/
  | descendants
  /-- A slash, or two slashes and any bytes between. -/
  | between
  /-- One byte in some ranges, or in none of them. -/
  | oneOf (negated : Bool) (ranges : List (Char × Char))
  /-- One of some branches. -/
  | choice (branches : List (List Token))
deriving Repr, BEq, Inhabited

/-- Why a pattern cannot be read. -/
inductive Fault
  | unclosedClass
  | emptyRange (first last : Char)
  | unopenedGroup
  | unclosedGroup
  | danglingBackslash
deriving Repr, DecidableEq

/-- The wording of a fault. -/
def Fault.message : Fault → String
  | .unclosedClass => "unclosed character class; missing ']'"
  | .emptyRange first last =>
    "invalid range; '" ++ String.singleton first ++ "' > '" ++ String.singleton last ++ "'"
  | .unopenedGroup =>
    "unopened alternate group; missing '\x7b' (maybe escape '\x7d' with '[\x7d]'?)"
  | .unclosedGroup =>
    "unclosed alternate group; missing '\x7d' (maybe escape '\x7b' with '[\x7b]'?)"
  | .danglingBackslash => "dangling '\\'"

/-! ## Classes -/

/-- Sets the end of the last range; ranges are kept reversed. -/
def extendLast (c : Char) : List (Char × Char) → Except Fault (List (Char × Char))
  | (a, _) :: rest => if c < a then .error (.emptyRange a c) else .ok ((a, c) :: rest)
  | [] => .ok [(c, c)]

/-- Reads the inside of a class up to its closing bracket. `first` holds before the first
character, `open` behind a hyphen that may make a range. -/
def readClass (first hyphen : Bool) (ranges : List (Char × Char)) :
    List Char → Except Fault (List (Char × Char) × List Char)
  | [] => .error .unclosedClass
  | c :: s =>
    if c = ']' ∧ !first then
      .ok ((if hyphen then ('-', '-') :: ranges else ranges).reverse, s)
    else if c = '-' ∧ !first ∧ !hyphen then readClass false true ranges s
    else if hyphen then do
      let ranges ← extendLast c ranges
      readClass false false ranges s
    else readClass false false ((c, c) :: ranges) s

theorem readClass_length {first hyphen : Bool} {ranges out : List (Char × Char)}
    {s rest : List Char} (h : readClass first hyphen ranges s = .ok (out, rest)) :
    rest.length < s.length := by
  induction s generalizing first hyphen ranges with
  | nil => simp [readClass] at h
  | cons c s ih =>
    unfold readClass at h
    split at h
    · simp only [Except.ok.injEq, Prod.mk.injEq] at h
      simp [← h.2]
    · split at h
      · have := ih h
        simp only [List.length_cons]
        omega
      · split at h
        · cases he : extendLast c ranges with
          | error e => rw [he] at h; cases h
          | ok r =>
            rw [he] at h
            have := ih h
            simp only [List.length_cons]
            omega
        · have := ih h
          simp only [List.length_cons]
          omega

/-! ## Groups -/

/-- A group whose closing brace was not met yet: what stands before it in its own branch, and its
finished branches, both reversed. -/
structure Group where
  before : List Token
  branches : List (List Token)

/-- A pattern under construction: the open branch, reversed, and the open groups, innermost
first. -/
structure Draft where
  tokens : List Token := []
  groups : List Group := []

namespace Draft

/-- Adds a token. -/
def push (d : Draft) (t : Token) : Draft := { d with tokens := t :: d.tokens }

/-- Opens a group. -/
def openGroup (d : Draft) : Draft := ⟨[], ⟨d.tokens, []⟩ :: d.groups⟩

/-- Ends a branch; outside of groups a comma is a letter. -/
def comma (d : Draft) : Draft :=
  match d.groups with
  | [] => d.push (.letter ',')
  | g :: rest => ⟨[], { g with branches := d.tokens.reverse :: g.branches } :: rest⟩

/-- Closes a group. -/
def closeGroup (d : Draft) : Except Fault Draft :=
  match d.groups with
  | [] => .error .unopenedGroup
  | g :: rest => .ok ⟨.choice (d.tokens.reverse :: g.branches).reverse :: g.before, rest⟩

/-- Replaces the slash in front of two stars by what they stand for together. -/
def joinStars (d : Draft) (t : Token) : Draft :=
  match d.tokens with
  | .ancestors :: _ => d
  | .descendants :: _ => d
  | _ :: rest => { d with tokens := t :: rest }
  | [] => d.push t

/-- Adds two single stars. -/
def pushStars (d : Draft) : Draft := (d.push .run).push .run

/-- Holds where the two stars behind the character `previous` may stand for directories. -/
def mayJoin (d : Draft) (previous : Option Char) : Bool :=
  previous = some '/' || (!d.groups.isEmpty && (previous = some ',' || previous = some '\x7b'))

/-- Adds two stars in front of `s`; returns what is behind them and the slash that they take. -/
def twoStars (d : Draft) (previous : Option Char) (s : List Char) : Draft × List Char :=
  if d.tokens.isEmpty then
    match s with
    | [] => (d.push .ancestors, [])
    | '/' :: s => (d.push .ancestors, s)
    | s => (d.pushStars, s)
  else if d.mayJoin previous then
    match s with
    | [] => (d.joinStars .descendants, [])
    | '/' :: s => (d.joinStars .between, s)
    | c :: s =>
      if !d.groups.isEmpty && (c == ',' || c == '\x7d') then (d.joinStars .descendants, c :: s)
      else (d.pushStars, c :: s)
  else (d.pushStars, s)

theorem twoStars_length (d : Draft) (previous : Option Char) (s : List Char) :
    (d.twoStars previous s).2.length ≤ s.length := by
  unfold twoStars
  repeat' split
  all_goals simp

end Draft

/-- The character before what is left, when `s` was in front of `rest`. -/
def lastOf (s rest : List Char) : Option Char := (s.take (s.length - rest.length)).getLast?

/-- Reads what is left of a pattern behind the character `previous`. -/
def readFrom (d : Draft) (previous : Option Char) (s : List Char) : Except Fault Draft :=
  match s with
  | [] => .ok d
  | '?' :: s => readFrom (d.push .one) (some '?') s
  | '*' :: '*' :: s =>
    have := d.twoStars_length previous s
    let r := d.twoStars previous s
    readFrom r.1 ((lastOf s r.2).getD '*') r.2
  | '*' :: s => readFrom (d.push .run) (some '*') s
  | '[' :: s =>
    let negated := s.head? = some '!' ∨ s.head? = some '^'
    match h : readClass true false [] (if negated then s.tail else s) with
    | .error e => .error e
    | .ok (ranges, rest) =>
      have : rest.length < s.length + 1 := by
        have hlt := readClass_length h
        have htail : s.tail.length ≤ s.length := by simp
        split at hlt <;> omega
      readFrom (d.push (.oneOf negated ranges)) (some ']') rest
  | '\x7b' :: s => readFrom d.openGroup (some '\x7b') s
  | '\x7d' :: s =>
    match d.closeGroup with
    | .error e => .error e
    | .ok d => readFrom d (some '\x7d') s
  | ',' :: s => readFrom d.comma (some ',') s
  | ['\\'] => .error .danglingBackslash
  | '\\' :: c :: s => readFrom (d.push (.letter c)) (some c) s
  | c :: s => readFrom (d.push (.letter c)) (some c) s
termination_by s.length

/-- Reads a pattern. -/
def parse (pattern : String) : Except Fault (List Token) :=
  match readFrom {} none pattern.toList with
  | .error e => .error e
  | .ok d => if d.groups.isEmpty then .ok d.tokens.reverse else .error .unclosedGroup

end ContentGraph.Glob
