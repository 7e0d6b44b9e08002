/-!
# White space

The characters with the Unicode property `White_Space`, and trimming and word splitting by it.
All functions work on lists of characters. Trimming twice is trimming once (`trimStart_trimStart`).
-/

namespace ContentGraph.Text

/-- Holds for the characters with the Unicode property `White_Space`. -/
def isBlank (c : Char) : Bool :=
  let n := c.toNat
  (0x9 ≤ n && n ≤ 0xD) || n == 0x20 || n == 0x85 || n == 0xA0 || n == 0x1680
    || (0x2000 ≤ n && n ≤ 0x200A) || n == 0x2028 || n == 0x2029 || n == 0x202F
    || n == 0x205F || n == 0x3000

example : (List.range 0x100).filter (fun n => isBlank (Char.ofNat n))
    = [0x9, 0xA, 0xB, 0xC, 0xD, 0x20, 0x85, 0xA0] := by
  decide +kernel

/-! ## Trimming -/

/-- Drops leading white space. -/
def trimStart (s : List Char) : List Char := s.dropWhile isBlank

/-- Drops trailing white space. -/
def trimEnd (s : List Char) : List Char := (s.reverse.dropWhile isBlank).reverse

/-- Drops white space at both ends. -/
def trim (s : List Char) : List Char := trimEnd (trimStart s)

/-- Drops every trailing `c`. -/
def trimEndOf (c : Char) (s : List Char) : List Char :=
  (s.reverse.dropWhile (· == c)).reverse

/-- Holds when only white space is written. -/
def allBlank (s : List Char) : Bool := s.all isBlank

theorem trimStart_cons_of_isBlank {c : Char} {s : List Char} (h : isBlank c = true) :
    trimStart (c :: s) = trimStart s := by
  simp [trimStart, h]

theorem trimStart_cons_of_not_isBlank {c : Char} {s : List Char} (h : isBlank c = false) :
    trimStart (c :: s) = c :: s := by
  simp [trimStart, h]

@[simp] theorem trimStart_trimStart (s : List Char) : trimStart (trimStart s) = trimStart s := by
  induction s with
  | nil => rfl
  | cons c s ih =>
    by_cases h : isBlank c = true
    · rw [trimStart_cons_of_isBlank h, ih]
    · have h' : isBlank c = false := by simpa using h
      rw [trimStart_cons_of_not_isBlank h', trimStart_cons_of_not_isBlank h']

/-! ## Words -/

/-- Gathers the maximal runs of characters that are not blank; `word` is the open run, reversed. -/
def wordsFrom (word : List Char) : List Char → List (List Char)
  | [] => if word.isEmpty then [] else [word.reverse]
  | c :: s =>
    if isBlank c then
      if word.isEmpty then wordsFrom [] s else word.reverse :: wordsFrom [] s
    else wordsFrom (c :: word) s

/-- The maximal runs of characters that are not blank. -/
def words (s : List Char) : List (List Char) := wordsFrom [] s

end ContentGraph.Text
