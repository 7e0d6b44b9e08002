import Mathlib.Data.List.Chain
import ContentGraph.Component.Literal

/-!
# Spellings of strings

The ways to write the characters of a string between quotes: as they are, behind a backslash, by
their numbers, and with line ends that a backslash continues. An escape stands for its character
(`unescape_single`, `unescape_written`), but one whose number is half of a pair stands for itself. So a
character that is written as a pair is told as the pair is written, and only without pairs is what
is told the value of the string (`Literal.told_eq_value_iff`).
-/

namespace ContentGraph.Component

open Tsx
open Text (isHexDigit hexDigit? numberOf charOf?)

/-! ## Escapes by number -/

/-- The forms of escapes that give a character by its number in hexadecimal digits. -/
inductive CodeForm
  /-- `\x` and two digits. -/
  | byte
  /-- `\u` and four digits. -/
  | unit
  /-- `\u` and digits in braces. -/
  | point
deriving DecidableEq

/-- Holds for the numbers of digits that a form takes. -/
def CodeForm.Takes : CodeForm → Nat → Prop
  | byte, n => n = 2
  | unit, n => n = 4
  | point, n => 0 < n

instance : (form : CodeForm) → (n : Nat) → Decidable (form.Takes n)
  | .byte, n => inferInstanceAs (Decidable (n = 2))
  | .unit, n => inferInstanceAs (Decidable (n = 4))
  | .point, n => inferInstanceAs (Decidable (0 < n))

/-- An escape that gives a number. -/
structure Code where
  form : CodeForm
  digits : List Char
  hex : ∀ d ∈ digits, isHexDigit d
  fits : form.Takes digits.length

namespace Code

/-- The number that an escape gives. -/
def number (e : Code) : Nat := numberOf 16 e.digits

/-- The letter behind the backslash. -/
def letter (e : Code) : Char :=
  match e.form with
  | .byte => 'x'
  | _ => 'u'

/-- The digits as they are written, in braces or without. -/
def body (e : Code) : List Char :=
  match e.form with
  | .point => '\x7b' :: e.digits ++ ['\x7d']
  | _ => e.digits

/-- An escape as it is written. -/
def written (e : Code) : List Char := backslash :: e.letter :: e.body

theorem digits_ne_nil (e : Code) : e.digits ≠ [] := by
  intro hnil
  have hfits := e.fits
  rw [hnil] at hfits
  cases hform : e.form <;> rw [hform] at hfits <;> cases hfits

end Code

/-- Two escapes that write one character by the halves of its number. -/
structure IsPair (high low : Code) (c : Char) : Prop where
  highForm : high.form = .unit
  lowForm : low.form = .unit
  highNumber : 0xD800 ≤ high.number ∧ high.number < 0xDC00
  lowNumber : 0xDC00 ≤ low.number ∧ low.number < 0xE000
  number : c.toNat = 0x10000 + (high.number - 0xD800) * 0x400 + (low.number - 0xDC00)

section Numbers

theorem le_foldl_digits (digits : List Char) (n : Nat) :
    n ≤ digits.foldl (fun n c => n * 16 + (hexDigit? c).getD 0) n := by
  induction digits generalizing n with
  | nil => exact Nat.le_refl n
  | cons c digits ih =>
      have hstep := ih (n * 16 + (hexDigit? c).getD 0)
      rw [List.foldl_cons]
      omega

/-- The number that digits write is found, unless it is too great for a word. -/
theorem hexNumberFrom?_eq {digits : List Char} (hhex : ∀ d ∈ digits, isHexDigit d) {n : Nat}
    (hn : n < Word.count 32) :
    hexNumberFrom? n digits
      = (some (digits.foldl (fun n c => n * 16 + (hexDigit? c).getD 0) n)).filter
        (· < Word.count 32) := by
  induction digits generalizing n with
  | nil =>
      rw [List.foldl_nil, Option.filter_some, if_pos (decide_eq_true hn)]
      rfl
  | cons c digits ih =>
      obtain ⟨hc, hdigits⟩ := List.forall_mem_cons.1 hhex
      obtain ⟨d, hd⟩ := Option.isSome_iff_exists.1 hc
      rw [hexNumberFrom?, hd, List.foldl_cons, hd, Option.getD_some]
      dsimp only
      by_cases hlt : n * 16 + d < Word.count 32
      · rw [if_pos hlt, ih hdigits hlt]
      · have hle := le_foldl_digits digits (n * 16 + d)
        rw [if_neg hlt, Option.filter_some, if_neg]
        rw [decide_eq_true_eq]
        omega

theorem ne_of_isHexDigit {c d : Char} (h : isHexDigit c) (hd : ¬isHexDigit d) : c ≠ d := by
  rintro rfl
  exact hd h

/-- What the digits of an escape name is the character with their number. -/
theorem hexNumber?_bind_charOf? (e : Code) :
    (hexNumber? e.digits).bind charOf? = charOf? e.number := by
  have hnone : hexNumber? e.digits = hexNumberFrom? 0 e.digits := by
    cases hdigits : e.digits with
    | nil => exact absurd hdigits e.digits_ne_nil
    | cons c digits =>
        have hc : c ≠ '+' := ne_of_isHexDigit
          (e.hex c (by rw [hdigits]; exact List.mem_cons_self)) (by decide)
        unfold hexNumber?
        split
        · rename_i heq
          exact absurd (List.cons.inj heq).1 hc
        · rfl
  rw [hnone, hexNumberFrom?_eq e.hex (by decide)]
  show (Option.filter _ (some e.number)).bind charOf? = _
  by_cases hlt : e.number < Word.count 32
  · rw [Option.filter_some, if_pos (decide_eq_true hlt), Option.bind_some]
  · rw [Option.filter_some, if_neg (by simpa using hlt), Option.bind_none, charOf?, dif_neg]
    rw [Word.count_32] at hlt
    unfold Nat.isValidChar
    omega

end Numbers

/-! ## What escapes stand for -/

theorem unescape_cons (c : Char) (more : List Char) :
    unescape (backslash :: c :: more) = unescapeParts (backslash :: c :: more) c more := rfl

theorem dropWhile_of_notMem {c : Char} {s : List Char} (h : c ∉ s) : s.dropWhile (· == c) = s := by
  cases s with
  | nil => rfl
  | cons d s =>
      have hne : d ≠ c := by
        rintro rfl
        exact h List.mem_cons_self
      rw [List.dropWhile_cons, if_neg (by simpa using hne)]

/-- The braces around digits are dropped, and no digits with them. -/
theorem digits_of_body (e : Code) :
    ((e.body.dropWhile (· == '\x7b')).reverse.dropWhile (· == '\x7d')).reverse = e.digits := by
  have hopen : '\x7b' ∉ e.digits := fun h => absurd (e.hex _ h) (by decide)
  have hclose : '\x7d' ∉ e.digits.reverse := fun h =>
    absurd (e.hex _ (List.mem_reverse.1 h)) (by decide)
  unfold Code.body
  split
  · have hboth : '\x7b' ∉ e.digits ++ ['\x7d'] := by
      rw [List.mem_append, not_or]
      exact ⟨hopen, by decide⟩
    rw [List.cons_append, List.dropWhile_cons, if_pos (by decide), dropWhile_of_notMem hboth,
      List.reverse_append, List.reverse_singleton, List.singleton_append, List.dropWhile_cons,
      if_pos (by decide), dropWhile_of_notMem hclose, List.reverse_reverse]
  · rw [dropWhile_of_notMem hopen, dropWhile_of_notMem hclose, List.reverse_reverse]

/-- An escape by number stands for the character with this number, or else for itself. -/
theorem unescape_written (e : Code) :
    unescape e.written = ((charOf? e.number).map fun c => [c]).getD e.written := by
  have hparts (whole rest : List Char) : unescapeParts whole e.letter rest
      = (((hexNumber? ((rest.dropWhile (· == '\x7b')).reverse.dropWhile
          (· == '\x7d')).reverse).bind charOf?).map fun c => [c]).getD whole := by
    unfold Code.letter
    cases e.form <;>
    · simp only [unescapeParts, Char.reduceEq, if_false]
      cases (hexNumber? _).bind charOf? <;> rfl
  unfold Code.written
  rw [unescape_cons, hparts, digits_of_body, hexNumber?_bind_charOf?]

/-- Characters with a name of one letter. -/
def controls : List (Char × Char) :=
  [('n', '\n'), ('t', '\t'), ('r', '\r'), ('b', '\x08'), ('f', '\x0c'), ('v', '\x0b')]

/-- Octal digits. -/
def isOctal (c : Char) : Bool := '0' ≤ c && c ≤ '7'

/-- Characters that are an escape alone behind a backslash. -/
def isSingle (c : Char) : Bool := !endsLine c && c != 'x' && c != 'u' && !isOctal c

/-- What such an escape stands for: a control character by its name, or the character itself. -/
def singleValue (c : Char) : Char := (controls.lookup c).getD c

theorem unescape_single {c : Char} (h : isSingle c) (more : List Char) :
    unescape (backslash :: c :: more) = [singleValue c] := by
  rw [unescape_cons]
  by_cases hcontrol : c ∈ controls.map Prod.fst
  · simp only [controls, List.map_cons, List.map_nil, List.mem_cons, List.not_mem_nil,
      or_false] at hcontrol
    rcases hcontrol with rfl | rfl | rfl | rfl | rfl | rfl <;> rfl
  · have hlookup : controls.lookup c = none := by
      rw [List.lookup_eq_none_iff]
      intro entry hentry
      rw [bne_iff_ne]
      rintro rfl
      exact hcontrol (List.mem_map_of_mem hentry)
    have hzero : c ≠ '0' := by
      rintro rfl
      cases h
    simp only [controls, List.map_cons, List.map_nil, List.mem_cons, List.not_mem_nil, or_false,
      not_or] at hcontrol
    obtain ⟨hn, ht, hr, hb, hf, hv⟩ := hcontrol
    simp only [isSingle, endsLine, Bool.and_eq_true, Bool.not_eq_true', Bool.or_eq_false_iff,
      beq_eq_false_iff_ne, bne_iff_ne] at h
    obtain ⟨⟨⟨⟨⟨hlf, hcr⟩, hseparator⟩, hx⟩, hu⟩, -⟩ := h
    simp [unescapeParts, singleValue, *]

theorem unescape_lineEnd {c : Char} (h : endsLine c) (more : List Char) :
    unescape (backslash :: c :: more) = [] := by
  have hletter (d : Char) (hd : ¬endsLine d) : c ≠ d := by
    rintro rfl
    exact hd h
  have hend : c = '\n' ∨ c = '\r' ∨ isSeparator c := by
    simpa [endsLine, or_assoc] using h
  rw [unescape_cons]
  unfold unescapeParts
  rw [if_neg (hletter 'n' (by decide)), if_neg (hletter 't' (by decide)),
    if_neg (hletter 'r' (by decide)), if_neg (hletter 'b' (by decide)),
    if_neg (hletter 'f' (by decide)), if_neg (hletter 'v' (by decide)),
    if_neg (fun h => hletter '0' (by decide) h.1), if_pos hend]

/-! ## Strings -/

/-- Characters that are written as they are between quotes. -/
def isPlain (quote c : Char) : Bool := c != quote && c != backslash && c != '\r' && c != '\n'

/-- The line ends that a backslash continues. -/
def lineEnds : List (List Char) := [['\n'], ['\r'], ['\r', '\n'], ['\u2028'], ['\u2029']]

/-- One way to write some of a string between quotes. -/
inductive Spelling (quote : Char)
  /-- A character as it is. -/
  | plain (c : Char) (h : isPlain quote c)
  /-- A backslash and one character. -/
  | single (c : Char) (h : isSingle c)
  /-- A backslash and a zero, for NUL. -/
  | zero
  /-- A character by its number. -/
  | code (e : Code) (c : Char) (h : charOf? e.number = some c)
  /-- A character by the halves of its number. -/
  | pair (high low : Code) (c : Char) (h : IsPair high low c)
  /-- A line end that is no part of the string. -/
  | continued (lineEnd : List Char) (h : lineEnd ∈ lineEnds)

namespace Spelling

variable {quote : Char}

/-- What is written. -/
def written : Spelling quote → List Char
  | plain c _ => [c]
  | single c _ => [backslash, c]
  | zero => [backslash, '0']
  | code e _ _ => e.written
  | pair high low _ _ => high.written ++ low.written
  | continued lineEnd _ => backslash :: lineEnd

/-- What it means. -/
def value : Spelling quote → List Char
  | plain c _ => [c]
  | single c _ => [singleValue c]
  | zero => ['\x00']
  | code _ c _ => [c]
  | pair _ _ c _ => [c]
  | continued _ _ => []

/-- What is told of it: a pair as it is written. -/
def told : Spelling quote → List Char
  | pair high low _ _ => high.written ++ low.written
  | x => x.value

/-- Holds for pairs. -/
def isPair : Spelling quote → Bool
  | pair _ _ _ _ => true
  | _ => false

/-- The character that is written as it is. -/
def char? : Spelling quote → Option Char
  | plain c _ => some c
  | _ => none

/-- Holds for a backslash and a zero. -/
def isZero : Spelling quote → Bool
  | zero => true
  | _ => false

/-- Holds for escapes that a separator of lines behind them continues: a question mark and a
carriage return behind a backslash. -/
def isOpen : Spelling quote → Bool
  | single c _ => c == '?'
  | continued lineEnd _ => lineEnd == ['\r']
  | _ => false

/-- Holds when the second of two spellings would be read as a part of the first: an octal digit
behind a zero. -/
def joins (x y : Spelling quote) : Bool := x.isZero && y.char?.any isOctal

/-- Holds for spellings none of which is read as a part of the one before it. -/
def AreApart (parts : List (Spelling quote)) : Prop := parts.IsChain fun x y => ¬x.joins y

instance (parts : List (Spelling quote)) : Decidable (AreApart parts) :=
  inferInstanceAs (Decidable (parts.IsChain fun x y => ¬x.joins y))

/-- Holds when an escape takes a separator of lines along that stands behind it. -/
def takes (x y : Spelling quote) : Bool := x.isOpen && y.char?.any isSeparator

/-- What is told of spellings side by side; a separator that an escape takes along is lost. -/
def toldAll : List (Spelling quote) → List Char
  | [] => []
  | [x] => x.told
  | x :: y :: parts => x.told ++ if x.takes y then toldAll parts else toldAll (y :: parts)

theorem toldAll_cons_of_takes {x y : Spelling quote} (h : x.takes y) (parts : List (Spelling quote)) :
    toldAll (x :: y :: parts) = x.told ++ toldAll parts := by
  rw [toldAll, if_pos h]

theorem toldAll_cons_of_not {x : Spelling quote} {parts : List (Spelling quote)}
    (h : ¬parts.head?.any x.takes) : toldAll (x :: parts) = x.told ++ toldAll parts := by
  cases parts with
  | nil => rw [toldAll, toldAll, List.append_nil]
  | cons y parts => rw [toldAll, if_neg (show ¬x.takes y from h)]

theorem told_of_not_isPair {x : Spelling quote} (h : ¬x.isPair) : x.told = x.value := by
  cases x with
  | pair high low c hpair => exact absurd rfl h
  | _ => rfl

theorem value_eq (x : Spelling quote) : x.value = [] ∨ ∃ c, x.value = [c] := by
  cases x with
  | continued lineEnd h => exact .inl rfl
  | _ => exact .inr ⟨_, rfl⟩

theorem told_of_isPair {x : Spelling quote} (h : x.isPair) :
    ∃ s, x.told = backslash :: s ∧ ∃ c, x.value = [c] ∧ 0x10000 ≤ c.toNat := by
  cases x with
  | pair high low c hpair =>
      have hnumber := hpair.number
      exact ⟨_, rfl, c, rfl, by omega⟩
  | _ => cases h

/-- Behind a spelling a text of separators is lost, which may be empty. -/
theorem exists_toldAll_cons (x : Spelling quote) (parts : List (Spelling quote)) :
    ∃ (lost : List Char) (more : List (Spelling quote)), more.length ≤ parts.length
      ∧ toldAll (x :: parts) = x.told ++ toldAll more
      ∧ parts.flatMap value = lost ++ more.flatMap value ∧ ∀ d ∈ lost, isSeparator d := by
  by_cases htakes : parts.head?.any x.takes
  · cases parts with
    | nil => cases htakes
    | cons y parts =>
        have htakes : x.takes y := htakes
        obtain ⟨-, hseparator⟩ := Bool.and_eq_true_iff.1 htakes
        cases y with
        | plain d hd =>
            refine ⟨[d], parts, Nat.le_succ _, toldAll_cons_of_takes htakes parts, rfl, ?_⟩
            intro d' hd'
            rw [List.mem_singleton.1 hd']
            exact hseparator
        | _ => cases hseparator
  · exact ⟨[], parts, Nat.le_refl _, toldAll_cons_of_not htakes, rfl,
      List.forall_mem_nil _⟩

/-- What is told of spellings is never their meaning behind some separators, so a separator that is
lost is not made up for later. -/
theorem toldAll_ne_append : (parts : List (Spelling quote)) → {lost : List Char} → lost ≠ [] →
    (∀ d ∈ lost, isSeparator d) → toldAll parts ≠ lost ++ parts.flatMap value
  | [], lost, hne, _, h => hne (List.append_eq_nil_iff.1 h.symm).1
  | x :: parts, lost, hne, hlost, h => by
      obtain ⟨d, lost, rfl⟩ := List.exists_cons_of_ne_nil hne
      obtain ⟨hd, hbehind⟩ := List.forall_mem_cons.1 hlost
      obtain ⟨lost', more, hlength, htold, hvalue, hlost'⟩ := exists_toldAll_cons x parts
      rw [htold, List.flatMap_cons, hvalue] at h
      by_cases hpair : x.isPair
      · obtain ⟨s, hs, -⟩ := told_of_isPair hpair
        rw [hs] at h
        obtain ⟨rfl, -⟩ := List.cons.inj h
        cases hd
      · rw [told_of_not_isPair hpair] at h
        rcases x.value_eq with hx | ⟨c, hx⟩
        · have hmore : toldAll more = (d :: lost ++ lost') ++ more.flatMap value := by
            simpa [hx] using h
          exact toldAll_ne_append more (List.cons_ne_nil _ _)
            (List.forall_mem_append.2 ⟨hlost, hlost'⟩) hmore
        · -- what is told first is the first separator, which is then missed behind the others
          rw [hx] at h
          obtain ⟨rfl, h⟩ := List.cons.inj h
          have hmore : toldAll more = (lost ++ c :: lost') ++ more.flatMap value := by
            simpa using h
          exact toldAll_ne_append more (List.append_ne_nil_of_right_ne_nil _ (List.cons_ne_nil _ _))
            (List.forall_mem_append.2 ⟨hbehind, List.forall_mem_cons.2 ⟨hd, hlost'⟩⟩) hmore
termination_by parts => parts.length

/-- A pair is not told as its character, whatever stands behind it. -/
theorem not_isPair_of_toldAll_eq {x : Spelling quote} {parts : List (Spelling quote)}
    (h : toldAll (x :: parts) = (x :: parts).flatMap value) : ¬x.isPair := by
  intro hpair
  obtain ⟨s, hs, c, hc, hlarge⟩ := told_of_isPair hpair
  obtain ⟨lost, more, -, htold, -⟩ := exists_toldAll_cons x parts
  rw [htold, hs, List.flatMap_cons, hc] at h
  obtain ⟨rfl, -⟩ := List.cons.inj h
  exact absurd hlarge (by decide)

/-- Of an escape that takes a separator along less than the meaning is told. -/
theorem not_takes_of_toldAll_eq {x y : Spelling quote} {parts : List (Spelling quote)}
    (h : toldAll (x :: y :: parts) = (x :: y :: parts).flatMap value) : ¬x.takes y := by
  intro htakes
  have hpair := not_isPair_of_toldAll_eq h
  obtain ⟨-, hseparator⟩ := Bool.and_eq_true_iff.1 htakes
  cases y with
  | plain d hd =>
      rw [toldAll_cons_of_takes htakes, told_of_not_isPair hpair, List.flatMap_cons] at h
      refine toldAll_ne_append parts (List.cons_ne_nil d []) ?_ (List.append_cancel_left h)
      intro d' hd'
      rw [List.mem_singleton.1 hd']
      exact hseparator
  | _ => cases hseparator

/-- The meaning of spellings is told of them if there are no pairs among them, and no escapes that
take anything along, and not otherwise. -/
theorem toldAll_eq_iff {parts : List (Spelling quote)} :
    toldAll parts = parts.flatMap value
      ↔ (∀ x ∈ parts, ¬x.isPair) ∧ parts.IsChain fun x y => ¬x.takes y := by
  induction parts with
  | nil => simp [toldAll]
  | cons x parts ih =>
      have hcons (hpair : ¬x.isPair) (hnot : ∀ y ∈ parts.head?, ¬x.takes y) :
          toldAll (x :: parts) = (x :: parts).flatMap value
            ↔ toldAll parts = parts.flatMap value := by
        have hnone : ¬parts.head?.any x.takes := by
          rw [Option.any_eq_true]
          rintro ⟨y, hy, htakes⟩
          exact hnot y hy htakes
        rw [toldAll_cons_of_not hnone, told_of_not_isPair hpair, List.flatMap_cons,
          List.append_cancel_left_eq]
      constructor
      · intro h
        have hpair := not_isPair_of_toldAll_eq h
        have hnot : ∀ y ∈ parts.head?, ¬x.takes y := by
          intro y hy
          cases parts with
          | nil => cases hy
          | cons z parts =>
              obtain rfl : z = y := Option.some.inj hy
              exact not_takes_of_toldAll_eq h
        obtain ⟨hpairs, hchain⟩ := ih.1 ((hcons hpair hnot).1 h)
        exact ⟨List.forall_mem_cons.2 ⟨hpair, hpairs⟩, List.isChain_cons.2 ⟨hnot, hchain⟩⟩
      · rintro ⟨hpairs, hchain⟩
        obtain ⟨hpair, hpairs⟩ := List.forall_mem_cons.1 hpairs
        obtain ⟨hnot, hchain⟩ := List.isChain_cons.1 hchain
        exact (hcons hpair hnot).2 (ih.2 ⟨hpairs, hchain⟩)

end Spelling

/-- A string as it is written, with its quotes. -/
structure Literal where
  quote : Char
  isQuote : quote = singleQuote ∨ quote = doubleQuote
  parts : List (Spelling quote)
  apart : Spelling.AreApart parts

namespace Literal

/-- What is written, from quote to quote. -/
def written (l : Literal) : List Char :=
  l.quote :: l.parts.flatMap Spelling.written ++ [l.quote]

/-- The string that is meant. -/
def value (l : Literal) : List Char := l.parts.flatMap Spelling.value

/-- The string that is told. -/
def told (l : Literal) : List Char := Spelling.toldAll l.parts

/-- Holds for literals without pairs and without separators of lines behind escapes that take them
along. -/
structure IsFaithful (l : Literal) : Prop where
  noPair : ∀ x ∈ l.parts, ¬x.isPair
  noneTaken : l.parts.IsChain fun x y => ¬x.takes y

theorem told_eq_value_iff {l : Literal} : l.told = l.value ↔ l.IsFaithful := by
  rw [told, value, Spelling.toldAll_eq_iff]
  exact ⟨fun h => ⟨h.1, h.2⟩, fun h => ⟨h.noPair, h.noneTaken⟩⟩

end Literal

end ContentGraph.Component
