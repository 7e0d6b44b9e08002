import ContentGraph.Json.Printer
import ContentGraph.Json.Reader

/-!
# Integers read back

What `integerText` writes is cut into a sign and digits, provided that nothing behind it can be taken
for a further part of the number (`numberText_integerText`), and these stand for the same integer if
it fits in a machine word (`value?_integerText`). Doubles are left out: the decimal that is read is
not always the nearest double.
-/

namespace ContentGraph.Json

open Text

/-- What may stand behind a value inside other values: nothing, a comma or a closing bracket. -/
inductive Ends : List Char → Prop
  | nothing : Ends []
  | comma (s : List Char) : Ends (',' :: s)
  | bracket (s : List Char) : Ends (']' :: s)
  | brace (s : List Char) : Ends ('}' :: s)

/-- Holds for the integers that a number can be: those of a signed or an unsigned machine word. -/
def InWord (n : Int) : Prop := -(Word.count 63 : Int) ≤ n ∧ n < Word.count 64

instance (n : Int) : Decidable (InWord n) := inferInstanceAs (Decidable (_ ∧ _))

/-! ## Digits -/

theorem isDigit_eq (c : Char) : Text.isDigit c = c.isDigit := by
  simp only [Text.isDigit, Char.isDigit, ge_iff_le, Char.le_def]

/-- Decimal digits are digits. -/
theorem isDigit_of_mem_toDigits {n : Nat} {c : Char} (h : c ∈ Nat.toDigits 10 n) :
    Text.isDigit c = true := by
  rw [isDigit_eq]
  exact Nat.isDigit_of_mem_toDigits (by decide) (by decide) h

/-- A run of digits is taken whole: what may follow a value does not start with a digit. -/
theorem takeWhile_isDigit_append {digits rest : List Char}
    (hd : ∀ c ∈ digits, Text.isDigit c = true) (hr : Ends rest) :
    (digits ++ rest).takeWhile Text.isDigit = digits := by
  rw [List.takeWhile_append_of_pos hd]
  cases hr <;> simp [Text.isDigit]

theorem dropWhile_isDigit_append {digits rest : List Char}
    (hd : ∀ c ∈ digits, Text.isDigit c = true) (hr : Ends rest) :
    (digits ++ rest).dropWhile Text.isDigit = rest := by
  rw [List.dropWhile_append_of_pos hd]
  cases hr <;> simp [Text.isDigit]

/-- Only zero is written with a zero in front. -/
theorem head?_toDigits {n : Nat} (h : 0 < n) : (Nat.toDigits 10 n).head? ≠ some '0' := by
  induction n using Nat.strongRecOn with
  | ind n ih =>
      rw [Nat.toDigits_eq_if (by decide)]
      split
      · simpa using Nat.ne_of_gt h
      · have hpos : 0 < n / 10 := by omega
        have hne : Nat.toDigits 10 (n / 10) ≠ [] := Nat.toDigits_ne_nil
        rw [List.head?_append, Option.or_of_isSome (List.isSome_head?.2 hne)]
        exact ih (n / 10) (by omega) hpos

theorem le_ofDigitChars (digits : List Char) (start : Nat) :
    start ≤ Nat.ofDigitChars 10 digits start := by
  induction digits generalizing start with
  | nil => simp
  | cons c digits ih =>
      rw [Nat.ofDigitChars_cons]
      exact Nat.le_trans (by omega) (ih _)

/-- Digits that write a number below 2⁶⁴ are all taken. -/
theorem significand_eq {digits : List Char} {start : Nat}
    (h : Nat.ofDigitChars 10 digits start < Word.count 64) :
    significand start digits = (Nat.ofDigitChars 10 digits start, 0) := by
  induction digits generalizing start with
  | nil => simp [significand]
  | cons c digits ih =>
      rw [Nat.ofDigitChars_cons] at h ⊢
      have hlt : start * 10 + (c.toNat - '0'.toNat) < Word.count 64 := by
        refine Nat.lt_of_le_of_lt ?_ h
        rw [Nat.mul_comm start 10]
        exact le_ofDigitChars digits _
      rw [significand]
      simp only [hlt, if_true]
      rw [Nat.mul_comm start 10]
      exact ih h

theorem significand_toDigits {n : Nat} (h : n < Word.count 64) :
    significand 0 (Nat.toDigits 10 n) = (n, 0) := by
  have hn : Nat.ofDigitChars 10 (Nat.toDigits 10 n) 0 = n := Nat.ofDigitChars_ten_toDigits
  rw [significand_eq (by rw [hn]; exact h), hn]

/-! ## Numbers -/

/-- The digits of a number are read as its whole part. -/
theorem readWhole_toDigits (n : Nat) {rest : List Char} (hr : Ends rest) :
    readWhole (Nat.toDigits 10 n ++ rest) = some (Nat.toDigits 10 n, rest) := by
  have hall : ∀ c ∈ Nat.toDigits 10 n, Text.isDigit c = true :=
    fun c hc => isDigit_of_mem_toDigits hc
  have hdigits : readDigits (Nat.toDigits 10 n ++ rest) = some (Nat.toDigits 10 n, rest) := by
    unfold readDigits
    simp only [takeWhile_isDigit_append hall hr, dropWhile_isDigit_append hall hr]
    simp
  have hzero : ((Nat.toDigits 10 n).head? == some '0' && (Nat.toDigits 10 n).length != 1)
      = false := by
    rcases Nat.eq_zero_or_pos n with rfl | hn
    · simp
    · simp [head?_toDigits hn]
  unfold readWhole
  rw [hdigits]
  simp only [Option.bind_eq_bind, Option.bind_some, hzero]
  rfl

/-- A digit in front is not taken for a sign. -/
theorem readMinus_toDigits (n : Nat) (rest : List Char) :
    readMinus (Nat.toDigits 10 n ++ rest) = (false, Nat.toDigits 10 n ++ rest) := by
  unfold readMinus
  split
  · next s h =>
      have hmem : '-' ∈ Nat.toDigits 10 n := by
        cases hd : Nat.toDigits 10 n with
        | nil => exact absurd hd Nat.toDigits_ne_nil
        | cons d ds =>
            rw [hd, List.cons_append] at h
            injection h with h _
            exact h ▸ List.mem_cons_self
      exact absurd (isDigit_of_mem_toDigits hmem) (by decide)
  · rfl

theorem readMinus_integerText (n : Int) (rest : List Char) :
    readMinus (integerText n ++ rest) = (decide (n < 0), Nat.toDigits 10 n.natAbs ++ rest) := by
  unfold integerText
  split
  · next h => simp [readMinus, h]
  · next h => simp [readMinus_toDigits, h]

/-- The text of an integer is cut into its sign and its digits. -/
theorem numberText_integerText (n : Int) {rest : List Char} (hr : Ends rest) :
    numberText (integerText n ++ rest)
      = some (⟨decide (n < 0), Nat.toDigits 10 n.natAbs, none, none⟩, rest) := by
  have hfraction : readFraction rest = some (none, rest) := by cases hr <;> rfl
  have hexponent : readExponent rest = some (none, rest) := by cases hr <;> rfl
  unfold numberText
  simp only [readMinus_integerText, readWhole_toDigits _ hr, hfraction, hexponent,
    Option.bind_eq_bind, Option.bind_some]
  rfl

/-- The parts of the text of an integer stand for the integer. -/
theorem value?_integerText {n : Int} (h : InWord n) :
    NumberText.value? ⟨decide (n < 0), Nat.toDigits 10 n.natAbs, none, none⟩
      = some (.integer n) := by
  obtain ⟨hlow, hhigh⟩ := h
  have h63 := Word.count_63
  have h64 := Word.count_64
  have hsig := significand_toDigits (n := n.natAbs) (by omega)
  unfold NumberText.value?
  simp only [hsig, Nat.lt_irrefl, if_false]
  by_cases hneg : n < 0
  · have hrange : ¬ (n.natAbs = 0 ∨ Word.count 63 < n.natAbs) := by omega
    have habs : -(n.natAbs : Int) = n := by omega
    simp only [hneg, decide_true, Bool.not_true, Bool.false_eq_true, if_false, hrange, habs]
  · have habs : (n.natAbs : Int) = n := by omega
    simp only [hneg, decide_false, Bool.not_false, if_true, habs]

end ContentGraph.Json
