import ContentGraph.Proofs.Json.NumberText

/-!
# Where numbers end

A number is cut off from what stands behind it: the text of any number is made of its own kind of
characters (`all_numberChars`), and when nothing behind it can be taken for a further part, the same
is read of it whatever stands there (`numberText_append`). This says nothing of which number is read,
so it holds for doubles as well.
-/

namespace ContentGraph.Json

open Text

/-! ## Characters -/

/-- Holds for the characters that the text of a number is made of. -/
def isNumberChar (c : Char) : Bool := isDigit c || c == '.' || c == 'e' || c == '+' || c == '-'

theorem isNumberChar_of_isDigit {c : Char} (h : isDigit c = true) : isNumberChar c = true := by
  simp [isNumberChar, h]

theorem all_toDigits (n : Nat) : (Nat.toDigits 10 n).all isNumberChar = true :=
  List.all_eq_true.2 fun _ hc => isNumberChar_of_isDigit (isDigit_of_mem_toDigits hc)

theorem all_decimalText {d : Binary64.Decimal} (h : d.digits.all isNumberChar = true) :
    d.text.all isNumberChar = true ∧ d.text ≠ [] := by
  have htake (n : Nat) : (d.digits.take n).all isNumberChar = true :=
    List.all_eq_true.2 fun c hc => List.all_eq_true.1 h c (List.mem_of_mem_take hc)
  have hdrop (n : Nat) : (d.digits.drop n).all isNumberChar = true :=
    List.all_eq_true.2 fun c hc => List.all_eq_true.1 h c (List.mem_of_mem_drop hc)
  have hzero : isNumberChar '0' = true := by decide
  have hpoint : isNumberChar '.' = true := by decide
  have hmark : isNumberChar 'e' = true := by decide
  unfold Binary64.Decimal.text
  split
  · simp [h, hzero, hpoint]
  split
  · dsimp only
    split
    · simp [h, hzero, hpoint]
    · simp [htake, hdrop, hpoint]
  · have hsign : isNumberChar (if d.exponent < 0 then '-' else '+') = true := by
      split <;> decide
    dsimp only
    split
    · simp [hzero, hmark, hsign, all_toDigits]
    · next c heq =>
        rw [heq] at h
        simp_all [all_toDigits]
    · next c r heq =>
        rw [heq] at h
        simp_all [all_toDigits]

theorem all_text (bits : UInt64) :
    (Binary64.text bits).all isNumberChar = true ∧ Binary64.text bits ≠ [] := by
  have hdigits : (Binary64.shortest (Binary64.parts bits)).digits.all isNumberChar = true := by
    refine List.all_eq_true.2 fun c hc => ?_
    unfold Binary64.shortest Binary64.stripZeros at hc
    have hmem := (List.dropWhile_suffix _).subset (List.mem_reverse.1 hc)
    exact List.all_eq_true.1 (all_toDigits _) c (List.mem_reverse.1 hmem)
  have hbody := all_decimalText hdigits
  have hminus : isNumberChar '-' = true := by decide
  have hzero : ("0.0".toList).all isNumberChar = true ∧ "0.0".toList ≠ [] := by decide
  unfold Binary64.text
  dsimp only
  split <;> split <;> simp_all

/-- The text of a number is not empty and made of such characters. -/
theorem all_numberChars (n : Number) :
    (numberChars n).all isNumberChar = true ∧ numberChars n ≠ [] := by
  cases n with
  | integer n =>
      show (integerText n).all isNumberChar = true ∧ integerText n ≠ []
      have hminus : isNumberChar '-' = true := by decide
      unfold integerText
      split
      · simp [all_toDigits, hminus]
      · exact ⟨all_toDigits _, Nat.toDigits_ne_nil⟩
  | double bits => exact all_text bits

/-! ## What stands behind -/

variable {s rest : List Char}

theorem takeWhile_isDigit_ends (s : List Char) (hr : Ends rest) :
    (s ++ rest).takeWhile isDigit = s.takeWhile isDigit := by
  induction s with
  | nil => cases hr <;> rfl
  | cons c s ih => simp only [List.cons_append, List.takeWhile_cons, ih]

theorem dropWhile_isDigit_ends (s : List Char) (hr : Ends rest) :
    (s ++ rest).dropWhile isDigit = s.dropWhile isDigit ++ rest := by
  induction s with
  | nil => cases hr <;> rfl
  | cons c s ih =>
      simp only [List.cons_append, List.dropWhile_cons, ih]
      split <;> rfl

/-- Puts a text behind what a reader leaves. -/
def behind {α : Type} (rest : List Char) (p : α × List Char) : α × List Char := (p.1, p.2 ++ rest)

theorem readDigits_append (s : List Char) (hr : Ends rest) :
    readDigits (s ++ rest) = (readDigits s).map (behind rest) := by
  unfold readDigits
  simp only [takeWhile_isDigit_ends s hr, dropWhile_isDigit_ends s hr]
  split <;> rfl

theorem readWhole_append (s : List Char) (hr : Ends rest) :
    readWhole (s ++ rest) = (readWhole s).map (behind rest) := by
  unfold readWhole
  rw [readDigits_append s hr]
  cases readDigits s with
  | none => rfl
  | some p =>
      simp only [Option.map_some, Option.bind_eq_bind, Option.bind_some, behind]
      split <;> rfl

theorem readMinus_append (s : List Char) (hr : Ends rest) :
    readMinus (s ++ rest) = behind rest (readMinus s) := by
  cases s with
  | nil => cases hr <;> rfl
  | cons c s =>
      unfold readMinus
      simp only [List.cons_append]
      split <;> simp_all [behind]

theorem readSign_append (s : List Char) (hr : Ends rest) :
    readSign (s ++ rest) = behind rest (readSign s) := by
  cases s with
  | nil => cases hr <;> rfl
  | cons c s =>
      by_cases hc : c = '+'
      · subst hc
        rfl
      · have hsign (t : List Char) : readSign (c :: t) = readMinus (c :: t) := by
          unfold readSign
          split
          · next heq => exact absurd (List.cons.inj heq).1 hc
          · rfl
        rw [List.cons_append, hsign, hsign]
        exact readMinus_append (c :: s) hr

theorem readFraction_append (s : List Char) (hr : Ends rest) :
    readFraction (s ++ rest) = (readFraction s).map (behind rest) := by
  cases s with
  | nil => cases hr <;> rfl
  | cons c s =>
      by_cases hc : c = '.'
      · subst hc
        show (readDigits (s ++ rest)).map _ = ((readDigits s).map _).map _
        rw [readDigits_append s hr, Option.map_map, Option.map_map]
        rfl
      · have hnone (t : List Char) : readFraction (c :: t) = some (none, c :: t) := by
          unfold readFraction
          split
          · next heq => exact absurd (List.cons.inj heq).1 hc
          · rfl
        rw [List.cons_append, hnone, hnone]
        rfl

theorem readMarked_append (s : List Char) (hr : Ends rest) :
    readMarked (s ++ rest) = (readMarked s).map (behind rest) := by
  unfold readMarked
  simp only [readSign_append s hr, behind, readDigits_append _ hr, Option.map_map]
  rfl

theorem readExponent_append (s : List Char) (hr : Ends rest) :
    readExponent (s ++ rest) = (readExponent s).map (behind rest) := by
  cases s with
  | nil => cases hr <;> rfl
  | cons c s =>
      by_cases hlower : c = 'e'
      · subst hlower
        exact readMarked_append s hr
      · by_cases hupper : c = 'E'
        · subst hupper
          exact readMarked_append s hr
        · have hnone (t : List Char) : readExponent (c :: t) = some (none, c :: t) := by
            unfold readExponent
            split
            · next heq => exact absurd (List.cons.inj heq).1 hlower
            · next heq => exact absurd (List.cons.inj heq).1 hupper
            · rfl
          rw [List.cons_append, hnone, hnone]
          rfl

/-- The text of a number is cut off alike whatever stands behind. -/
theorem numberText_append (s : List Char) (hr : Ends rest) :
    numberText (s ++ rest) = (numberText s).map (behind rest) := by
  unfold numberText
  simp only [readMinus_append s hr, behind, readWhole_append _ hr, Option.bind_eq_bind]
  rcases readWhole (readMinus s).2 with _ | ⟨whole, s₁⟩
  · rfl
  simp only [Option.map_some, Option.bind_some, behind, readFraction_append _ hr]
  rcases readFraction s₁ with _ | ⟨fraction, s₂⟩
  · rfl
  simp only [Option.map_some, Option.bind_some, behind, readExponent_append _ hr]
  rcases readExponent s₂ with _ | ⟨exponent, s₃⟩
  · rfl
  rfl

theorem suffix_of_readDigits {digits s' : List Char} (h : readDigits s = some (digits, s')) :
    s' <:+ s := by
  unfold readDigits at h
  dsimp only at h
  split at h
  · exact nomatch h
  · obtain ⟨-, rfl⟩ := Prod.mk.inj (Option.some.inj h)
    exact List.dropWhile_suffix _

theorem suffix_readMinus (s : List Char) : (readMinus s).2 <:+ s := by
  unfold readMinus
  split
  · exact List.suffix_cons _ _
  · exact List.suffix_rfl

theorem suffix_readSign (s : List Char) : (readSign s).2 <:+ s := by
  unfold readSign
  split
  · exact List.suffix_cons _ _
  · exact suffix_readMinus s

theorem suffix_of_readWhole {digits s' : List Char} (h : readWhole s = some (digits, s')) :
    s' <:+ s := by
  simp only [readWhole, Option.bind_eq_bind, Option.bind_eq_some_iff] at h
  obtain ⟨⟨digits, s⟩, hdigits, hrest⟩ := h
  split at hrest
  · exact nomatch hrest
  · obtain ⟨-, rfl⟩ := Prod.mk.inj (Option.some.inj hrest)
    exact suffix_of_readDigits hdigits

theorem suffix_of_readFraction {fraction : Option (List Char)} {s' : List Char}
    (h : readFraction s = some (fraction, s')) : s' <:+ s := by
  unfold readFraction at h
  split at h
  · obtain ⟨⟨digits, s⟩, hdigits, heq⟩ := Option.map_eq_some_iff.1 h
    obtain ⟨-, rfl⟩ := Prod.mk.inj heq
    exact (suffix_of_readDigits hdigits).trans (List.suffix_cons _ _)
  · obtain ⟨-, rfl⟩ := Prod.mk.inj (Option.some.inj h)
    exact List.suffix_rfl

theorem suffix_of_readMarked {exponent : Option (Bool × List Char)} {s' : List Char}
    (h : readMarked s = some (exponent, s')) : s' <:+ s := by
  unfold readMarked at h
  obtain ⟨⟨digits, s'⟩, hdigits, heq⟩ := Option.map_eq_some_iff.1 h
  obtain ⟨-, rfl⟩ := Prod.mk.inj heq
  exact (suffix_of_readDigits hdigits).trans (suffix_readSign s)

theorem suffix_of_readExponent {exponent : Option (Bool × List Char)} {s' : List Char}
    (h : readExponent s = some (exponent, s')) : s' <:+ s := by
  unfold readExponent at h
  split at h
  · exact (suffix_of_readMarked h).trans (List.suffix_cons _ _)
  · exact (suffix_of_readMarked h).trans (List.suffix_cons _ _)
  · obtain ⟨-, rfl⟩ := Prod.mk.inj (Option.some.inj h)
    exact List.suffix_rfl

/-- What is left behind the text of a number stood there before. -/
theorem suffix_of_numberText {t : NumberText} {s' : List Char}
    (h : numberText s = some (t, s')) : s' <:+ s := by
  simp only [numberText, Option.bind_eq_bind, Option.bind_eq_some_iff] at h
  obtain ⟨⟨whole, s₁⟩, hwhole, ⟨fraction, s₂⟩, hfraction, ⟨exponent, s₃⟩, hexponent, h⟩ := h
  obtain ⟨-, rfl⟩ := Prod.mk.inj (Option.some.inj h)
  exact (((suffix_of_readExponent hexponent).trans (suffix_of_readFraction hfraction)).trans
    (suffix_of_readWhole hwhole)).trans (suffix_readMinus s)

end ContentGraph.Json
