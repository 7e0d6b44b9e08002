import ContentGraph.Proofs.Json.Reread
import ContentGraph.Proofs.Json.Rounding
import ContentGraph.Proofs.Json.Shortest

/-!
# Doubles are read

What is written for a finite double is the text of a number, and one that is read: dropping digits
makes it no greater, and no text exceeds the interval of its double. Only the interval of the six
greatest doubles ends where rounding could overflow, and they are read too. Main statement: of the
text of every finite double a finite double is read (`Json.rereadNumber_double`), though not always
the same.
-/

namespace ContentGraph.Json

open Text Binary64

/-! ## Parts of a number -/

/-- The text of a fraction with its point. -/
def fractionChars : Option (List Char) → List Char
  | none => []
  | some digits => '.' :: digits

/-- The text of an exponent with its mark and its sign. -/
def exponentChars : Option (Bool × List Char) → List Char
  | none => []
  | some (down, digits) => 'e' :: (if down then '-' else '+') :: digits

/-- Writes the parts of a number. -/
def NumberText.chars (t : NumberText) : List Char :=
  (if t.negative then ['-'] else [])
    ++ (t.whole ++ (fractionChars t.fraction ++ exponentChars t.exponent))

/-- A run of digits that is not empty. -/
structure IsDigits (digits : List Char) : Prop where
  ne_nil : digits ≠ []
  digit : ∀ c ∈ digits, isDigit c = true

theorem isDigits_zero : IsDigits ['0'] := ⟨List.cons_ne_nil _ _, List.forall_mem_singleton.2 rfl⟩

/-- Parts that are written the way they are read. -/
structure NumberText.Plain (t : NumberText) : Prop where
  whole : IsDigits t.whole
  leads : t.whole.head? = some '0' → t.whole.length = 1
  fraction : ∀ digits ∈ t.fraction, IsDigits digits
  exponent : ∀ p ∈ t.exponent, IsDigits p.2

theorem IsDigits.read {digits rest : List Char} (h : IsDigits digits)
    (hr : ∀ c ∈ rest.head?, isDigit c = false) : readDigits (digits ++ rest) = some (digits, rest) := by
  have hrest : rest.takeWhile isDigit = [] ∧ rest.dropWhile isDigit = rest := by
    cases rest with
    | nil => exact ⟨rfl, rfl⟩
    | cons c rest =>
        have hc := hr c rfl
        simp [hc]
  unfold readDigits
  rw [List.takeWhile_append_of_pos h.digit, List.dropWhile_append_of_pos h.digit, hrest.1, hrest.2,
    List.append_nil]
  simp [h.ne_nil]

theorem readExponent_chars {exponent : Option (Bool × List Char)}
    (h : ∀ p ∈ exponent, IsDigits p.2) :
    readExponent (exponentChars exponent) = some (exponent, []) := by
  cases exponent with
  | none => rfl
  | some p =>
      obtain ⟨down, digits⟩ := p
      have hread := @IsDigits.read digits [] (h _ rfl) fun c hc => nomatch hc
      rw [List.append_nil] at hread
      show readMarked ((if down then '-' else '+') :: digits) = _
      cases down
      · show (readDigits digits).map _ = _
        rw [hread]
        rfl
      · show (readDigits digits).map _ = _
        rw [hread]
        rfl

theorem readFraction_chars {fraction : Option (List Char)} (h : ∀ digits ∈ fraction, IsDigits digits)
    (exponent : Option (Bool × List Char)) :
    readFraction (fractionChars fraction ++ exponentChars exponent)
      = some (fraction, exponentChars exponent) := by
  have hmark : ∀ c ∈ (exponentChars exponent).head?, isDigit c = false := by
    cases exponent with
    | none => exact fun c hc => nomatch hc
    | some p =>
        intro c hc
        obtain rfl := Option.some.inj hc
        rfl
  cases fraction with
  | none => cases exponent <;> rfl
  | some digits =>
      show (readDigits (digits ++ exponentChars exponent)).map _ = _
      rw [(h _ rfl).read hmark]
      rfl

/-- Plain parts are read as they were written. -/
theorem NumberText.Plain.numberText_chars {t : NumberText} (h : t.Plain) :
    numberText t.chars = some (t, []) := by
  obtain ⟨negative, whole, fraction, exponent⟩ := t
  obtain ⟨hwhole, hleads, hfraction, hexponent⟩ := h
  dsimp only at hwhole hleads hfraction hexponent
  have hminus : readMinus (NumberText.chars ⟨negative, whole, fraction, exponent⟩)
      = (negative, whole ++ (fractionChars fraction ++ exponentChars exponent)) := by
    cases negative with
    | true => rfl
    | false =>
        obtain ⟨c, rest, rfl⟩ := List.exists_cons_of_ne_nil hwhole.ne_nil
        have hc := hwhole.digit c List.mem_cons_self
        show readMinus (c :: _) = (false, c :: _)
        unfold readMinus
        split
        · next heq =>
            obtain rfl := (List.cons.inj heq).1
            cases hc
        · rfl
  have hpoint : ∀ c ∈ (fractionChars fraction ++ exponentChars exponent).head?,
      isDigit c = false := by
    cases fraction <;> cases exponent <;> intro c hc <;> simp [fractionChars, exponentChars] at hc <;>
      subst hc <;> rfl
  have hwhole' : readWhole (whole ++ (fractionChars fraction ++ exponentChars exponent))
      = some (whole, fractionChars fraction ++ exponentChars exponent) := by
    unfold readWhole
    rw [hwhole.read hpoint]
    simp only [Option.bind_eq_bind, Option.bind_some]
    by_cases hzero : whole.head? = some '0'
    · simp [hzero, hleads hzero]
    · simp [hzero]
  unfold numberText
  simp only [hminus, hwhole', readFraction_chars hfraction, readExponent_chars hexponent,
    Option.bind_eq_bind, Option.bind_some]
  rfl

/-! ## Value of the parts -/

theorem mul_pow_le_ofDigitChars (digits : List Char) (start : Nat) :
    start * 10 ^ digits.length ≤ Nat.ofDigitChars 10 digits start := by
  rw [Nat.ofDigitChars_eq_ofDigitChars_zero, Nat.mul_comm]
  exact Nat.le_add_right _ _

/-- The digits that are taken write a word, and with zeros for those that are dropped they write no
more than all. -/
theorem significand_le {digits : List Char} {start n skipped : Nat} (hs : start < Word.count 64)
    (h : significand start digits = (n, skipped)) :
    n < Word.count 64 ∧ skipped ≤ digits.length
      ∧ n * 10 ^ skipped ≤ Nat.ofDigitChars 10 digits start := by
  induction digits generalizing start with
  | nil =>
      obtain ⟨rfl, rfl⟩ := Prod.mk.inj h
      exact ⟨hs, Nat.le_refl _, by simp⟩
  | cons c digits ih =>
      unfold significand at h
      dsimp only at h
      split at h
      · next hlt =>
          obtain ⟨hn, hskipped, hle⟩ := ih hlt h
          rw [Nat.ofDigitChars_cons, Nat.mul_comm 10]
          exact ⟨hn, Nat.le_succ_of_le hskipped, hle⟩
      · obtain ⟨rfl, rfl⟩ := Prod.mk.inj h
        exact ⟨hs, Nat.le_refl _, mul_pow_le_ofDigitChars (c :: digits) start⟩

/-- The double that digits and an exponent stand for, `shift` being the power of ten of the last
digit without the exponent. -/
def readScaled (negative : Bool) (n : Nat) (shift : Int) : Option (Bool × List Char) → Option Number
  | none => (ofParts? negative n shift).map .double
  | some (down, digits) =>
    if maxExponent < numberOf 10 digits then
      if n ≠ 0 ∧ !down then none else (ofParts? negative 0 0).map .double
    else
      (ofParts? negative n
        (if down then shift - numberOf 10 digits else shift + numberOf 10 digits)).map .double

theorem value?_eq_readScaled {negative : Bool} {whole : List Char} {fraction : Option (List Char)}
    {exponent : Option (Bool × List Char)} {n skipped : Nat}
    (hwhole : Nat.ofDigitChars 10 whole 0 < Word.count 64)
    (hparts : fraction ≠ none ∨ exponent ≠ none)
    (hsig : significand (Nat.ofDigitChars 10 whole 0) (fraction.getD []) = (n, skipped)) :
    NumberText.value? ⟨negative, whole, fraction, exponent⟩
      = readScaled negative n (((0 : Nat) : Int) - ((fraction.getD []).length - skipped : Nat))
        exponent := by
  unfold NumberText.value?
  simp only [significand_eq hwhole]
  cases fraction with
  | none =>
      cases exponent with
      | none => simp at hparts
      | some p =>
          simp only [hsig]
          rfl
  | some digits =>
      simp only [hsig]
      cases exponent <;> rfl

/-- A bound below the greatest doubles by more than reading adds. -/
def safeBound : Nat := (2 ^ 53 - 6) * 2 ^ 971

theorem pow_lt_safeBound : Word.count 64 ≤ safeBound := by decide +kernel

/-- A number with a short whole part that is no integer is read as a finite double, unless its
exponent makes it too great. -/
theorem exists_value? {t : NumberText} (hwhole : Nat.ofDigitChars 10 t.whole 0 < Word.count 64)
    (hparts : t.fraction ≠ none ∨ t.exponent ≠ none)
    (hexponent : ∀ digits, t.exponent = some (false, digits) → numberOf 10 digits ≤ maxExponent
      ∧ Nat.ofDigitChars 10 (t.whole ++ t.fraction.getD []) 0 * 10 ^ numberOf 10 digits
        ≤ safeBound * 10 ^ (t.fraction.getD []).length) :
    ∃ bits, t.value? = some (.double bits) ∧ isFinite bits = true := by
  obtain ⟨negative, whole, fraction, exponent⟩ := t
  dsimp only at hwhole hparts hexponent
  obtain ⟨⟨n, skipped⟩, hsig⟩ : ∃ p, p
      = significand (Nat.ofDigitChars 10 whole 0) (fraction.getD []) := ⟨_, rfl⟩
  obtain ⟨hn, hskipped, hle⟩ := significand_le hwhole hsig.symm
  have hread : ∀ (n : Nat) (shift : Int), n < Word.count 64 →
      (0 ≤ shift → n * 10 ^ shift.toNat ≤ safeBound) →
      ∃ bits, (ofParts? negative n shift).map Number.double = some (.double bits)
        ∧ isFinite bits = true := by
    intro n shift hn hshift
    obtain ⟨bits, hbits, hfinite⟩ := exists_ofParts? negative hn hshift
    exact ⟨bits, by rw [hbits]; rfl, hfinite⟩
  have hnone : ∀ shift : Int, shift ≤ 0 → 0 ≤ shift → n * 10 ^ shift.toNat ≤ safeBound := by
    intro shift hle hge
    obtain rfl : shift = 0 := by omega
    exact Nat.le_trans (by simpa using Nat.le_of_lt hn) pow_lt_safeBound
  obtain ⟨shift, hshift⟩ : ∃ shift : Int, shift
      = ((0 : Nat) : Int) - ((fraction.getD []).length - skipped : Nat) := ⟨_, rfl⟩
  rw [value?_eq_readScaled hwhole hparts hsig.symm, ← hshift]
  cases exponent with
  | none => exact hread n shift hn (hnone shift (by omega))
  | some p =>
      obtain ⟨down, digits⟩ := p
      unfold readScaled
      dsimp only
      cases down with
      | true =>
          split
          · rw [if_neg (by simp)]
            exact hread 0 0 (by decide) fun _ => by simp
          · exact hread n _ hn (hnone _ (by simp; omega))
      | false =>
          obtain ⟨hmax, hbound⟩ := hexponent digits rfl
          rw [if_neg (Nat.not_lt.2 hmax)]
          refine hread n _ hn fun hge => ?_
          simp only [Bool.false_eq_true, if_false] at hge ⊢
          -- with the digits behind the point the power of ten is a natural one on both sides
          apply Nat.le_of_mul_le_mul_right _ (show 0 < 10 ^ (fraction.getD []).length by positivity)
          rw [Nat.ofDigitChars_append] at hbound
          refine Nat.le_trans (Nat.le_of_eq ?_)
            (Nat.le_trans (Nat.mul_le_mul_right (10 ^ numberOf 10 digits) hle) hbound)
          rw [Nat.mul_assoc, Nat.mul_assoc, ← Nat.pow_add, ← Nat.pow_add]
          congr 2
          omega

/-! ## Decimals -/

theorem bounds_of_isDigit {c : Char} (h : isDigit c = true) : '0' ≤ c ∧ c ≤ '9' := by
  unfold isDigit at h
  rwa [Bool.and_eq_true, decide_eq_true_iff, decide_eq_true_iff] at h

theorem numberOf_eq {digits : List Char} (h : ∀ c ∈ digits, isDigit c = true) :
    numberOf 10 digits = Nat.ofDigitChars 10 digits 0 := by
  have fold : ∀ start, digits.foldl (fun n c => n * 10 + (hexDigit? c).getD 0) start
      = Nat.ofDigitChars 10 digits start := by
    induction digits with
    | nil => exact fun _ => rfl
    | cons c digits ih =>
        intro start
        obtain ⟨hc, hdigits⟩ := List.forall_mem_cons.1 h
        have hvalue : hexDigit? c = some (c.toNat - '0'.toNat) := if_pos (bounds_of_isDigit hc)
        rw [List.foldl_cons, ih hdigits, Nat.ofDigitChars_cons, hvalue, Nat.mul_comm]
        rfl
  exact fold 0

/-- The parts that a decimal is written in. -/
def decimalParts (negative : Bool) (d : Decimal) : NumberText :=
  if -5 ≤ d.exponent ∧ d.exponent < 0 then
    ⟨negative, ['0'], some (List.replicate ((-d.exponent).toNat - 1) '0' ++ d.digits), none⟩
  else if 0 ≤ d.exponent ∧ d.exponent ≤ 15 then
    if d.digits.length ≤ d.exponent.toNat + 1 then
      ⟨negative, d.digits ++ List.replicate (d.exponent.toNat + 1 - d.digits.length) '0',
        some ['0'], none⟩
    else
      ⟨negative, d.digits.take (d.exponent.toNat + 1), some (d.digits.drop (d.exponent.toNat + 1)),
        none⟩
  else
    ⟨negative, d.digits.take 1,
      if d.digits.length ≤ 1 then none else some (d.digits.drop 1),
      some (decide (d.exponent < 0), Nat.toDigits 10 d.exponent.natAbs)⟩

theorem chars_decimalParts {d : Decimal} (h : d.Led) (negative : Bool) :
    (decimalParts negative d).chars = if negative then '-' :: d.text else d.text := by
  have hsign (s : List Char) :
      (if negative then ['-'] else []) ++ s = if negative then '-' :: s else s := by
    cases negative <;> rfl
  rw [← hsign]
  obtain ⟨c, rest, hdigits, -⟩ := h.leads
  unfold decimalParts Decimal.text
  split
  · simp [NumberText.chars, fractionChars, exponentChars]
  split
  · dsimp only
    split
    · simp [NumberText.chars, fractionChars, exponentChars]
    · simp [NumberText.chars, fractionChars, exponentChars]
  · dsimp only
    rw [hdigits]
    cases rest with
    | nil => simp [NumberText.chars, fractionChars, exponentChars]
    | cons c' rest => simp [NumberText.chars, fractionChars, exponentChars]

theorem plain_decimalParts {d : Decimal} (h : d.Led) (negative : Bool) :
    (decimalParts negative d).Plain := by
  obtain ⟨c, rest, hdigits, hc⟩ := h.leads
  have hne : d.digits ≠ [] := by
    rw [hdigits]
    exact List.cons_ne_nil c rest
  have hzeros {n : Nat} : ∀ c ∈ List.replicate n '0', isDigit c = true := by
    intro c hc
    obtain rfl := List.eq_of_mem_replicate hc
    rfl
  have happend {xs ys : List Char} (hxs : ∀ c ∈ xs, isDigit c = true)
      (hys : ∀ c ∈ ys, isDigit c = true) : ∀ c ∈ xs ++ ys, isDigit c = true := by
    intro c hc
    exact (List.mem_append.1 hc).elim (hxs c) (hys c)
  have htake (n : Nat) : ∀ c ∈ d.digits.take n, isDigit c = true :=
    fun c hc => h.digit c (List.mem_of_mem_take hc)
  have hdrop (n : Nat) : ∀ c ∈ d.digits.drop n, isDigit c = true :=
    fun c hc => h.digit c (List.mem_of_mem_drop hc)
  unfold decimalParts
  split
  · refine ⟨isDigits_zero, fun _ => rfl, ?_, fun p hp => nomatch hp⟩
    rintro digits ⟨⟩
    exact ⟨by simp [hne], happend hzeros h.digit⟩
  split
  · split
    · refine ⟨⟨by simp [hne], happend h.digit hzeros⟩, ?_, ?_, fun p hp => nomatch hp⟩
      · intro hhead
        simp [hdigits, hc] at hhead
      · rintro digits ⟨⟩
        exact isDigits_zero
    · next hlong =>
        refine ⟨⟨by simp [hne], htake _⟩, ?_, ?_, fun p hp => nomatch hp⟩
        · intro hhead
          simp [hdigits, hc] at hhead
        · rintro digits ⟨⟩
          exact ⟨fun hnil => hlong (List.drop_eq_nil_iff.1 hnil), hdrop _⟩
  · refine ⟨⟨by simp [hne], htake 1⟩, ?_, ?_, ?_⟩
    · intro hhead
      simp [hdigits, hc] at hhead
    · intro digits hfraction
      split at hfraction
      · cases hfraction
      · next hlong =>
          obtain rfl := Option.some.inj hfraction
          exact ⟨fun hnil => hlong (List.drop_eq_nil_iff.1 hnil), hdrop 1⟩
    · rintro p ⟨⟩
      exact ⟨Nat.toDigits_ne_nil, fun c hc => isDigit_of_mem_toDigits hc⟩

theorem ofDigitChars_lt {digits : List Char} (h : ∀ c ∈ digits, isDigit c = true) :
    Nat.ofDigitChars 10 digits 0 < 10 ^ digits.length := by
  have fold : ∀ start bound, start < bound →
      Nat.ofDigitChars 10 digits start < bound * 10 ^ digits.length := by
    induction digits with
    | nil =>
        intro start bound hlt
        simpa using hlt
    | cons c digits ih =>
        intro start bound hlt
        obtain ⟨hc, hdigits⟩ := List.forall_mem_cons.1 h
        have hvalue : c.toNat - '0'.toNat < 10 := by
          have hle : c.toNat ≤ '9'.toNat := (bounds_of_isDigit hc).2
          have hnine : '9'.toNat = 57 := rfl
          have hzero : '0'.toNat = 48 := rfl
          omega
        rw [Nat.ofDigitChars_cons, List.length_cons, Nat.pow_succ, Nat.mul_comm _ 10,
          ← Nat.mul_assoc]
        exact ih hdigits _ _ (by omega)
  simpa using fold 0 1 Nat.one_pos

theorem digit_pos {c : Char} (hc : isDigit c = true) (hne : c ≠ '0') : 1 ≤ c.toNat - '0'.toNat := by
  have hle : '0'.toNat ≤ c.toNat := (bounds_of_isDigit hc).1
  have hne' : c.toNat ≠ '0'.toNat := fun heq => hne (Char.toNat_inj.1 heq)
  omega

/-- A leading digit that is not zero stands for a power of ten. -/
theorem pow_le_of_led {d : Decimal} (h : d.Led) :
    10 ^ (d.digits.length - 1) ≤ Nat.ofDigitChars 10 d.digits 0 := by
  obtain ⟨c, rest, hdigits, hc⟩ := h.leads
  have hpos := digit_pos (h.digit c (hdigits ▸ List.mem_cons_self)) hc
  rw [hdigits, Nat.ofDigitChars_cons]
  refine Nat.le_trans ?_ (mul_pow_le_ofDigitChars rest _)
  exact Nat.le_mul_of_pos_left _ (by omega)

theorem mul_pow_le_of_value_le {d : Decimal} (h : d.Led) (hle : d.value ≤ safeBound)
    (he : 0 ≤ d.exponent) : Nat.ofDigitChars 10 d.digits 0 * 10 ^ d.exponent.toNat
      ≤ safeBound * 10 ^ (d.digits.length - 1) := by
  obtain ⟨c, rest, hdigits, -⟩ := h.leads
  have hlength : d.digits.length = rest.length + 1 := by
    rw [hdigits]
    rfl
  unfold Decimal.value at hle
  have hsplit : (10 : ℚ) ^ (d.exponent + 1 - d.digits.length) * 10 ^ (d.digits.length - 1)
      = 10 ^ d.exponent.toNat := by
    have hexponent : d.exponent + 1 - d.digits.length + (d.digits.length - 1 : Nat)
        = d.exponent.toNat := by omega
    rw [← zpow_natCast, ← zpow_natCast, ← zpow_add₀ (by norm_num), hexponent]
  have hmul := mul_le_mul_of_nonneg_right hle
    (show (0 : ℚ) ≤ 10 ^ (d.digits.length - 1) by positivity)
  rw [mul_assoc, hsplit] at hmul
  exact_mod_cast hmul

theorem safeBound_lt : safeBound < 10 ^ 309 := by decide +kernel

/-- **Decimals.** A decimal that does not exceed the bound is read as a finite double. -/
theorem exists_value?_decimalParts {d : Decimal} (h : d.Led) (hle : d.value ≤ safeBound)
    (negative : Bool) :
    ∃ bits, (decimalParts negative d).value? = some (.double bits) ∧ isFinite bits = true := by
  have hplain := plain_decimalParts h negative
  apply exists_value?
  · -- the whole part has at most 16 digits
    refine Nat.lt_of_lt_of_le (ofDigitChars_lt hplain.whole.digit) ?_
    refine Nat.le_trans (Nat.pow_le_pow_right (by decide) (show _ ≤ 16 from ?_)) (by decide)
    unfold decimalParts
    split
    · simp
    split
    · split <;> simp <;> omega
    · simp
  · unfold decimalParts
    split
    · exact .inl (by simp)
    split
    · split <;> exact .inl (by simp)
    · exact .inr (by simp)
  · intro digits hexponent
    unfold decimalParts at hexponent ⊢
    split at hexponent
    · cases hexponent
    next hsmall =>
    split at hexponent
    · split at hexponent <;> cases hexponent
    next hlarge =>
    rw [if_neg hsmall, if_neg hlarge]
    obtain ⟨hsign, rfl⟩ := Prod.mk.inj (Option.some.inj hexponent)
    have he : 16 ≤ d.exponent := by
      have := of_decide_eq_false hsign
      omega
    have hdrop : (if d.digits.length ≤ 1 then none else some (d.digits.drop 1)).getD []
        = d.digits.drop 1 := by
      split
      · next hshort => exact (List.drop_eq_nil_iff.2 hshort).symm
      · rfl
    have hnumber : numberOf 10 (Nat.toDigits 10 d.exponent.natAbs) = d.exponent.toNat := by
      rw [numberOf_eq fun c hc => isDigit_of_mem_toDigits hc, Nat.ofDigitChars_ten_toDigits]
      omega
    dsimp only
    rw [hdrop, List.take_append_drop, List.length_drop, hnumber]
    have hbound := mul_pow_le_of_value_le h hle (by omega)
    refine ⟨?_, hbound⟩
    have hleast := Nat.le_trans (Nat.mul_le_mul_right (10 ^ d.exponent.toNat) (pow_le_of_led h)) hbound
    rw [Nat.mul_comm] at hleast
    have hpow : 10 ^ d.exponent.toNat < 10 ^ 309 :=
      Nat.lt_of_le_of_lt (Nat.le_of_mul_le_mul_right hleast (by positivity)) safeBound_lt
    have := (Nat.pow_lt_pow_iff_right (by decide)).1 hpow
    have hmax : maxExponent = 2147483647 := by decide
    omega

/-! ## Doubles -/

/-- Holds when of the text of a double a finite double is read. -/
def readsFinite (bits : UInt64) : Bool :=
  match rereadNumber (.double bits) with
  | some (.double bits') => isFinite bits'
  | _ => false

/-- The six greatest doubles and their negatives are read. -/
theorem readsFinite_top : ∀ (s : Fin 2) (i : Fin 6),
    readsFinite (UInt64.ofNat (s * 2 ^ 63 + (2 ^ 63 - 2 ^ 52 - 1 - i))) = true := by decide +kernel

theorem readsFinite_of_chars {bits : UInt64} {t : NumberText} (ht : t.Plain)
    (hchars : Binary64.text bits = t.chars)
    (hvalue : ∃ bits', t.value? = some (.double bits') ∧ isFinite bits' = true) :
    readsFinite bits = true := by
  obtain ⟨bits', hvalue, hfinite⟩ := hvalue
  have htext : numberText (numberChars (.double bits)) = some (t, []) := by
    have hread := ht.numberText_chars
    rwa [← hchars] at hread
  have hread : rereadNumber (.double bits) = some (.double bits') := by
    rw [rereadNumber_eq htext, hvalue]
  unfold readsFinite
  rw [hread]
  exact hfinite

theorem cast_safeBound : (safeBound : ℚ) = (2 ^ 53 - 6) * 2 ^ (971 : Int) := by
  have hpow : (2 : ℚ) ^ (971 : Int) = 2 ^ 971 := zpow_natCast 2 971
  have hcast : ((2 ^ 53 - 6 : Nat) : ℚ) = 2 ^ 53 - 6 := by norm_num
  rw [hpow, ← hcast]
  unfold safeBound
  rw [Nat.cast_mul, Nat.cast_pow]
  rfl

/-- The interval of a finite double, but for the greatest ones. -/
theorem high_le_safeBound {m : Nat} {e : Int} (hm : m < 2 ^ 53) (he : e ≤ 971)
    (hne : e = 971 → m < 2 ^ 53 - 6) :
    (4 * (m : ℚ) + 2) * 2 ^ (e - 2) ≤ safeBound := by
  have hpos : (0 : ℚ) < 2 ^ (e - 2) := zpow_pos (by norm_num) _
  have hm' : (m : ℚ) < 2 ^ 53 := by exact_mod_cast hm
  rw [cast_safeBound]
  rcases Int.lt_or_eq_of_le he with hlt | rfl
  · have hpow : (2 : ℚ) ^ (e - 2) * 2 ^ 3 ≤ 2 ^ (971 : Int) := by
      rw [← zpow_natCast, ← zpow_add₀ (by norm_num)]
      refine zpow_le_zpow_right₀ (by norm_num) ?_
      show e - 2 + 3 ≤ 971
      omega
    generalize (2 : ℚ) ^ (971 : Int) = top at hpow ⊢
    generalize (2 : ℚ) ^ (e - 2) = x at hpow hpos ⊢
    have hmul := mul_lt_mul_of_pos_right hm' hpos
    linarith
  · have hpow : (2 : ℚ) ^ (971 : Int) = 2 ^ (971 - 2 : Int) * 2 ^ 2 := by
      rw [← zpow_natCast, ← zpow_add₀ (by norm_num)]
      rfl
    have hm'' : (m : ℚ) + 1 ≤ 2 ^ 53 - 6 := by
      have hle : ((m + 1 : Nat) : ℚ) ≤ ((2 ^ 53 - 6 : Nat) : ℚ) := Nat.cast_le.2 (hne rfl)
      have hcast : ((2 ^ 53 - 6 : Nat) : ℚ) = 2 ^ 53 - 6 := by norm_num
      rw [hcast, Nat.cast_succ] at hle
      exact hle
    rw [hpow]
    generalize (2 : ℚ) ^ (971 - 2 : Int) = x at hpos ⊢
    have hmul := mul_le_mul_of_nonneg_right hm'' (le_of_lt hpos)
    linarith

/-- Of the text of a finite double a finite double is read. -/
theorem readsFinite_of_isFinite {bits : UInt64} (h : isFinite bits = true) :
    readsFinite bits = true := by
  obtain ⟨m, e, narrow, hparts⟩ : ∃ m e narrow, parts bits = ⟨m, e, narrow⟩ := ⟨_, _, _, rfl⟩
  have hlt := bits.toNat_lt
  obtain ⟨hm, he, he', htop⟩ : m < 2 ^ 53 ∧ -1074 ≤ e ∧ e ≤ 971 ∧ (e = 971 → 2 ^ 53 - 6 ≤ m →
      2 ^ 52 - 6 ≤ bits.toNat % 2 ^ 52 ∧ bits.toNat / 2 ^ 52 % 2 ^ 11 = 2046) := by
    unfold isFinite at h
    rw [bne_iff_ne] at h
    unfold parts at hparts
    dsimp only at hparts
    simp only [Nat.pow_eq] at h hparts
    split at hparts <;> obtain ⟨rfl, rfl, -⟩ := Parts.mk.inj hparts
    · omega
    · omega
  have htext : Binary64.text bits = if isNegative bits then
      '-' :: (if m = 0 then "0.0".toList else (shortest ⟨m, e, narrow⟩).text)
      else (if m = 0 then "0.0".toList else (shortest ⟨m, e, narrow⟩).text) := by
    unfold Binary64.text
    rw [hparts]
  by_cases hzero : m = 0
  · -- zero is written with its sign
    rw [if_pos hzero] at htext
    refine readsFinite_of_chars (t := ⟨isNegative bits, ['0'], some ['0'], none⟩)
      ⟨isDigits_zero, fun _ => rfl, ?_, fun p hp => nomatch hp⟩ ?_ ?_
    · rintro digits ⟨⟩
      exact isDigits_zero
    · rw [htext]
      cases isNegative bits <;> rfl
    · exact exists_value? (show Nat.ofDigitChars 10 ['0'] 0 < Word.count 64 by decide)
        (.inl (by simp)) fun digits hp => nomatch hp
  · rw [if_neg hzero] at htext
    by_cases hgreat : e = 971 ∧ 2 ^ 53 - 6 ≤ m
    · obtain ⟨hfraction, hbiased⟩ := htop hgreat.1 hgreat.2
      obtain ⟨s, i, hs, hi, hbits⟩ : ∃ s i, s < 2 ∧ i < 6
          ∧ bits.toNat = s * 2 ^ 63 + (2 ^ 63 - 2 ^ 52 - 1 - i) :=
        ⟨bits.toNat / 2 ^ 63, 2 ^ 52 - 1 - bits.toNat % 2 ^ 52, by omega, by omega, by omega⟩
      have hread := readsFinite_top ⟨s, hs⟩ ⟨i, hi⟩
      rw [← hbits, UInt64.ofNat_toNat] at hread
      exact hread
    · obtain ⟨hled, hvalue⟩ := led_shortest (p := ⟨m, e, narrow⟩) (Nat.pos_of_ne_zero hzero) hm he
      have hless : e = 971 → m < 2 ^ 53 - 6 :=
        fun heq => Nat.lt_of_not_le fun hle => hgreat ⟨heq, hle⟩
      have hsafe := le_trans hvalue (high_le_safeBound hm he' hless)
      refine readsFinite_of_chars (plain_decimalParts hled (isNegative bits)) ?_
        (exists_value?_decimalParts hled hsafe (isNegative bits))
      rw [htext, chars_decimalParts hled]

/-- **Doubles.** Every finite double is reread as a finite double. -/
theorem rereadNumber_double {bits : UInt64} (h : isFinite bits = true) :
    ∃ bits', rereadNumber (.double bits) = some (.double bits') ∧ isFinite bits' = true := by
  have hread := readsFinite_of_isFinite h
  unfold readsFinite at hread
  split at hread
  · next bits' heq => exact ⟨bits', heq, hread⟩
  · cases hread

end ContentGraph.Json
