import ContentGraph.Proofs.Json.NumberText
import Mathlib.Algebra.Order.Field.Power
import Mathlib.Data.Rat.Cast.Order
import Mathlib.Tactic.Linarith
import Mathlib.Tactic.NormNum
import Mathlib.Tactic.Ring

/-!
# The shortest decimal of a double

The search for the shortest decimal ends: seventeen digits below the leading power of ten there is a
multiple in the interval of every double (`isSome_nearest?`). So the digits that are written begin
with one that is not zero, and the decimal does not exceed the interval
(`led_shortest`).
-/

namespace ContentGraph.Binary64

/-- A power with its sign split off. -/
theorem zpow_mul_toNat {b : ℚ} (hb : b ≠ 0) (u : Int) : b ^ u * b ^ (-u).toNat = b ^ u.toNat := by
  rw [← zpow_natCast b (-u).toNat, ← zpow_natCast b u.toNat, ← zpow_add₀ hb]
  congr 1
  omega

/-! ## Search -/

section Search

variable {i : Interval} {n : Nat} {unit : Int}

theorem le_of_holds (hs : 0 < i.scale) (h : i.holds n unit = true) :
    (n : ℚ) * 10 ^ unit ≤ i.high / i.scale := by
  have hnat : n * 10 ^ unit.toNat * i.scale ≤ i.high * 10 ^ (-unit).toNat := by
    unfold Interval.holds at h
    dsimp only at h
    split at h
    · exact (of_decide_eq_true (Bool.and_eq_true_iff.1 h).2)
    · exact Nat.le_of_lt (of_decide_eq_true (Bool.and_eq_true_iff.1 h).2)
  have hcast : (n : ℚ) * 10 ^ unit.toNat * i.scale ≤ i.high * 10 ^ (-unit).toNat := by
    exact_mod_cast hnat
  rw [← zpow_mul_toNat (by norm_num) unit] at hcast
  rw [le_div_iff₀ (by exact_mod_cast hs)]
  refine le_of_mul_le_mul_right ?_ (show (0 : ℚ) < 10 ^ (-unit).toNat by positivity)
  refine le_of_eq_of_le ?_ hcast
  ring

theorem holds_of_nearest? (h : i.nearest? unit = some n) : n ≠ 0 ∧ i.holds n unit = true := by
  unfold Interval.nearest? at h
  dsimp only at h
  generalize i.value * Nat.pow 10 (-unit).toNat / (Nat.pow 10 unit.toNat * i.scale) = below at h
  have hbelow {a : Bool} (h : (a && below != 0) = true) : below ≠ 0 ∧ a = true := by
    rw [Bool.and_eq_true, bne_iff_ne] at h
    exact ⟨h.2, h.1⟩
  split at h
  · next hlow hhigh =>
      split at h <;> obtain rfl := Option.some.inj h
      · exact hbelow hlow
      · exact ⟨Nat.succ_ne_zero _, hhigh⟩
  · next hlow _ =>
      obtain rfl := Option.some.inj h
      exact hbelow hlow
  · next _ hhigh =>
      obtain rfl := Option.some.inj h
      exact ⟨Nat.succ_ne_zero _, hhigh⟩
  · cases h

/-- A multiple is found where the upper half of the interval is longer than the unit. -/
theorem isSome_nearest? (hs : 0 < i.scale) (hlow : i.low ≤ i.value)
    (h : i.value * 10 ^ (-unit).toNat + 10 ^ unit.toNat * i.scale < i.high * 10 ^ (-unit).toNat) :
    (i.nearest? unit).isSome = true := by
  have hpos : 0 < 10 ^ unit.toNat * i.scale := Nat.mul_pos (by positivity) hs
  unfold Interval.nearest?
  dsimp only
  obtain ⟨below, hbelow⟩ : ∃ below, below
      = i.value * Nat.pow 10 (-unit).toNat / (Nat.pow 10 unit.toNat * i.scale) := ⟨_, rfl⟩
  rw [← hbelow]
  have habove : i.holds (below + 1) unit = true := by
    have hx : (below + 1) * Nat.pow 10 unit.toNat * i.scale
        = below * (10 ^ unit.toNat * i.scale) + 10 ^ unit.toNat * i.scale := by
      rw [Nat.mul_assoc, Nat.succ_mul]
      rfl
    have hle : below * (10 ^ unit.toNat * i.scale) ≤ i.value * 10 ^ (-unit).toNat :=
      hbelow ▸ Nat.div_mul_le_self _ _
    have hlt : i.value * 10 ^ (-unit).toNat
        < below * (10 ^ unit.toNat * i.scale) + 10 ^ unit.toNat * i.scale := by
      rw [← Nat.succ_mul]
      exact (Nat.div_lt_iff_lt_mul hpos).1 (hbelow ▸ Nat.lt_succ_self below)
    have hmono : i.low * 10 ^ (-unit).toNat ≤ i.value * 10 ^ (-unit).toNat :=
      Nat.mul_le_mul_right _ hlow
    unfold Interval.holds
    dsimp only
    rw [hx]
    simp only [Nat.pow_eq]
    split <;> rw [Bool.and_eq_true, decide_eq_true_iff, decide_eq_true_iff]
    · exact ⟨Nat.le_of_lt (Nat.lt_of_le_of_lt hmono hlt), by omega⟩
    · exact ⟨Nat.lt_of_le_of_lt hmono hlt, by omega⟩
  rw [habove]
  split
  · split <;> rfl
  · rfl
  · rfl
  · next h => cases h

theorem shortestFrom_eq (exponent : Int) {fuel j : Nat} (hj : j < fuel)
    (h : (i.nearest? (unit - j)).isSome = true) :
    ∃ n u, shortestFrom i exponent fuel unit = (n, u) ∧ i.nearest? u = some n := by
  induction fuel generalizing unit j with
  | zero => exact absurd hj (Nat.not_lt_zero j)
  | succ fuel ih =>
      unfold shortestFrom
      cases hnear : i.nearest? unit with
      | some n => exact ⟨n, unit, rfl, hnear⟩
      | none =>
          cases j with
          | zero =>
              rw [Int.natCast_zero, Int.sub_zero, hnear] at h
              cases h
          | succ j =>
              refine ih (Nat.lt_of_succ_lt_succ hj) ?_
              rwa [Int.natCast_succ, Int.add_comm, ← Int.sub_sub] at h

end Search

theorem findExponent_le {value scale fuel : Nat} {e : Int}
    (h : scale * 10 ^ (e - fuel).toNat ≤ value * 10 ^ (-(e - fuel)).toNat) :
    scale * 10 ^ (findExponent value scale fuel e).toNat
      ≤ value * 10 ^ (-findExponent value scale fuel e).toNat := by
  induction fuel generalizing e with
  | zero =>
      rw [Int.natCast_zero, Int.sub_zero] at h
      exact h
  | succ fuel ih =>
      unfold findExponent
      split
      · assumption
      · apply ih
        rwa [Int.natCast_succ, Int.add_comm, ← Int.sub_sub] at h

/-! ## Doubles -/

/-- Seventeen digits are more than a mantissa has. -/
theorem nat_lt_of_leads {m f g : Nat} {top : Int} (hm : m < 2 ^ 53) (hf : 0 < f)
    (h : g * 10 ^ top.toNat ≤ 4 * m * f * 10 ^ (-top).toNat) :
    10 ^ (top - (17 : Nat)).toNat * g < 2 * f * 10 ^ (-(top - (17 : Nat))).toNat := by
  have hpos (k : Nat) : (0 : ℚ) < 10 ^ k := by positivity
  have hlead : (10 : ℚ) ^ top * g ≤ 4 * m * f := by
    have hcast : (g : ℚ) * 10 ^ top.toNat ≤ 4 * m * f * 10 ^ (-top).toNat := by exact_mod_cast h
    rw [← zpow_mul_toNat (by norm_num) top, ← mul_assoc] at hcast
    exact le_of_eq_of_le (mul_comm _ _) (le_of_mul_le_mul_right hcast (hpos _))
  have hunit : (10 : ℚ) ^ (top - (17 : Nat)) * 10 ^ 17 = 10 ^ top := by
    rw [← zpow_natCast, ← zpow_add₀ (by norm_num), sub_add_cancel]
  have hm' : (m : ℚ) < 2 ^ 53 := by exact_mod_cast hm
  have hf' : (0 : ℚ) < f := by exact_mod_cast hf
  have hshort : (10 : ℚ) ^ (top - (17 : Nat)) * g < 2 * f := by
    rw [← hunit] at hlead
    generalize (10 : ℚ) ^ (top - (17 : Nat)) = x at hlead
    have hmf : 4 * (m : ℚ) * f < 2 ^ 55 * f := by
      have := mul_lt_mul_of_pos_right hm' hf'
      linarith
    linarith
  have hcast : (10 : ℚ) ^ (top - (17 : Nat)).toNat * g
      < 2 * f * 10 ^ (-(top - (17 : Nat))).toNat := by
    rw [← zpow_mul_toNat (by norm_num)]
    have := mul_lt_mul_of_pos_right hshort (hpos (-(top - (17 : Nat))).toNat)
    linarith
  exact_mod_cast hcast

/-- The search ends with a multiple that does not exceed the interval. -/
theorem exists_shortestFrom {p : Parts} (hm : 0 < p.mantissa) (hm' : p.mantissa < 2 ^ 53)
    (he : -1074 ≤ p.exponent) :
    ∃ n u, shortestFrom (interval p)
        (findExponent (interval p).value (interval p).scale 700 310) 20
        (findExponent (interval p).value (interval p).scale 700 310) = (n, u)
      ∧ n ≠ 0 ∧ (n : ℚ) * 10 ^ u ≤ (4 * p.mantissa + 2) * 2 ^ (p.exponent - 2) := by
  obtain ⟨m, e, narrow⟩ := p
  dsimp only at hm hm' he ⊢
  obtain ⟨f, hf⟩ : ∃ f, f = 2 ^ (e - 2).toNat := ⟨_, rfl⟩
  obtain ⟨g, hg⟩ : ∃ g, g = 2 ^ (2 - e).toNat := ⟨_, rfl⟩
  have hf0 : 0 < f := hf ▸ Nat.two_pow_pos _
  have hg0 : 0 < g := hg ▸ Nat.two_pow_pos _
  have hvalue : (interval ⟨m, e, narrow⟩).value = 4 * m * f := hf ▸ rfl
  have hhigh : (interval ⟨m, e, narrow⟩).high = (4 * m + 2) * f := hf ▸ rfl
  have hscale : (interval ⟨m, e, narrow⟩).scale = g := hg ▸ rfl
  have hlow : (interval ⟨m, e, narrow⟩).low ≤ (interval ⟨m, e, narrow⟩).value :=
    Nat.mul_le_mul_right _ (Nat.sub_le _ _)
  obtain ⟨top, htop⟩ : ∃ top, top
      = findExponent (interval ⟨m, e, narrow⟩).value (interval ⟨m, e, narrow⟩).scale 700 310 :=
    ⟨_, rfl⟩
  have hleads : g * 10 ^ top.toNat ≤ 4 * m * f * 10 ^ (-top).toNat := by
    rw [htop, hvalue, hscale]
    apply findExponent_le
    calc
      g * 10 ^ ((310 : Int) - (700 : Nat)).toNat = g := Nat.mul_one g
      _ ≤ 2 ^ 1076 := by
        rw [hg]
        exact pow_le_pow_right₀ (by decide) (by omega)
      _ ≤ 1 * 10 ^ (-((310 : Int) - (700 : Nat))).toNat := by decide +kernel
      _ ≤ 4 * m * f * 10 ^ (-((310 : Int) - (700 : Nat))).toNat :=
        Nat.mul_le_mul_right _ (Nat.mul_pos (by omega) hf0)
  rw [← htop]
  have hfound : ((interval ⟨m, e, narrow⟩).nearest? (top - (17 : Nat))).isSome = true := by
    apply isSome_nearest? (hscale ▸ hg0) hlow
    have hunit := nat_lt_of_leads hm' hf0 hleads
    rw [hvalue, hscale, hhigh, Nat.add_mul, Nat.add_mul]
    omega
  obtain ⟨n, u, heq, hnear⟩ := shortestFrom_eq top (by decide : 17 < 20) hfound
  obtain ⟨hn, hholds⟩ := holds_of_nearest? hnear
  refine ⟨n, u, heq, hn, le_of_le_of_eq (le_of_holds (hscale ▸ hg0) hholds) ?_⟩
  have hsplit := zpow_mul_toNat (b := 2) (by norm_num) (e - 2)
  rw [show -(e - 2) = 2 - e by omega] at hsplit
  rw [hhigh, hscale, div_eq_iff (by exact_mod_cast Nat.ne_of_gt hg0), hf, hg]
  push_cast
  rw [← hsplit]
  ring

/-! ## Digits -/

/-- Digits that are written begin with one that is not zero. -/
structure Decimal.Led (d : Decimal) : Prop where
  digit : ∀ c ∈ d.digits, Text.isDigit c = true
  leads : ∃ c rest, d.digits = c :: rest ∧ c ≠ '0'

/-- The value of a decimal. -/
def Decimal.value (d : Decimal) : ℚ :=
  (Nat.ofDigitChars 10 d.digits 0 : ℚ) * 10 ^ (d.exponent + 1 - d.digits.length)

/-- Only zeros are dropped. -/
theorem stripZeros_append (digits : List Char) :
    ∃ z, digits = stripZeros digits ++ List.replicate z '0' := by
  refine ⟨(digits.reverse.takeWhile (· == '0')).length, ?_⟩
  have hzeros : digits.reverse.takeWhile (· == '0')
      = List.replicate (digits.reverse.takeWhile (· == '0')).length '0' :=
    List.eq_replicate_of_mem fun c hc => by simpa using List.all_eq_true.1 List.all_takeWhile c hc
  have hsplit := List.takeWhile_append_dropWhile (p := (· == '0')) (l := digits.reverse)
  rw [hzeros] at hsplit
  have hreverse := congrArg List.reverse hsplit
  rw [List.reverse_append, List.reverse_replicate, List.reverse_reverse] at hreverse
  exact hreverse.symm

/-- The digits of a positive number without the zeros at their end. -/
theorem led_stripZeros {n : Nat} (hn : n ≠ 0) (u : Int) :
    let d : Decimal := ⟨stripZeros (Nat.toDigits 10 n), u + ((Nat.toDigits 10 n).length - 1 : Nat)⟩
    d.Led ∧ d.value = n * 10 ^ u := by
  dsimp only
  obtain ⟨z, hz⟩ := stripZeros_append (Nat.toDigits 10 n)
  generalize stripZeros (Nat.toDigits 10 n) = digits at hz
  have hne : digits ≠ [] := by
    rintro rfl
    rw [List.nil_append] at hz
    cases z with
    | zero => exact Nat.toDigits_ne_nil hz
    | succ z => exact Json.head?_toDigits (Nat.pos_of_ne_zero hn) (by rw [hz]; rfl)
  refine ⟨⟨fun c hc => ?_, ?_⟩, ?_⟩
  · apply Json.isDigit_of_mem_toDigits (n := n)
    rw [hz]
    exact List.mem_append_left _ hc
  · obtain ⟨c, rest, rfl⟩ := List.exists_cons_of_ne_nil hne
    refine ⟨c, rest, rfl, fun hc => Json.head?_toDigits (Nat.pos_of_ne_zero hn) ?_⟩
    rw [hz, hc]
    rfl
  · have hvalue : n = 10 ^ z * Nat.ofDigitChars 10 digits 0 := by
      have h := Nat.ofDigitChars_ten_toDigits (n := n)
      rwa [hz, Nat.ofDigitChars_append, Nat.ofDigitChars_replicate_zero, eq_comm] at h
    have hlength : (Nat.toDigits 10 n).length = digits.length + z := by
      rw [hz, List.length_append, List.length_replicate]
    have hpos := List.length_pos_iff.2 hne
    have hexponent : u + ((Nat.toDigits 10 n).length - 1 : Nat) + 1 - digits.length = u + z := by
      omega
    unfold Decimal.value
    dsimp only
    rw [hexponent, zpow_add₀ (by norm_num), zpow_natCast]
    conv_rhs => rw [hvalue]
    push_cast
    ring

/-- The shortest decimal of a double is written with a leading digit, and does not exceed the
interval of the double. -/
theorem led_shortest {p : Parts} (hm : 0 < p.mantissa) (hm' : p.mantissa < 2 ^ 53)
    (he : -1074 ≤ p.exponent) :
    (shortest p).Led ∧ (shortest p).value ≤ (4 * p.mantissa + 2) * 2 ^ (p.exponent - 2) := by
  obtain ⟨n, u, heq, hn, hle⟩ := exists_shortestFrom hm hm' he
  have hshortest : shortest p
      = ⟨stripZeros (Nat.toDigits 10 n), u + ((Nat.toDigits 10 n).length - 1 : Nat)⟩ := by
    unfold shortest
    dsimp only
    rw [heq]
  obtain ⟨hled, hvalue⟩ := led_stripZeros hn u
  rw [hshortest, hvalue]
  exact ⟨hled, hle⟩

end ContentGraph.Binary64
