import ContentGraph.Json.Decimal
import Mathlib.Algebra.Order.Field.Power
import Mathlib.Data.Rat.Cast.Order
import Mathlib.Tactic.Linarith
import Mathlib.Tactic.NormNum
import Mathlib.Tactic.Ring

/-!
# Doubles that stay finite

Reading a number multiplies or divides doubles, and each step rounds. Rounding drops bits of the
mantissa and raises the exponent by as many; all that is used of it is that the mantissa becomes one
of the two integers next to the exact quotient (`exists_roundWithAccuracy`). A result is finite when
its exponent stays below 972 (`upto_pack_finite`).
-/

namespace ContentGraph.Binary64

open Float.Model Float.Model.UnpackedFloat

/-- Holds for the bits of a finite double: its exponent bits are not all set. -/
def isFinite (bits : UInt64) : Bool := bits.toNat / Nat.pow 2 52 % Nat.pow 2 11 != 2047

/-! ## Rounding -/

theorem mantissa_shiftRight (em : ExtendedMantissa) (k : Nat) :
    (em >>> k).mantissa = em.mantissa / 2 ^ k := by
  induction k with
  | zero => exact (Nat.div_one _).symm
  | succ k ih =>
      show (em >>> k).mantissa / 2 = _
      rw [ih, Nat.div_div_eq_div_mul, Nat.pow_succ]

theorem roundedMantissa_near (em : ExtendedMantissa) :
    em.mantissa ≤ em.roundedMantissa ∧ em.roundedMantissa ≤ em.mantissa + 1 := by
  obtain ⟨m, r, s⟩ := em
  cases r <;> cases s <;> simp only [ExtendedMantissa.roundedMantissa, ExtendedMantissa.accuracy,
    Accuracy.roundToNearestEven] <;> omega

/-- The exponent that a mantissa of 53 bits needs, which no double's is below. -/
def fitted (m : Nat) (e : Int) : Int := max e (max ((m.log2 : Int) + e - 52) (-1074))

theorem shiftToTargetExponent_eq (m : Nat) (e : Int) (a : Accuracy) :
    (shiftToTargetExponent Format.binary64 m e a).1.mantissa = m / 2 ^ (fitted m e - e).toNat
      ∧ (shiftToTargetExponent Format.binary64 m e a).2 = fitted m e := by
  have htarget : Format.binary64.targetExponent (totalExponent m e)
      = max ((m.log2 : Int) + e - 52) (-1074) := by
    have hbits : (Format.binary64.mantissaBits : Int) = 53 := rfl
    have hmin : Format.binary64.minExponent = -1074 := rfl
    simp only [Format.targetExponent, totalExponent, hbits, hmin]
    omega
  have hshift : (Format.binary64.targetExponent (totalExponent m e) - e).toNat
      = (fitted m e - e).toNat := by
    rw [htarget]
    unfold fitted
    omega
  have hmantissa : (ExtendedMantissa.ofMantissaAndAccuracy m a).mantissa = m := by
    cases a with
    | exact => rfl
    | inexact o => cases o <;> rfl
  unfold shiftToTargetExponent shiftToExponent
  dsimp only
  rw [mantissa_shiftRight, hmantissa, hshift]
  refine ⟨rfl, ?_⟩
  unfold fitted
  omega

/-- What is left of a mantissa has at most 53 bits. -/
theorem div_fitted_lt (m : Nat) (e : Int) : m / 2 ^ (fitted m e - e).toNat < 2 ^ 53 := by
  rw [Nat.div_lt_iff_lt_mul (Nat.two_pow_pos _), ← Nat.pow_add]
  refine Nat.lt_of_lt_of_le Nat.lt_log2_self (Nat.pow_le_pow_right (by decide) ?_)
  unfold fitted
  omega

/-- Rounding takes one of the two integers next to the mantissa divided by a power of two, and gives
zero or, where that integer has 54 bits, half of it. -/
theorem exists_roundWithAccuracy (s : Sign) (m : Nat) (e : Int) (a : Accuracy) :
    ∃ r, m / 2 ^ (fitted m e - e).toNat ≤ r ∧ r ≤ m / 2 ^ (fitted m e - e).toNat + 1
      ∧ (r < 2 ^ 53 → (r = 0 ∧ roundWithAccuracy Format.binary64 s m e a = .zero s)
        ∨ ∃ h, roundWithAccuracy Format.binary64 s m e a = .finite s r (fitted m e) h)
      ∧ (r = 2 ^ 53 → ∃ h,
        roundWithAccuracy Format.binary64 s m e a = .finite s (2 ^ 52) (fitted m e + 1) h) := by
  obtain ⟨hmantissa, hexponent⟩ := shiftToTargetExponent_eq m e a
  obtain ⟨hlow, hhigh⟩ := roundedMantissa_near (shiftToTargetExponent Format.binary64 m e a).1
  rw [hmantissa] at hlow hhigh
  refine ⟨_, hlow, hhigh, ?_⟩
  unfold roundWithAccuracy
  generalize hfirst : shiftToTargetExponent Format.binary64 m e a = first at *
  obtain ⟨em, e₁⟩ := first
  dsimp only at hexponent hlow hhigh ⊢
  subst hexponent
  generalize em.roundedMantissa = r at *
  have hleast : -1074 ≤ fitted m e := by
    unfold fitted
    omega
  obtain ⟨hsecond, hsecond'⟩ := shiftToTargetExponent_eq r (fitted m e) .exact
  constructor
  · intro hr
    have hsame : fitted r (fitted m e) = fitted m e := by
      have hlog : r.log2 ≤ 52 := by
        by_cases hz : r = 0
        · simp [hz]
        · have := (Nat.log2_lt hz).2 hr
          omega
      generalize fitted m e = t at *
      unfold fitted
      omega
    rw [hsame, Int.sub_self, Int.toNat_zero, Nat.pow_zero, Nat.div_one] at hsecond
    rw [hsame] at hsecond'
    rw [hsecond, hsecond']
    by_cases hz : r = 0
    · exact .inl ⟨hz, dif_pos hz⟩
    · exact .inr ⟨Nat.pos_of_ne_zero hz, dif_neg hz⟩
  · rintro rfl
    have hnext : fitted (2 ^ 53) (fitted m e) = fitted m e + 1 := by
      generalize fitted m e = t at *
      unfold fitted
      rw [Nat.log2_two_pow]
      omega
    have hhalf : 2 ^ 53 / 2 ^ (1 : Int).toNat = 2 ^ 52 := by decide
    rw [hnext, show fitted m e + 1 - fitted m e = 1 by omega, hhalf] at hsecond
    rw [hnext] at hsecond'
    rw [hsecond, hsecond']
    exact ⟨by decide, dif_neg (by decide)⟩

/-! ## Bits -/

/-- Zero or a finite float, with an exponent up to `b`. -/
def Upto (b : Int) : UnpackedFloat → Prop
  | .zero _ => True
  | .finite _ m e _ => m < 2 ^ 53 ∧ -1074 ≤ e ∧ e ≤ b
  | .infinity _ => False
  | .notANumber => False

theorem Upto.mono {b b' : Int} {u : UnpackedFloat} (h : Upto b u) (hb : b ≤ b') : Upto b' u := by
  cases u with
  | zero s => exact trivial
  | finite s m e hm => exact ⟨h.1, h.2.1, by have := h.2.2; omega⟩
  | infinity s => exact h.elim
  | notANumber => exact h.elim

/-- The implicit bit stands in front of the others. -/
theorem toNat_implicit (m : BitVec 52) : (1#1 ++ m).toNat = 2 ^ 52 + m.toNat := by
  rw [BitVec.toNat_append, ← Nat.shiftLeft_add_eq_or_of_lt m.isLt]
  rfl

/-- Bits whose exponent is not all ones are those of a finite float. -/
theorem upto_unpack {bits : BitVec 64} {b : Int} (hb : -1074 ≤ b)
    (hx : @unpackExponent Format.binary64 bits ≠ -1#11)
    (hle : ((@unpackExponent Format.binary64 bits).toNat : Int) ≤ b + 1075) :
    Upto b (UnpackedFloat.unpack Format.binary64 bits) := by
  have hm : (@unpackMantissa Format.binary64 bits).toNat < 2 ^ 52 := BitVec.isLt _
  have hbias : (Format.binary64.exponentBias : Int) = 1023 := rfl
  unfold UnpackedFloat.unpack
  dsimp only
  rw [if_neg hx]
  by_cases hzero : @unpackExponent Format.binary64 bits = 0#11
  · rw [if_pos hzero]
    by_cases hm0 : @unpackMantissa Format.binary64 bits = 0#52
    · rw [dif_pos hm0]
      trivial
    · rw [dif_neg hm0]
      have hleast : ((0#11).toNat : Int) - (1023 + (52 : Nat)) + 1 = -1074 := rfl
      refine ⟨by omega, ?_, ?_⟩ <;> rw [hzero, hbias, hleast]
      exact hb
  · rw [if_neg hzero]
    have hpos : (@unpackExponent Format.binary64 bits).toNat ≠ 0 :=
      fun h => hzero (BitVec.eq_of_toNat_eq h)
    have hmantissa : (1#1 ++ @unpackMantissa Format.binary64 bits).toNat
        = 2 ^ 52 + (@unpackMantissa Format.binary64 bits).toNat := toNat_implicit _
    refine ⟨?_, ?_, ?_⟩ <;> simp only [hbias, hmantissa] <;> omega

theorem unpack_pack (u : UnpackedFloat) : (Float.Model.pack u).unpack
    = UnpackedFloat.unpack Format.binary64 (UnpackedFloat.pack Format.binary64 u) := rfl

theorem upto_pack_zero {b : Int} (hb : -1074 ≤ b) (s : Sign) :
    Upto b (Float.Model.pack (.zero s)).unpack := by
  have hx : @unpackExponent Format.binary64 (packedZero Format.binary64 s) = 0#11 :=
    unpackExponent_packComponents
  rw [unpack_pack]
  unfold UnpackedFloat.pack
  apply upto_unpack hb
  · rw [hx]
    decide
  · rw [hx]
    simp
    omega

/-- What is packed of a finite float whose exponent is in range. -/
theorem pack_finite (s : Sign) {m : Nat} {e : Int} (hm : 0 < m) (he : e ≤ 971) :
    UnpackedFloat.pack Format.binary64 (.finite s m e hm)
      = packComponents Format.binary64 s
        (if m.log2 = 52 then BitVec.ofNat 11 (e + 1075).toNat else 0#11) (BitVec.ofNat 52 m) := by
  have hbiased : (e + Format.binary64.exponentBias + Format.binary64.mantissaBitsWithoutImplicit)
      = e + 1075 := by
    have hbias : (Format.binary64.exponentBias : Int) = 1023 := rfl
    rw [hbias]
    simp only
    omega
  have hbits : Format.binary64.mantissaBits = 53 := rfl
  unfold UnpackedFloat.pack
  dsimp only
  rw [hbiased, if_neg, hbits]
  · split
    · rw [if_pos (by omega)]
    · rw [if_neg (by omega)]
  · show ¬2 ^ 11 ≤ _
    omega

/-- The exponent of a finite float that is packed does not grow. -/
theorem upto_pack_finite {b : Int} (hb : -1074 ≤ b) (hb' : b ≤ 971) (s : Sign) {m : Nat} {e : Int}
    (hm : 0 < m) (he : e ≤ b) : Upto b (Float.Model.pack (.finite s m e hm)).unpack := by
  have hx : (if m.log2 = 52 then BitVec.ofNat 11 (e + 1075).toNat else 0#11).toNat
      ≤ (b + 1075).toNat := by
    split
    · rw [BitVec.toNat_ofNat]
      exact Nat.le_trans (Nat.mod_le _ _) (by omega)
    · exact Nat.zero_le _
  rw [unpack_pack, pack_finite s hm (by omega)]
  apply upto_unpack hb
  · rw [unpackExponent_packComponents]
    intro h
    rw [h] at hx
    simp at hx
    omega
  · rw [unpackExponent_packComponents]
    omega

/-- A normal double is unpacked as it was packed. -/
theorem unpack_pack_normal (s : Sign) {m : Nat} {e : Int} (hm : 0 < m) (hlog : m.log2 = 52)
    (he : -1074 ≤ e) (he' : e ≤ 971) :
    ∃ s', (Float.Model.pack (.finite s m e hm)).unpack = .finite s' m e hm := by
  rw [unpack_pack, pack_finite s hm he', if_pos hlog]
  have hbiased : (BitVec.ofNat 11 (e + 1075).toNat).toNat = (e + 1075).toNat := by
    rw [BitVec.toNat_ofNat]
    exact Nat.mod_eq_of_lt (by omega)
  have hinfinite : BitVec.ofNat 11 (e + 1075).toNat ≠ -1#11 := by
    intro h
    rw [h] at hbiased
    simp at hbiased
    omega
  have hzero : BitVec.ofNat 11 (e + 1075).toNat ≠ 0#11 := by
    intro h
    rw [h] at hbiased
    simp at hbiased
    omega
  have hmantissa : (1#1 ++ BitVec.ofNat 52 m).toNat = m := by
    have hle : 2 ^ 52 ≤ m := hlog ▸ Nat.log2_self_le (Nat.ne_of_gt hm)
    have hlt : m < 2 ^ 53 := by
      have := Nat.lt_log2_self (n := m)
      rwa [hlog] at this
    rw [toNat_implicit, BitVec.toNat_ofNat]
    omega
  have hexponent : ((BitVec.ofNat 11 (e + 1075).toNat).toNat : Int)
      - (Format.binary64.exponentBias + Format.binary64.mantissaBitsWithoutImplicit) = e := by
    have hbias : (Format.binary64.exponentBias : Int) = 1023 := rfl
    rw [hbiased, hbias]
    simp only
    omega
  refine ⟨Sign.ofBitVec (unpackSign (packComponents Format.binary64 s
    (BitVec.ofNat 11 (e + 1075).toNat) (BitVec.ofNat 52 m))), ?_⟩
  unfold UnpackedFloat.unpack
  dsimp only
  rw [if_neg (by rwa [unpackExponent_packComponents]),
    if_neg (by rwa [unpackExponent_packComponents]), UnpackedFloat.finite.injEq,
    unpackExponent_packComponents, unpackMantissa_packComponents]
  exact ⟨rfl, hmantissa, hexponent⟩

theorem isFinite_of_upto {f : Float} {b : Int} (h : Upto b f.toModel.unpack) :
    isFinite f.toBits = true ∧ f.isInf = false := by
  constructor
  · have hx : @unpackExponent Format.binary64 f.toBits.toBitVec ≠ -1#11 := by
      intro hx
      have hunpack : f.toModel.unpack
          = UnpackedFloat.unpack Format.binary64 f.toBits.toBitVec := rfl
      rw [hunpack] at h
      unfold UnpackedFloat.unpack at h
      dsimp only at h
      rw [if_pos hx] at h
      split at h <;> exact h.elim
    have hbits : (@unpackExponent Format.binary64 f.toBits.toBitVec).toNat
        = f.toBits.toNat / Nat.pow 2 52 % Nat.pow 2 11 := by
      show (f.toBits.toNat >>> 52) % 2 ^ 11 = _
      rw [Nat.shiftRight_eq_div_pow]
    unfold isFinite
    rw [bne_iff_ne, ← hbits]
    exact fun heq => hx (BitVec.eq_of_toNat_eq heq)
  · show f.toModel.unpack.isInf = false
    cases hu : f.toModel.unpack with
    | infinity s => exact absurd h (by rw [hu]; exact id)
    | _ => rfl

/-! ## Operations -/

theorem upto_neg {f : Float} {b : Int} (hb : -1074 ≤ b) (hb' : b ≤ 971)
    (h : Upto b f.toModel.unpack) : Upto b (-f).toModel.unpack := by
  show Upto b (Float.Model.pack f.toModel.unpack.neg).unpack
  cases hu : f.toModel.unpack with
  | zero s => exact upto_pack_zero hb (-s)
  | finite s m e hm => exact upto_pack_finite hb hb' (-s) hm (by rw [hu] at h; exact h.2.2)
  | infinity s => exact absurd h (by rw [hu]; exact id)
  | notANumber => exact absurd h (by rw [hu]; exact id)

/-- A positive mantissa of at least 53 bits is rounded to one of 53 bits, which grows by less than
one part in 2⁵². -/
theorem roundWithAccuracy_normal (s : Sign) {m : Nat} {e : Int} (hm : 52 ≤ m.log2)
    (he : -1074 ≤ e) :
    ∃ m' e' h, roundWithAccuracy Format.binary64 s m e .exact = .finite s m' e' h
      ∧ m'.log2 = 52 ∧ m.log2 + e - 52 ≤ e'
      ∧ (m' : ℚ) * 2 ^ e' ≤ m * 2 ^ e * (1 + 1 / 2 ^ 52) := by
  have hfitted : fitted m e = m.log2 + e - 52 := by
    unfold fitted
    omega
  have hm0 : m ≠ 0 := by
    rintro rfl
    simp at hm
  obtain ⟨r, hlow, hhigh, hsmall, hlarge⟩ := exists_roundWithAccuracy s m e .exact
  have hlt := div_fitted_lt m e
  obtain ⟨k, hk⟩ : ∃ k, k = (fitted m e - e).toNat := ⟨_, rfl⟩
  rw [← hk] at hlow hhigh hlt
  have hlog : m.log2 = 52 + k := by omega
  have hpow : 2 ^ 52 * 2 ^ k ≤ m := by
    rw [← Nat.pow_add, ← hlog]
    exact Nat.log2_self_le hm0
  have hleast : 2 ^ 52 ≤ m / 2 ^ k := (Nat.le_div_iff_mul_le (Nat.two_pow_pos k)).2 hpow
  have hvalue : (r : ℚ) * 2 ^ fitted m e ≤ m * 2 ^ e * (1 + 1 / 2 ^ 52) := by
    have hr : r * 2 ^ k ≤ m + 2 ^ k := calc
      r * 2 ^ k ≤ (m / 2 ^ k + 1) * 2 ^ k := Nat.mul_le_mul_right _ hhigh
      _ = m / 2 ^ k * 2 ^ k + 2 ^ k := Nat.succ_mul _ _
      _ ≤ m + 2 ^ k := Nat.add_le_add_right (Nat.div_mul_le_self m _) _
    have hr' : (r : ℚ) * 2 ^ k ≤ m * (1 + 1 / 2 ^ 52) := by
      have h1 : (r : ℚ) * 2 ^ k ≤ m + 2 ^ k := by exact_mod_cast hr
      have h2 : (2 : ℚ) ^ 52 * 2 ^ k ≤ m := by exact_mod_cast hpow
      have h3 : (2 : ℚ) ^ k ≤ m * (1 / 2 ^ 52) := by linarith
      linarith
    have hsplit : (2 : ℚ) ^ fitted m e = 2 ^ k * 2 ^ e := by
      rw [← zpow_natCast, ← zpow_add₀ (by norm_num)]
      congr 1
      omega
    rw [hsplit, ← mul_assoc, mul_right_comm (m : ℚ)]
    exact mul_le_mul_of_nonneg_right hr' (zpow_nonneg (by norm_num) e)
  rcases Nat.lt_or_ge r (2 ^ 53) with hr | hr
  · rcases hsmall hr with ⟨hzero, -⟩ | ⟨hpos, heq⟩
    · omega
    · refine ⟨r, fitted m e, hpos, heq, ?_, hfitted.ge, hvalue⟩
      exact (Nat.log2_eq_iff (by omega)).2 ⟨by omega, hr⟩
  · obtain rfl : r = 2 ^ 53 := by omega
    obtain ⟨hpos, heq⟩ := hlarge rfl
    refine ⟨2 ^ 52, fitted m e + 1, hpos, heq, Nat.log2_two_pow, by omega, ?_⟩
    refine le_trans (le_of_eq ?_) hvalue
    rw [zpow_add_one₀ (by norm_num)]
    push_cast
    ring

/-- A normal float that is greater than `n` by less than one part in 2⁵², if it is greater. -/
def NearAbove (n : Nat) : UnpackedFloat → Prop
  | .finite _ m e _ => m.log2 = 52 ∧ n.log2 - 52 ≤ e ∧ e ≤ 971
      ∧ m * 2 ^ (e + 52).toNat ≤ n * (2 ^ 52 + 1)
  | _ => False

instance (n : Nat) (u : UnpackedFloat) : Decidable (NearAbove n u) :=
  match u with
  | .finite .. => inferInstanceAs (Decidable (_ ∧ _))
  | .zero _ | .infinity _ | .notANumber => inferInstanceAs (Decidable False)

/-- A normal float below 2¹⁰²⁴ has an exponent in range. -/
theorem exponent_le_of_lt {m : Nat} {e b : Int} (hm : m.log2 = 52)
    (h : (m : ℚ) * 2 ^ e < 2 ^ (b + 53)) : e ≤ b := by
  have hle : 2 ^ 52 ≤ m := hm ▸ Nat.log2_self_le (by rintro rfl; simp at hm)
  have hpow : (2 : ℚ) ^ (52 + e) < 2 ^ (b + 53) := by
    rw [zpow_add₀ (by norm_num)]
    refine lt_of_le_of_lt (mul_le_mul_of_nonneg_right ?_ (zpow_nonneg (by norm_num) e)) h
    exact_mod_cast hle
  have := (zpow_lt_zpow_iff_right₀ (by norm_num : (1 : ℚ) < 2)).1 hpow
  omega

/-- A positive integer that is given enough bits is rounded to a float near above it. -/
theorem nearAbove_pack (s : Sign) {n j : Nat} (hn : 0 < n) (hj : 52 ≤ n.log2 + j) (hj' : j ≤ 1074)
    (hlt : n * (2 ^ 52 + 1) < 2 ^ 1024 * 2 ^ 52) :
    NearAbove n (Float.Model.pack
      (roundWithAccuracy Format.binary64 s (n * 2 ^ j) (-j) .exact)).unpack := by
  have hlog : (n * 2 ^ j).log2 = n.log2 + j := by
    refine (Nat.log2_eq_iff (Nat.mul_ne_zero (by omega) (by positivity))).2 ⟨?_, ?_⟩
    · rw [Nat.pow_add]
      exact Nat.mul_le_mul_right _ (Nat.log2_self_le (by omega))
    · rw [Nat.add_right_comm, Nat.pow_add]
      exact Nat.mul_lt_mul_of_pos_right Nat.lt_log2_self (Nat.two_pow_pos j)
  obtain ⟨m, e, h, hround, hm, he, hvalue⟩ :=
    roundWithAccuracy_normal s (m := n * 2 ^ j) (e := -j) (by omega) (by omega)
  have hsame : ((n * 2 ^ j : Nat) : ℚ) * 2 ^ (-j : Int) = n := by
    rw [Nat.cast_mul, Nat.cast_pow, zpow_neg, zpow_natCast, Nat.cast_ofNat]
    exact mul_inv_cancel_right₀ (by positivity) _
  rw [hsame] at hvalue
  have he' : e ≤ 971 := by
    have hlt' := (Nat.cast_lt (α := ℚ)).2 hlt
    rw [Nat.cast_mul, Nat.cast_mul, Nat.cast_add, Nat.cast_pow, Nat.cast_pow, Nat.cast_one,
      Nat.cast_ofNat] at hlt'
    have htop : (2 : ℚ) ^ (971 + 53 : Int) = 2 ^ 1024 := zpow_natCast 2 1024
    refine exponent_le_of_lt hm (lt_of_le_of_lt hvalue ?_)
    rw [htop]
    generalize (2 : ℚ) ^ 1024 = top at hlt' ⊢
    linarith
  rw [hround]
  obtain ⟨s', hunpack⟩ := unpack_pack_normal s h hm (by omega) he'
  rw [hunpack]
  refine ⟨hm, by omega, he', ?_⟩
  have hpow : (2 : ℚ) ^ (e + 52).toNat = 2 ^ e * 2 ^ 52 := by
    rw [← zpow_natCast, Int.toNat_of_nonneg (by omega), zpow_add₀ (by norm_num)]
    rfl
  have hnat : (m : ℚ) * 2 ^ (e + 52).toNat ≤ n * (2 ^ 52 + 1) := by
    rw [hpow, ← mul_assoc]
    refine le_trans (mul_le_mul_of_nonneg_right hvalue (by positivity)) (le_of_eq ?_)
    ring
  exact_mod_cast hnat

/-- A positive word is rounded to a float near above it. -/
theorem nearAbove_toFloat {n : Nat} (hn : 0 < n) (hlt : n < Word.count 64) :
    NearAbove n (UInt64.ofNat n).toFloat.toModel.unpack := by
  have hnat : (UInt64.ofNat n).toNat = n := UInt64.toNat_ofNat_of_lt' hlt
  have hmodel : (UInt64.ofNat n).toFloat.toModel.unpack
      = (Float.Model.pack
        (UnpackedFloat.normalize Format.binary64 (UInt64.ofNat n).toNat 0 .positive)).unpack := rfl
  have hcompare : compare (n : Int) 0 = .gt := Int.compare_eq_gt.2 (by omega)
  have htarget : Format.binary64.targetExponent (totalExponent n 0) = (n.log2 : Int) - 52 := by
    have hbits : (Format.binary64.mantissaBits : Int) = 53 := rfl
    have hmin : Format.binary64.minExponent = -1074 := rfl
    simp only [Format.targetExponent, totalExponent, hbits, hmin]
    omega
  obtain ⟨j, hj⟩ : ∃ j, j = (0 - ((n.log2 : Int) - 52)).toNat := ⟨_, rfl⟩
  have hround : UnpackedFloat.normalize Format.binary64 n 0 .positive
      = roundWithAccuracy Format.binary64 .positive (n * 2 ^ j) (-j) .exact := by
    unfold UnpackedFloat.normalize UnpackedFloat.round decreaseExponent
    rw [hcompare]
    dsimp only
    rw [Int.toNat_natCast, htarget, ← hj, Nat.shiftLeft_eq, Int.zero_sub]
  rw [hmodel, hnat, hround]
  apply nearAbove_pack _ hn (by omega) (by omega)
  calc
    n * (2 ^ 52 + 1) < Word.count 64 * (2 ^ 52 + 1) := Nat.mul_lt_mul_of_pos_right hlt (by decide)
    _ ≤ 2 ^ 1024 * 2 ^ 52 := by decide +kernel

/-- A power of ten is rounded to a float near above it. -/
theorem nearAbove_power {k : Nat} (hk : k ≤ 308) :
    NearAbove (10 ^ k) (Float.ofScientific 1 false k).toModel.unpack := by
  by_cases hsmall : k ≤ 22
  · -- small powers are products of floats that are exact
    have hall : ∀ i : Fin 23, NearAbove (10 ^ i.val) (Float.ofScientific 1 false i).toModel.unpack := by
      decide +kernel
    exact hall ⟨k, by omega⟩
  · have hmodel : (Float.ofScientific 1 false k).toModel
        = Float.Model.pack (UnpackedFloat.ofScientific Format.binary64 1 k) := by
      unfold Float.ofScientific
      rw [dif_neg (by omega)]
      rfl
    have hround : UnpackedFloat.ofScientific Format.binary64 1 k
        = roundWithAccuracy Format.binary64 (.positive * .positive) (10 ^ k * 2 ^ 53) (-53)
          .exact := by
      unfold UnpackedFloat.ofScientific
      rw [dif_neg (by decide), if_neg (show ¬(k : Int) > 2 ^ 11 by omega),
        if_neg (show ¬(k : Int) < -(2 ^ 11 + (1 : Nat).log2) by omega), if_pos (by omega)]
      unfold UnpackedFloat.mul
      dsimp only
      rw [Int.toNat_natCast, Nat.mul_comm]
      rfl
    rw [hmodel, hround]
    apply nearAbove_pack _ (by positivity) (by omega) (by omega)
    calc
      10 ^ k * (2 ^ 52 + 1) ≤ 10 ^ 308 * (2 ^ 52 + 1) :=
        Nat.mul_le_mul_right _ (Nat.pow_le_pow_right (by decide) hk)
      _ < 2 ^ 1024 * 2 ^ 52 := by decide +kernel

/-- The quotient of two mantissas is taken with few enough bits. -/
theorem exists_divCore {m p : Nat} (hm : m < 2 ^ 53) (hp : p.log2 = 52) (x y : Int) :
    ∃ q e a, divCore Format.binary64 m x p y = (q, e, a)
      ∧ e ≤ max (x - y - 53) (-1074) ∧ q.log2 + e ≤ max (x - y) e := by
  have hbits : (Format.binary64.mantissaBits : Int) = 53 := rfl
  have hmin : Format.binary64.minExponent = -1074 := rfl
  have hlog : m.log2 ≤ 52 := by
    by_cases hz : m = 0
    · simp [hz]
    · have := (Nat.log2_lt hz).2 hm
      omega
  have hp0 : p ≠ 0 := by
    rintro rfl
    simp at hp
  have hple : 2 ^ 52 ≤ p := hp ▸ Nat.log2_self_le hp0
  refine ⟨_, _, _, rfl, ?_, ?_⟩
  · simp only [Format.targetExponent, totalExponent, hbits, hmin, hp]
    omega
  · generalize min (x - y) _ = e
    -- the quotient has at most one bit more than it was given
    have hlt : m <<< (x - y - e).toNat / p < 2 ^ ((x - y - e).toNat + 1) := by
      rw [Nat.div_lt_iff_lt_mul (by omega), Nat.shiftLeft_eq]
      calc
        m * 2 ^ (x - y - e).toNat < 2 ^ 53 * 2 ^ (x - y - e).toNat :=
          Nat.mul_lt_mul_of_pos_right hm (Nat.two_pow_pos _)
        _ = 2 ^ ((x - y - e).toNat + 1) * 2 ^ 52 := by
          rw [← Nat.pow_add, ← Nat.pow_add]
          congr 1
          omega
        _ ≤ 2 ^ ((x - y - e).toNat + 1) * p := Nat.mul_le_mul_left _ hple
    have hq : (m <<< (x - y - e).toNat / p).log2 ≤ (x - y - e).toNat := by
      by_cases hz : m <<< (x - y - e).toNat / p = 0
      · simp [hz]
      · have := (Nat.log2_lt hz).2 hlt
        omega
    omega

/-- A quotient by a power of ten that is not one has no greater exponent. -/
theorem upto_div {f g : Float} {b : Int} (hb : -1073 ≤ b) (hb' : b ≤ 971)
    (hf : Upto b f.toModel.unpack) {k : Nat} (hk : 1 ≤ k)
    (hg : NearAbove (10 ^ k) g.toModel.unpack) : Upto b (f / g).toModel.unpack := by
  have hdiv : (f / g).toModel.unpack = (Float.Model.pack (UnpackedFloat.div Format.binary64
      f.toModel.unpack g.toModel.unpack)).unpack := rfl
  rw [hdiv]
  generalize g.toModel.unpack = v at *
  generalize f.toModel.unpack = u at *
  cases v with
  | zero s => exact hg.elim
  | infinity s => exact hg.elim
  | notANumber => exact hg.elim
  | finite s' p y hp =>
      obtain ⟨hlog, hy, -, -⟩ := hg
      have hten : 3 ≤ (10 ^ k).log2 := by
        refine (Nat.le_log2 (by positivity)).2 ?_
        calc
          2 ^ 3 ≤ 10 ^ 1 := by decide
          _ ≤ 10 ^ k := Nat.pow_le_pow_right (by decide) hk
      cases u with
      | infinity s => exact hf.elim
      | notANumber => exact hf.elim
      | zero s => exact upto_pack_zero (by omega) _
      | finite s m x hm =>
          obtain ⟨hlt, hx, hx'⟩ := hf
          obtain ⟨q, e, a, hcore, he, hq⟩ := exists_divCore hlt hlog x y
          have hround : UnpackedFloat.div Format.binary64 (.finite s m x hm) (.finite s' p y hp)
              = roundWithAccuracy Format.binary64 (s / s') q e a := by
            unfold UnpackedFloat.div
            dsimp only
            rw [hcore]
          have hfitted : fitted q e + 1 ≤ b := by
            unfold fitted
            omega
          obtain ⟨r, -, hr, hsmall, hlarge⟩ := exists_roundWithAccuracy (s / s') q e a
          have := div_fitted_lt q e
          rw [hround]
          rcases Nat.lt_or_ge r (2 ^ 53) with h | h
          · rcases hsmall h with ⟨-, heq⟩ | ⟨hpos, heq⟩ <;> rw [heq]
            · exact upto_pack_zero (by omega) _
            · exact upto_pack_finite (by omega) hb' _ hpos (by omega)
          · obtain ⟨hpos, heq⟩ := hlarge (by omega)
            rw [heq]
            exact upto_pack_finite (by omega) hb' _ hpos hfitted

/-- A long mantissa below the greatest double by more than rounding adds is rounded to a finite
float. -/
theorem upto_round_of_lt (s : Sign) {m z : Nat} {e : Int} (he : e = (z : Int) - 104)
    (hm : 2 ^ 104 ≤ m) (hlt : m * 2 ^ z < (2 ^ 53 - 1) * 2 ^ 1075) :
    Upto 971 (Float.Model.pack (roundWithAccuracy Format.binary64 s m e .exact)).unpack := by
  have hm0 : m ≠ 0 := by
    rintro rfl
    exact absurd hm (by decide)
  have hlog : 104 ≤ m.log2 := (Nat.le_log2 hm0).2 hm
  have hfitted : fitted m e = m.log2 + e - 52 := by
    unfold fitted
    omega
  have htop : m.log2 + z < 1128 := by
    apply (Nat.pow_lt_pow_iff_right (show 1 < 2 by decide)).1
    rw [Nat.pow_add]
    calc
      2 ^ m.log2 * 2 ^ z ≤ m * 2 ^ z := Nat.mul_le_mul_right _ (Nat.log2_self_le hm0)
      _ < (2 ^ 53 - 1) * 2 ^ 1075 := hlt
      _ ≤ 2 ^ 1128 := by decide +kernel
  obtain ⟨r, -, hr, hsmall, hlarge⟩ := exists_roundWithAccuracy s m e .exact
  have hbits := div_fitted_lt m e
  rcases Nat.lt_or_ge r (2 ^ 53) with h | h
  · rcases hsmall h with ⟨-, heq⟩ | ⟨hpos, heq⟩ <;> rw [heq]
    · exact upto_pack_zero (by decide) s
    · exact upto_pack_finite (by decide) (by decide) s hpos (by omega)
  · obtain ⟨hpos, heq⟩ := hlarge (by omega)
    rw [heq]
    refine upto_pack_finite (by decide) (by decide) s hpos ?_
    -- the greatest exponent would need all bits of the greatest double
    have hne : m.log2 + z ≠ 1127 := by
      intro htop
      have hk : (fitted m e - e).toNat + z = 1075 := by omega
      have hle : (2 ^ 53 - 1) * 2 ^ (fitted m e - e).toNat ≤ m :=
        (Nat.le_div_iff_mul_le (Nat.two_pow_pos _)).1 (by omega)
      have := Nat.mul_le_mul_right (2 ^ z) hle
      rw [Nat.mul_assoc, ← pow_add, hk] at this
      exact absurd hlt (Nat.not_lt.2 this)
    omega

/-- A product is finite where what both factors are near above of is not too great. -/
theorem upto_mul {f g : Float} {n k : Nat} (hf : NearAbove n f.toModel.unpack)
    (hg : NearAbove (10 ^ k) g.toModel.unpack)
    (hle : n * 10 ^ k ≤ (2 ^ 53 - 6) * 2 ^ 971) : Upto 971 (f * g).toModel.unpack := by
  have hmul : (f * g).toModel.unpack = (Float.Model.pack (UnpackedFloat.mul Format.binary64
      f.toModel.unpack g.toModel.unpack)).unpack := rfl
  rw [hmul]
  generalize g.toModel.unpack = v at *
  generalize f.toModel.unpack = u at *
  cases v with
  | zero s => exact hg.elim
  | infinity s => exact hg.elim
  | notANumber => exact hg.elim
  | finite s' p y hp =>
      cases u with
      | zero s => exact hf.elim
      | infinity s => exact hf.elim
      | notANumber => exact hf.elim
      | finite s m x hm =>
          obtain ⟨hmlog, hx, -, hmle⟩ := hf
          obtain ⟨hplog, hy, -, hple⟩ := hg
          have hround : UnpackedFloat.mul Format.binary64 (.finite s m x hm) (.finite s' p y hp)
              = roundWithAccuracy Format.binary64 (s * s') (m * p) (x + y) .exact := rfl
          rw [hround]
          apply upto_round_of_lt _ (z := (x + 52).toNat + (y + 52).toNat) (by omega)
          · calc
              2 ^ 104 = 2 ^ 52 * 2 ^ 52 := by decide
              _ ≤ m * p := Nat.mul_le_mul (hmlog ▸ Nat.log2_self_le (by omega))
                (hplog ▸ Nat.log2_self_le (by omega))
          · calc
              m * p * 2 ^ ((x + 52).toNat + (y + 52).toNat)
                  = m * 2 ^ (x + 52).toNat * (p * 2 ^ (y + 52).toNat) := by
                rw [Nat.pow_add]
                ac_rfl
              _ ≤ n * (2 ^ 52 + 1) * (10 ^ k * (2 ^ 52 + 1)) := Nat.mul_le_mul hmle hple
              _ = n * 10 ^ k * ((2 ^ 52 + 1) * (2 ^ 52 + 1)) := by ac_rfl
              _ ≤ (2 ^ 53 - 6) * 2 ^ 971 * ((2 ^ 52 + 1) * (2 ^ 52 + 1)) :=
                Nat.mul_le_mul_right _ hle
              _ < (2 ^ 53 - 1) * 2 ^ 1075 := by decide +kernel

/-! ## Reading -/

/-- A word is rounded to a float far below the greatest. -/
theorem upto_toFloat {n : Nat} (hn : n < Word.count 64) :
    Upto 12 (UInt64.ofNat n).toFloat.toModel.unpack := by
  rcases Nat.eq_zero_or_pos n with rfl | hpos
  · exact upto_pack_zero (by decide) .positive
  · have hnear := nearAbove_toFloat hpos hn
    generalize (UInt64.ofNat n).toFloat.toModel.unpack = u at *
    cases u with
    | zero s => exact hnear.elim
    | infinity s => exact hnear.elim
    | notANumber => exact hnear.elim
    | finite s m e hm =>
        obtain ⟨hlog, he, -, hle⟩ := hnear
        have hlt : m < 2 ^ 53 := (Nat.log2_lt (by omega)).1 (by omega)
        refine ⟨hlt, by omega, ?_⟩
        have hpow : 2 ^ (52 + (e + 52).toNat) < 2 ^ 117 := calc
          2 ^ (52 + (e + 52).toNat) = 2 ^ 52 * 2 ^ (e + 52).toNat := Nat.pow_add _ _ _
          _ ≤ m * 2 ^ (e + 52).toNat := Nat.mul_le_mul_right _ (hlog ▸ Nat.log2_self_le (by omega))
          _ ≤ n * (2 ^ 52 + 1) := hle
          _ < Word.count 64 * (2 ^ 52 + 1) := Nat.mul_lt_mul_of_pos_right hn (by decide)
          _ ≤ 2 ^ 117 := by decide
        have := (Nat.pow_lt_pow_iff_right (show 1 < 2 by decide)).1 hpow
        omega

theorem upto_zero_mul {g : Float} {n : Nat} (hg : NearAbove n g.toModel.unpack) :
    Upto 971 ((UInt64.ofNat 0).toFloat * g).toModel.unpack := by
  have hzero : (UInt64.ofNat 0).toFloat.toModel.unpack = .zero .positive := rfl
  have hmul : ((UInt64.ofNat 0).toFloat * g).toModel.unpack
      = (Float.Model.pack (UnpackedFloat.mul Format.binary64
        (UInt64.ofNat 0).toFloat.toModel.unpack g.toModel.unpack)).unpack := rfl
  rw [hmul, hzero]
  cases hu : g.toModel.unpack with
  | finite s m e hm => exact upto_pack_zero (by decide) _
  | _ =>
      rw [hu] at hg
      exact hg.elim

/-- Dividing by powers of ten never fails. -/
theorem scale?_of_neg {fuel : Nat} {f : Float} {exponent : Int} (he : exponent < 0)
    (hf : Upto 12 f.toModel.unpack) :
    ∃ g, scale? fuel f exponent = some g ∧ Upto 12 g.toModel.unpack := by
  induction fuel generalizing f exponent with
  | zero => exact ⟨f, rfl, hf⟩
  | succ fuel ih =>
      have hdiv {k : Nat} (hk : 1 ≤ k) (hk' : k ≤ 308) :
          Upto 12 (f / Float.ofScientific 1 false k).toModel.unpack :=
        upto_div (by decide) (by decide) hf hk (nearAbove_power hk')
      unfold scale?
      split
      · next hsmall =>
          rw [if_neg (by omega)]
          exact ⟨_, rfl, hdiv (by omega) hsmall⟩
      · split
        · exact ⟨f, rfl, hf⟩
        · rw [if_neg (by omega)]
          exact ih (by omega) (hdiv (k := 308) (by decide) (by decide))

/-- Digits and a power of ten that stay below the greatest doubles are read as a finite double. -/
theorem exists_ofParts? (negative : Bool) {n : Nat} (hn : n < Word.count 64) {exponent : Int}
    (hle : 0 ≤ exponent → n * 10 ^ exponent.toNat ≤ (2 ^ 53 - 6) * 2 ^ 971) :
    ∃ bits, ofParts? negative n exponent = some bits ∧ isFinite bits = true := by
  have hscale : ∃ g, scale? 8 (UInt64.ofNat n).toFloat exponent = some g
      ∧ Upto 971 g.toModel.unpack := by
    have hword := upto_toFloat hn
    rcases Int.lt_or_le exponent 0 with he | he
    · obtain ⟨g, hg, hupto⟩ := @scale?_of_neg 8 _ _ he hword
      exact ⟨g, hg, hupto.mono (by decide)⟩
    · unfold scale?
      rcases Nat.eq_zero_or_pos n with rfl | hpos
      · split
        · next hsmall =>
            have hzero := upto_zero_mul (nearAbove_power hsmall)
            dsimp only
            rw [(isFinite_of_upto hzero).2]
            exact ⟨_, rfl, hzero⟩
        · rw [if_pos (by decide +kernel)]
          exact ⟨_, rfl, hword.mono (by decide)⟩
      · have hsmall : exponent.natAbs ≤ 308 := by
          apply Nat.not_lt.1
          intro hlarge
          refine absurd (hle he) (Nat.not_le.2 ?_)
          calc
            (2 ^ 53 - 6) * 2 ^ 971 < 1 * 10 ^ 309 := by decide +kernel
            _ ≤ n * 10 ^ exponent.toNat :=
              Nat.mul_le_mul hpos (Nat.pow_le_pow_right (by decide) (by omega))
        have hproduct := upto_mul (nearAbove_toFloat hpos hn) (nearAbove_power hsmall)
          (by rw [show exponent.natAbs = exponent.toNat by omega]; exact hle he)
        rw [if_pos hsmall, if_pos he]
        dsimp only
        rw [(isFinite_of_upto hproduct).2]
        exact ⟨_, rfl, hproduct⟩
  obtain ⟨g, hg, hupto⟩ := hscale
  unfold ofParts?
  rw [hg]
  refine ⟨_, rfl, ?_⟩
  cases negative with
  | false => exact (isFinite_of_upto hupto).1
  | true => exact (isFinite_of_upto (upto_neg (by decide) (by decide) hupto)).1

end ContentGraph.Binary64
