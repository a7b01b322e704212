import Mathlib.Algebra.Order.Field.Power
import Mathlib.Data.Rat.Cast.Order
import Mathlib.Tactic.Linarith
import Mathlib.Tactic.NormNum
import Mathlib.Tactic.Positivity
import Mathlib.Tactic.Ring

/-!
# How floats are rounded

The logical model of floating-point numbers computes a product or a quotient as an
exact mantissa, shifts it to the right until it has as many bits as the format, and
rounds what is left to the nearest whole number. The two bits that remember what the
shifts have dropped place the number exactly enough for that
(`Float.Model.UnpackedFloat.ExtendedMantissa.Holds`): a shift halves the number that a
mantissa stands for, and rounding gives a nearest whole number.

So an operation gives the exact result with a relative error of at most half a unit in
the last place, unless the result is too small for that
(`Float.Model.UnpackedFloat.Rounds`): a product, a quotient, and a whole number
(`rounds_mul`, `rounds_div`, `rounds_ofInt`). Whether the result is too large is not
asked before it is packed.
-/

namespace Float.Model.UnpackedFloat

/-! ### What an extended mantissa stands for -/

/-- **An extended mantissa stands for a number**: the mantissa is its whole part, and the two bits
place it with respect to the middle of the unit. -/
structure ExtendedMantissa.Holds (em : ExtendedMantissa) (v : ℚ) : Prop where
  le : em.mantissa ≤ v
  lt : v < em.mantissa + 1
  roundBit : em.roundBit = true ↔ em.mantissa + 1 / 2 ≤ v
  stickyBit : em.stickyBit = true ↔ v ≠ em.mantissa ∧ v ≠ em.mantissa + 1 / 2

namespace ExtendedMantissa.Holds

variable {em : ExtendedMantissa} {v : ℚ}

theorem ofNat (m : ℕ) : (ofMantissaAndAccuracy m .exact).Holds m := by
  refine ⟨le_refl _, ?_, iff_of_false nofun ?_, iff_of_false nofun fun h => h.1 rfl⟩
  · change (m : ℚ) < m + 1
    linarith
  · change ¬(m : ℚ) + 1 / 2 ≤ m
    linarith

theorem lt_half {m : ℕ} (hlow : (m : ℚ) < v) (hhigh : v < m + 1 / 2) :
    (ofMantissaAndAccuracy m (.inexact .lt)).Holds v := by
  refine ⟨hlow.le, ?_, iff_of_false nofun (not_le.mpr hhigh),
    iff_of_true rfl ⟨hlow.ne', hhigh.ne⟩⟩
  change v < (m : ℚ) + 1
  linarith

theorem eq_half {m : ℕ} (heq : v = m + 1 / 2) :
    (ofMantissaAndAccuracy m (.inexact .eq)).Holds v := by
  refine ⟨?_, ?_, iff_of_true rfl heq.ge, iff_of_false nofun fun h => h.2 heq⟩
  · change (m : ℚ) ≤ v
    linarith
  · change v < (m : ℚ) + 1
    linarith

theorem gt_half {m : ℕ} (hlow : m + 1 / 2 < v) (hhigh : v < m + 1) :
    (ofMantissaAndAccuracy m (.inexact .gt)).Holds v := by
  refine ⟨?_, hhigh, iff_of_true rfl hlow.le, iff_of_true rfl ⟨?_, hlow.ne'⟩⟩
  · change (m : ℚ) ≤ v
    linarith
  · change v ≠ (m : ℚ)
    exact ne_of_gt (by linarith)

/-- One of the two bits is set exactly when the number is not whole. -/
theorem bits_iff (h : em.Holds v) :
    (em.roundBit || em.stickyBit) = true ↔ v ≠ em.mantissa := by
  rw [Bool.or_eq_true, h.roundBit, h.stickyBit]
  constructor
  · rintro (hround | hsticky) heq
    · linarith
    · exact hsticky.1 heq
  · intro hne
    by_cases hhalf : v = em.mantissa + 1 / 2
    · exact Or.inl hhalf.ge
    · exact Or.inr ⟨hne, hhalf⟩

theorem shiftRightOne (h : em.Holds v) : em.shiftRightOne.Holds (v / 2) := by
  obtain ⟨q, b, hb, hm⟩ : ∃ q b : ℕ, b < 2 ∧ em.mantissa = 2 * q + b :=
    ⟨em.mantissa / 2, em.mantissa % 2, Nat.mod_lt _ two_pos, (Nat.div_add_mod _ 2).symm⟩
  have hle := h.le
  have hlt := h.lt
  have hbits := h.bits_iff
  have hhalf : em.shiftRightOne.mantissa = q := by
    change em.mantissa / 2 = q
    omega
  have hround : em.shiftRightOne.roundBit = true ↔ b = 1 := by
    change (em.mantissa % 2 != 0) = true ↔ b = 1
    rw [bne_iff_ne]
    omega
  rw [hm] at hle hlt hbits
  push_cast at hle hlt hbits
  have hb' : b = 0 ∨ b = 1 := by omega
  refine ⟨?_, ?_, ?_, ?_⟩
  · rw [hhalf]
    rcases hb' with rfl | rfl <;> push_cast at hle <;> linarith
  · rw [hhalf]
    rcases hb' with rfl | rfl <;> push_cast at hlt <;> linarith
  · rw [hhalf, hround]
    rcases hb' with rfl | rfl
    · push_cast at hlt
      exact iff_of_false nofun (by linarith)
    · push_cast at hle
      exact iff_of_true rfl (by linarith)
  · rw [hhalf]
    change (em.roundBit || em.stickyBit) = true ↔ _
    rw [hbits, ← not_or, not_iff_not]
    rcases hb' with rfl | rfl
    · push_cast at hle hlt ⊢
      constructor
      · exact fun heq => Or.inl (by linarith)
      · rintro (heq | heq) <;> linarith
    · push_cast at hle hlt ⊢
      constructor
      · exact fun heq => Or.inr (by linarith)
      · rintro (heq | heq) <;> linarith

theorem shiftRight (h : em.Holds v) (n : ℕ) : (em >>> n).Holds (v / 2 ^ n) := by
  change (n.repeat ExtendedMantissa.shiftRightOne em).Holds (v / 2 ^ n)
  induction n with
  | zero => simpa [Nat.repeat] using h
  | succ n ih =>
    rw [pow_succ, ← div_div]
    exact ih.shiftRightOne

/-- **The rounded mantissa is a nearest whole number.** -/
theorem abs_roundedMantissa_sub_le (h : em.Holds v) : |(em.roundedMantissa : ℚ) - v| ≤ 1 / 2 := by
  have hle := h.le
  have hlt := h.lt
  have hround := h.roundBit
  have hsticky := h.stickyBit
  obtain ⟨m, r, s⟩ := em
  dsimp only at hle hlt hround hsticky
  rw [abs_le]
  cases r with
  | false =>
    have hhalf : v < m + 1 / 2 := by simpa using hround
    have hrounded : roundedMantissa ⟨m, false, s⟩ = m := by cases s <;> rfl
    rw [hrounded]
    constructor <;> linarith
  | true =>
    have hhalf : m + 1 / 2 ≤ v := by simpa using hround
    cases s with
    | true =>
      have hrounded : roundedMantissa ⟨m, true, true⟩ = m + 1 := rfl
      rw [hrounded]
      push_cast
      constructor <;> linarith
    | false =>
      -- a tie, which goes to the even neighbour
      have htie : v = m + 1 / 2 := by
        by_contra hne
        have hwhole : v ≠ m := by
          intro heq
          linarith
        exact absurd (hsticky.mpr ⟨hwhole, hne⟩) nofun
      have hrounded : roundedMantissa ⟨m, true, false⟩ = m + m % 2 := rfl
      have hmod : m % 2 = 0 ∨ m % 2 = 1 := by omega
      rw [hrounded, htie]
      push_cast
      rcases hmod with hmod | hmod <;> rw [hmod] <;> constructor <;> norm_num

theorem mantissa_le (em : ExtendedMantissa) :
    em.mantissa ≤ em.roundedMantissa ∧ em.roundedMantissa ≤ em.mantissa + 1 := by
  obtain ⟨m, r, s⟩ := em
  have hrounded : roundedMantissa ⟨m, r, s⟩ = m + if r then (if s then 1 else m % 2) else 0 := by
    cases r <;> cases s <;> rfl
  rw [hrounded]
  dsimp only
  split_ifs <;> omega

/-- Rounding does not cross a whole number. -/
theorem roundedMantissa_le (h : em.Holds v) {N : ℕ} (hv : v < N) : em.roundedMantissa ≤ N := by
  have hlt : em.mantissa < N := by exact_mod_cast h.le.trans_lt hv
  exact (mantissa_le em).2.trans hlt

theorem le_roundedMantissa (h : em.Holds v) {N : ℕ} (hv : N ≤ v) : N ≤ em.roundedMantissa := by
  have hle : N < em.mantissa + 1 := by exact_mod_cast hv.trans_lt h.lt
  exact (Nat.le_of_lt_succ hle).trans (mantissa_le em).1

end ExtendedMantissa.Holds

/-! ### Rounding to a format -/

variable {spec : Format} {m : ℕ} {e : ℤ}

theorem mantissaBits_eq (spec : Format) :
    spec.mantissaBits = spec.mantissaBitsWithoutImplicit + 1 := Nat.add_comm ..

/-- The two shifts, one after the other. -/
theorem roundWithAccuracy_of_shifts (s : Sign) (accuracy : Accuracy) {r m' : ℕ} {t e' : ℤ}
    (hshift : (shiftToTargetExponent spec m e accuracy).2 = t)
    (hrounded : (shiftToTargetExponent spec m e accuracy).1.roundedMantissa = r)
    (hmantissa : (shiftToTargetExponent spec r t .exact).1.mantissa = m')
    (hexponent : (shiftToTargetExponent spec r t .exact).2 = e') (h : 0 < m') :
    roundWithAccuracy spec s m e accuracy = .finite s m' e' h := by
  subst hshift hrounded hmantissa hexponent
  exact dif_neg h.ne'

/-- A mantissa that fits is not changed by the second shift, and one that has overflowed is
halved. -/
theorem roundWithAccuracy_eq (s : Sign) (accuracy : Accuracy) {r : ℕ} {t : ℤ}
    (hshift : (shiftToTargetExponent spec m e accuracy).2 = t)
    (hrounded : (shiftToTargetExponent spec m e accuracy).1.roundedMantissa = r)
    (hmin : spec.minExponent ≤ t) (hlow : 2 ^ spec.mantissaBitsWithoutImplicit ≤ r)
    (hhigh : r ≤ 2 ^ spec.mantissaBits) :
    ∃ (m' : ℕ) (e' : ℤ) (h : 0 < m'), roundWithAccuracy spec s m e accuracy = .finite s m' e' h ∧
      2 ^ spec.mantissaBitsWithoutImplicit ≤ m' ∧ m' < 2 ^ spec.mantissaBits ∧
      spec.minExponent ≤ e' ∧ (m' : ℚ) * 2 ^ e' = r * 2 ^ t := by
  have hp := mantissaBits_eq spec
  have hpos : 0 < r := (Nat.two_pow_pos _).trans_le hlow
  rcases hhigh.lt_or_eq with hfits | rfl
  · have hlog : r.log2 = spec.mantissaBitsWithoutImplicit :=
      (Nat.log2_eq_iff hpos.ne').mpr ⟨hlow, hp ▸ hfits⟩
    have htarget : spec.targetExponent (totalExponent r t) = t := by
      rw [Format.targetExponent, totalExponent, hlog, hp]
      push_cast
      omega
    have hsecond : shiftToTargetExponent spec r t .exact = (⟨r, false, false⟩, t) := by
      rw [shiftToTargetExponent, htarget, shiftToExponent, sub_self]
      simp only [Int.toNat_zero, Nat.cast_zero, add_zero]
      rfl
    refine ⟨r, t, hpos, ?_, hlow, hfits, hmin, rfl⟩
    exact roundWithAccuracy_of_shifts s accuracy hshift hrounded (by rw [hsecond])
      (by rw [hsecond]) hpos
  · -- the mantissa has overflowed, to a power of two
    have htarget : spec.targetExponent (totalExponent (2 ^ spec.mantissaBits) t) = t + 1 := by
      rw [Format.targetExponent, totalExponent, Nat.log2_two_pow]
      omega
    have hhalf : 2 ^ spec.mantissaBits / 2 = 2 ^ spec.mantissaBitsWithoutImplicit := by
      rw [hp, pow_succ, Nat.mul_div_cancel _ two_pos]
    have hsecond : (shiftToTargetExponent spec (2 ^ spec.mantissaBits) t .exact).1.mantissa =
        2 ^ spec.mantissaBitsWithoutImplicit ∧
        (shiftToTargetExponent spec (2 ^ spec.mantissaBits) t .exact).2 = t + 1 := by
      rw [shiftToTargetExponent, htarget, shiftToExponent, add_sub_cancel_left]
      exact ⟨hhalf, rfl⟩
    refine ⟨2 ^ spec.mantissaBitsWithoutImplicit, t + 1, Nat.two_pow_pos _, ?_, le_refl _, ?_,
      by omega, ?_⟩
    · exact roundWithAccuracy_of_shifts s accuracy hshift hrounded hsecond.1 hsecond.2
        (Nat.two_pow_pos _)
    · exact Nat.pow_lt_pow_right one_lt_two (by omega)
    · rw [hp, zpow_add_one₀ two_ne_zero]
      push_cast
      ring

theorem mantissa_ofMantissaAndAccuracy (m : ℕ) (accuracy : Accuracy) :
    (ExtendedMantissa.ofMantissaAndAccuracy m accuracy).mantissa = m := by
  rcases accuracy with _ | o
  · rfl
  · cases o <;> rfl

/-- A shift that leaves `p + 1` bits of the mantissa. -/
theorem ExtendedMantissa.Holds.shifted_bounds {accuracy : Accuracy} {v : ℚ} {p k : ℕ}
    (hv : (ofMantissaAndAccuracy m accuracy).Holds v) (hm : m ≠ 0) (hk : m.log2 = p + k) :
    ((2 ^ p : ℕ) : ℚ) ≤ v / 2 ^ k ∧ v / 2 ^ k < ((2 ^ (p + 1) : ℕ) : ℚ) := by
  have hle := hv.le
  have hlt := hv.lt
  rw [mantissa_ofMantissaAndAccuracy] at hle hlt
  have hlow : 2 ^ (p + k) ≤ m := hk ▸ Nat.log2_self_le hm
  have hhigh : m + 1 ≤ 2 ^ (p + 1 + k) := by
    rw [Nat.add_right_comm, ← hk]
    exact Nat.lt_log2_self
  constructor
  · rw [le_div_iff₀ (by positivity)]
    calc ((2 ^ p : ℕ) : ℚ) * 2 ^ k = ((2 ^ (p + k) : ℕ) : ℚ) := by push_cast; rw [pow_add]
      _ ≤ m := by exact_mod_cast hlow
      _ ≤ v := hle
  · rw [div_lt_iff₀ (by positivity)]
    calc v < m + 1 := hlt
      _ ≤ ((2 ^ (p + 1 + k) : ℕ) : ℚ) := by exact_mod_cast hhigh
      _ = ((2 ^ (p + 1) : ℕ) : ℚ) * 2 ^ k := by push_cast; rw [pow_add]

/-- Half a unit is a small part of a mantissa that uses all the bits. -/
theorem half_le_mul {w : ℚ} (hw : ((2 ^ spec.mantissaBitsWithoutImplicit : ℕ) : ℚ) ≤ w) :
    1 / 2 ≤ 2 ^ (-(spec.mantissaBits : ℤ)) * w := by
  have hpow : (2 : ℚ) ^ (-(spec.mantissaBits : ℤ)) * 2 ^ spec.mantissaBitsWithoutImplicit =
      1 / 2 := by
    rw [mantissaBits_eq, zpow_neg, zpow_natCast, pow_succ', mul_inv, mul_assoc,
      inv_mul_cancel₀ (pow_ne_zero _ two_ne_zero), mul_one, one_div]
  rw [← hpow]
  push_cast at hw
  exact mul_le_mul_of_nonneg_left hw (by positivity)

/-- **A number that is not too small is rounded to one of the format with a relative error of at
most half a unit in the last place.** The mantissa and the accuracy say what the number is, and
there are enough bits of it. -/
theorem roundWithAccuracy_normal (s : Sign) {accuracy : Accuracy} {v : ℚ}
    (hv : (ExtendedMantissa.ofMantissaAndAccuracy m accuracy).Holds v)
    (hbits : spec.mantissaBits ≤ m.log2 + 1)
    (hnormal : spec.minExponent + spec.mantissaBits ≤ totalExponent m e) :
    ∃ (m' : ℕ) (e' : ℤ) (h : 0 < m'), roundWithAccuracy spec s m e accuracy = .finite s m' e' h ∧
      2 ^ spec.mantissaBitsWithoutImplicit ≤ m' ∧ m' < 2 ^ spec.mantissaBits ∧
      spec.minExponent ≤ e' ∧
      |(m' : ℚ) * 2 ^ e' - v * 2 ^ e| ≤ 2 ^ (-(spec.mantissaBits : ℤ)) * (v * 2 ^ e) := by
  have hp := mantissaBits_eq spec
  have hmb := spec.hm
  obtain ⟨k, hk⟩ : ∃ k, m.log2 = spec.mantissaBitsWithoutImplicit + k :=
    ⟨m.log2 - spec.mantissaBitsWithoutImplicit, by omega⟩
  have hm : m ≠ 0 := by
    rintro rfl
    rw [Nat.log2_zero] at hk
    omega
  -- the first shift drops `k` bits
  have htarget : spec.targetExponent (totalExponent m e) = e + k := by
    rw [totalExponent] at hnormal
    rw [Format.targetExponent, totalExponent]
    omega
  have hshift : shiftToTargetExponent spec m e accuracy =
      (ExtendedMantissa.ofMantissaAndAccuracy m accuracy >>> k, e + k) := by
    rw [shiftToTargetExponent, htarget, shiftToExponent, add_sub_cancel_left, Int.toNat_natCast]
  have hholds := hv.shiftRight k
  obtain ⟨hlow, hhigh⟩ := hv.shifted_bounds hm hk
  rw [← hp] at hhigh
  obtain ⟨w, hw⟩ : ∃ w, w = v / 2 ^ k := ⟨_, rfl⟩
  rw [← hw] at hholds hlow hhigh
  obtain ⟨m', e', h, hround, hlow', hhigh', hmin, hvalue⟩ :=
    roundWithAccuracy_eq s accuracy (congrArg Prod.snd hshift)
      (congrArg (fun r => ExtendedMantissa.roundedMantissa r.1) hshift)
      (by rw [totalExponent] at hnormal; omega) (hholds.le_roundedMantissa hlow)
      (hholds.roundedMantissa_le hhigh)
  refine ⟨m', e', h, hround, hlow', hhigh', hmin, ?_⟩
  have hunit : (0 : ℚ) < 2 ^ (e + k) := zpow_pos two_pos _
  have hexact : v * 2 ^ e = w * 2 ^ (e + k) := by
    rw [hw, zpow_add₀ two_ne_zero, zpow_natCast, mul_comm ((2 : ℚ) ^ e), ← mul_assoc,
      div_mul_cancel₀ _ (pow_ne_zero _ two_ne_zero)]
  rw [hvalue, hexact, ← sub_mul, abs_mul, abs_of_pos hunit, ← mul_assoc]
  exact mul_le_mul_of_nonneg_right (hholds.abs_roundedMantissa_sub_le.trans (half_le_mul hlow))
    hunit.le

/-! ### The numbers of a format -/

/-- The sign as a factor. -/
def Sign.factor : Sign → ℚ
  | .negative => -1
  | .positive => 1

theorem Sign.factor_mul (s t : Sign) : (s * t).factor = s.factor * t.factor :=
  match s, t with
  | .negative, .negative => show (1 : ℚ) = -1 * -1 by norm_num
  | .negative, .positive => (mul_one (-1 : ℚ)).symm
  | .positive, .negative => (one_mul (-1 : ℚ)).symm
  | .positive, .positive => (one_mul (1 : ℚ)).symm

theorem Sign.factor_div (s t : Sign) : (s / t).factor = s.factor / t.factor := by
  have hdiv : s / t = s * t := by cases s <;> cases t <;> rfl
  have hinv : t.factor⁻¹ = t.factor := by cases t <;> norm_num [Sign.factor]
  rw [hdiv, factor_mul, div_eq_mul_inv, hinv]

theorem Sign.abs_factor (s : Sign) : |s.factor| = 1 := by
  cases s <;> norm_num [Sign.factor]

theorem Sign.abs_factor_mul (s : Sign) {x : ℚ} (hx : 0 ≤ x) : |s.factor * x| = x := by
  rw [abs_mul, s.abs_factor, one_mul, abs_of_nonneg hx]

/-- The number that a float stands for, when it stands for one. -/
def value? : UnpackedFloat → Option ℚ
  | .zero _ => some 0
  | .finite s m e _ => some (s.factor * (m * 2 ^ e))
  | _ => none

/-- **A regular float of a format** stands for a number: it is a zero, or its mantissa uses all
the bits there are. -/
inductive IsRegular (spec : Format) : UnpackedFloat → ℚ → Prop
  | zero (s : Sign) : IsRegular spec (.zero s) 0
  | normal (s : Sign) (m : ℕ) (e : ℤ) (h : 0 < m)
      (hlow : 2 ^ spec.mantissaBitsWithoutImplicit ≤ m) (hhigh : m < 2 ^ spec.mantissaBits)
      (hmin : spec.minExponent ≤ e) :
      IsRegular spec (.finite s m e h) (s.factor * (m * 2 ^ e))

/-- The smallest normal number. -/
def minNormal (spec : Format) : ℚ :=
  2 ^ (spec.minExponent + spec.mantissaBitsWithoutImplicit)

/-- **A float is a number rounded**: it is regular, and its relative error is at most half a unit
in the last place. -/
def Rounds (spec : Format) (x : ℚ) (u : UnpackedFloat) : Prop :=
  ∃ q, IsRegular spec u q ∧ |q - x| ≤ 2 ^ (-(spec.mantissaBits : ℤ)) * |x|

theorem le_two_pow_totalExponent (m : ℕ) (e : ℤ) :
    ((m : ℚ) + 1) * 2 ^ e ≤ 2 ^ totalExponent m e := by
  have hlog : ((m + 1 : ℕ) : ℚ) ≤ ((2 ^ (m.log2 + 1) : ℕ) : ℚ) := by
    exact_mod_cast Nat.lt_log2_self
  rw [totalExponent, zpow_add₀ two_ne_zero]
  refine mul_le_mul_of_nonneg_right ?_ (by positivity)
  push_cast at hlog
  exact_mod_cast hlog

/-- The exponent of a number that is not too small. -/
theorem minExponent_lt_totalExponent {x : ℚ} (hx : minNormal spec ≤ x)
    (hlt : x < ((m : ℚ) + 1) * 2 ^ e) :
    spec.minExponent + spec.mantissaBitsWithoutImplicit < totalExponent m e :=
  (zpow_lt_zpow_iff_right₀ one_lt_two).mp
    (hx.trans_lt (hlt.trans_le (le_two_pow_totalExponent m e)))

/-- A number that is not too small, given by a mantissa with enough bits and an accuracy, is
rounded. -/
theorem rounds_roundWithAccuracy (s : Sign) {accuracy : Accuracy} {v : ℚ}
    (hv : (ExtendedMantissa.ofMantissaAndAccuracy m accuracy).Holds v)
    (hm : 2 ^ spec.mantissaBitsWithoutImplicit ≤ m) (hx : minNormal spec ≤ v * 2 ^ e) :
    Rounds spec (s.factor * (v * 2 ^ e)) (roundWithAccuracy spec s m e accuracy) := by
  have hp := mantissaBits_eq spec
  have hbits : spec.mantissaBits ≤ m.log2 + 1 := by
    have hlog := (Nat.le_log2 ((Nat.two_pow_pos _).trans_le hm).ne').mpr hm
    omega
  have hlt := hv.lt
  rw [mantissa_ofMantissaAndAccuracy] at hlt
  have hnormal := minExponent_lt_totalExponent hx (mul_lt_mul_of_pos_right hlt (zpow_pos two_pos _))
  have hnormal' : spec.minExponent + spec.mantissaBits ≤ totalExponent m e := by omega
  obtain ⟨m', e', h, hround, hlow, hhigh, hmin, herror⟩ :=
    roundWithAccuracy_normal s hv hbits hnormal'
  have hpos : 0 < v * 2 ^ e := (zpow_pos two_pos _).trans_le hx
  rw [hround]
  refine ⟨_, .normal s m' e' h hlow hhigh hmin, ?_⟩
  rwa [← mul_sub, abs_mul, abs_mul, s.abs_factor, one_mul, one_mul, abs_of_pos hpos]

/-! ### Products, quotients and whole numbers -/

variable {u u' : UnpackedFloat} {q q' : ℚ}

theorem IsRegular.log2 (hlow : 2 ^ spec.mantissaBitsWithoutImplicit ≤ m)
    (hhigh : m < 2 ^ spec.mantissaBits) : m.log2 = spec.mantissaBitsWithoutImplicit := by
  have hp := mantissaBits_eq spec
  have hpos : 0 < m := (Nat.two_pow_pos _).trans_le hlow
  exact (Nat.log2_eq_iff hpos.ne').mpr ⟨hlow, hp ▸ hhigh⟩

theorem rounds_zero (s : Sign) : Rounds spec 0 (.zero s) := by
  refine ⟨0, .zero s, ?_⟩
  rw [sub_self, abs_zero, mul_zero]

theorem factor_mul_ne_zero (s : Sign) (h : 0 < m) : s.factor * (m * 2 ^ e) ≠ 0 := by
  have hm : (m : ℚ) ≠ 0 := by exact_mod_cast h.ne'
  have hs : s.factor ≠ 0 := by cases s <;> norm_num [Sign.factor]
  exact mul_ne_zero hs (mul_ne_zero hm (zpow_ne_zero _ two_ne_zero))

/-- **A product is rounded.** -/
theorem rounds_mul (hu : IsRegular spec u q) (hu' : IsRegular spec u' q')
    (hx : q * q' ≠ 0 → minNormal spec ≤ |q * q'|) : Rounds spec (q * q') (mul spec u u') := by
  rcases hu with s | ⟨s, m, e, h, hlow, -⟩
  · rw [zero_mul]
    rcases hu' with s' | ⟨s', m', e', h', -⟩
    · exact rounds_zero (s * s')
    · exact rounds_zero (s * s')
  rcases hu' with s' | ⟨s', m', e', h', -⟩
  · rw [mul_zero]
    exact rounds_zero (s * s')
  replace hx := hx (mul_ne_zero (factor_mul_ne_zero s h) (factor_mul_ne_zero s' h'))
  have hproduct : s.factor * (m * 2 ^ e) * (s'.factor * (m' * 2 ^ e')) =
      (s * s').factor * (((m * m' : ℕ) : ℚ) * 2 ^ (e + e')) := by
    rw [Sign.factor_mul, zpow_add₀ two_ne_zero]
    push_cast
    ring
  have hpos : (0 : ℚ) ≤ ((m * m' : ℕ) : ℚ) * 2 ^ (e + e') := by positivity
  rw [hproduct, Sign.abs_factor_mul _ hpos] at hx
  rw [hproduct]
  exact rounds_roundWithAccuracy (s * s') (.ofNat _) (hlow.trans (Nat.le_mul_of_pos_right _ h')) hx

/-- The whole part of a fraction, with the accuracy that its remainder gives. -/
theorem ExtendedMantissa.Holds.ofFraction (n : ℕ) {d : ℕ} (hd : 0 < d) :
    (ofMantissaAndAccuracy (n / d) (accuracyOfFraction (n % d) d)).Holds ((n : ℚ) / d) := by
  have hd' : (0 : ℚ) < d := by exact_mod_cast hd
  have hv : (n : ℚ) / d = (n / d : ℕ) + (n % d : ℕ) / (d : ℚ) := by
    have hsplit : (n : ℚ) = d * (n / d : ℕ) + (n % d : ℕ) := by
      exact_mod_cast (Nat.div_add_mod n d).symm
    rw [← mul_div_cancel_left₀ ((n / d : ℕ) : ℚ) hd'.ne', ← add_div, ← hsplit]
  have hlt : n % d < d := Nat.mod_lt n hd
  rw [hv]
  generalize n / d = q
  generalize n % d = r at hlt
  rcases Nat.eq_zero_or_pos r with rfl | hpos
  · have hexact : accuracyOfFraction 0 d = .exact := rfl
    rw [hexact, Nat.cast_zero, zero_div, add_zero]
    exact .ofNat q
  · have hinexact : accuracyOfFraction r d = .inexact (compare (2 * r) d) := if_neg hpos.ne'
    have hr : (0 : ℚ) < r / d := by positivity
    have hr' : (r : ℚ) / d < 1 := (div_lt_one hd').mpr (by exact_mod_cast hlt)
    rw [hinexact]
    rcases lt_trichotomy (2 * r) d with hcmp | hcmp | hcmp
    · have hhalf : (r : ℚ) / d < 1 / 2 := by
        rw [div_lt_div_iff₀ hd' two_pos]
        exact_mod_cast (by omega : r * 2 < 1 * d)
      rw [Nat.compare_eq_lt.mpr hcmp]
      exact .lt_half (by linarith) (by linarith)
    · have hhalf : (r : ℚ) / d = 1 / 2 := by
        rw [div_eq_div_iff hd'.ne' two_ne_zero]
        exact_mod_cast (by omega : r * 2 = 1 * d)
      rw [Nat.compare_eq_eq.mpr hcmp, hhalf]
      exact .eq_half rfl
    · have hhalf : 1 / 2 < (r : ℚ) / d := by
        rw [div_lt_div_iff₀ two_pos hd']
        exact_mod_cast (by omega : 1 * d < r * 2)
      rw [Nat.compare_eq_gt.mpr hcmp]
      exact .gt_half (by linarith) (by linarith)

/-- The quotient of two floats, when the first mantissa is shifted to the left. -/
theorem factor_mul_div {m' k : ℕ} {e' T : ℤ} (s s' : Sign) (hk : e - e' = T + k) :
    s.factor * (m * 2 ^ e) / (s'.factor * (m' * 2 ^ e')) =
      (s / s').factor * (((m <<< k : ℕ) : ℚ) / m' * 2 ^ T) := by
  have he : (2 : ℚ) ^ e = 2 ^ k * 2 ^ T * 2 ^ e' := by
    rw [← zpow_natCast, ← zpow_add₀ two_ne_zero, ← zpow_add₀ two_ne_zero]
    congr 1
    omega
  have he' : (2 : ℚ) ^ e' ≠ 0 := zpow_ne_zero _ two_ne_zero
  rw [Sign.factor_div, Nat.shiftLeft_eq, he]
  push_cast
  rw [mul_div_mul_comm, ← mul_assoc, mul_div_mul_right _ _ he']
  ring

/-- The quotient has enough bits: either the shift has seen to it, or the quotient is not too
small and its exponent is the smallest one. -/
theorem two_pow_le_shiftLeft_div {m' k : ℕ} {T : ℤ} (h' : 0 < m')
    (hlow : 2 ^ spec.mantissaBitsWithoutImplicit ≤ m) (hhigh' : m' < 2 ^ spec.mantissaBits)
    (hx : minNormal spec ≤ ((m <<< k : ℕ) : ℚ) / m' * 2 ^ T)
    (hshift : spec.mantissaBits ≤ k ∨ T ≤ spec.minExponent) :
    2 ^ spec.mantissaBitsWithoutImplicit ≤ m <<< k / m' := by
  rw [Nat.le_div_iff_mul_le h']
  rcases hshift with hshift | hshift
  · rw [Nat.shiftLeft_eq]
    exact Nat.mul_le_mul hlow (hhigh'.le.trans (Nat.pow_le_pow_right two_pos hshift))
  · have hm' : (0 : ℚ) < m' := by exact_mod_cast h'
    have hpow : (2 : ℚ) ^ T ≤ 2 ^ spec.minExponent := zpow_le_zpow_right₀ one_le_two hshift
    have hmin : (0 : ℚ) < 2 ^ spec.minExponent := zpow_pos two_pos _
    have hle : (2 : ℚ) ^ spec.mantissaBitsWithoutImplicit * 2 ^ spec.minExponent ≤
        ((m <<< k : ℕ) : ℚ) / m' * 2 ^ spec.minExponent := by
      rw [mul_comm, ← zpow_natCast, ← zpow_add₀ two_ne_zero]
      exact hx.trans (mul_le_mul_of_nonneg_left hpow (by positivity))
    have hle' := (le_div_iff₀ hm').mp (le_of_mul_le_mul_right hle hmin)
    exact_mod_cast hle'

/-- **A quotient is rounded**, unless the divisor is zero. -/
theorem rounds_div (hu : IsRegular spec u q) (hu' : IsRegular spec u' q') (hne : q' ≠ 0)
    (hx : q / q' ≠ 0 → minNormal spec ≤ |q / q'|) : Rounds spec (q / q') (div spec u u') := by
  rcases hu' with s' | ⟨s', m', e', h', hlow', hhigh', -⟩
  · exact absurd rfl hne
  rcases hu with s | ⟨s, m, e, h, hlow, hhigh, -⟩
  · rw [zero_div]
    exact rounds_zero (s / s')
  replace hx := hx (div_ne_zero (factor_mul_ne_zero s h) hne)
  -- the dividend is shifted by `k` bits, and the quotient has the exponent `T`
  obtain ⟨T, hT⟩ : ∃ T, T =
      min (e - e') (spec.targetExponent (totalExponent m e - totalExponent m' e')) := ⟨_, rfl⟩
  obtain ⟨k, hk⟩ : ∃ k : ℕ, e - e' = T + k := ⟨(e - e' - T).toNat, by omega⟩
  have hshift : spec.mantissaBits ≤ k ∨ T ≤ spec.minExponent := by
    rw [Format.targetExponent, totalExponent, totalExponent, IsRegular.log2 hlow hhigh,
      IsRegular.log2 hlow' hhigh'] at hT
    omega
  have hcore : divCore spec m e m' e' =
      (m <<< k / m', T, accuracyOfFraction (m <<< k % m') m') := by
    rw [divCore, ← hT, hk, add_sub_cancel_left, Int.toNat_natCast]
  have hdiv : div spec (.finite s m e h) (.finite s' m' e' h') =
      roundWithAccuracy spec (s / s') (m <<< k / m') T (accuracyOfFraction (m <<< k % m') m') := by
    change roundWithAccuracy spec (s / s') (divCore spec m e m' e').1 (divCore spec m e m' e').2.1
      (divCore spec m e m' e').2.2 = _
    rw [hcore]
  rw [factor_mul_div s s' hk, Sign.abs_factor_mul _ (by positivity)] at hx
  rw [factor_mul_div s s' hk, hdiv]
  exact rounds_roundWithAccuracy (s / s') (.ofFraction _ h')
    (two_pow_le_shiftLeft_div h' hlow hhigh' hx hshift) hx

/-- A number of the format is rounded, whatever its exponent. -/
theorem rounds_round (s : Sign) (hx : minNormal spec ≤ (m : ℚ) * 2 ^ e) :
    Rounds spec (s.factor * (m * 2 ^ e)) (round spec s m e) := by
  have hp := mantissaBits_eq spec
  have hm : m ≠ 0 := by
    rintro rfl
    have hpos : (0 : ℚ) < minNormal spec := zpow_pos two_pos _
    rw [Nat.cast_zero, zero_mul] at hx
    exact absurd hx hpos.not_ge
  have hnormal := minExponent_lt_totalExponent hx
    (mul_lt_mul_of_pos_right (lt_add_one (m : ℚ)) (zpow_pos two_pos e))
  obtain ⟨k, hk⟩ : ∃ k, k = (e - spec.targetExponent (totalExponent m e)).toNat := ⟨_, rfl⟩
  have hbits : spec.mantissaBitsWithoutImplicit ≤ m.log2 + k := by
    rw [totalExponent] at hnormal
    rw [Format.targetExponent, totalExponent] at hk
    omega
  have hround : round spec s m e = roundWithAccuracy spec s (m <<< k) (e - k) .exact := by
    rw [hk]
    rfl
  have hvalue : (m : ℚ) * 2 ^ e = ((m <<< k : ℕ) : ℚ) * 2 ^ (e - k) := by
    rw [Nat.shiftLeft_eq, zpow_sub₀ two_ne_zero, zpow_natCast]
    push_cast
    rw [mul_assoc, mul_div_cancel₀ _ (pow_ne_zero _ two_ne_zero)]
  rw [hround, hvalue]
  refine rounds_roundWithAccuracy s (.ofNat _) ?_ (hvalue ▸ hx)
  rw [Nat.shiftLeft_eq]
  calc 2 ^ spec.mantissaBitsWithoutImplicit ≤ 2 ^ (m.log2 + k) :=
        Nat.pow_le_pow_right two_pos hbits
    _ = 2 ^ m.log2 * 2 ^ k := pow_add ..
    _ ≤ m * 2 ^ k := Nat.mul_le_mul_right _ (Nat.log2_self_le hm)

/-- **A whole number is rounded.** -/
theorem rounds_ofInt {n : ℤ} (hx : (n : ℚ) ≠ 0 → minNormal spec ≤ |(n : ℚ)|) :
    Rounds spec n (ofInt spec n) := by
  have hone : ∀ m : ℕ, (m : ℚ) * 2 ^ (0 : ℤ) = m := fun m => by rw [zpow_zero, mul_one]
  rcases lt_trichotomy n 0 with hneg | rfl | hpos
  · obtain ⟨m, rfl⟩ : ∃ m : ℕ, n = -m := ⟨n.natAbs, by omega⟩
    have hm : (m : ℚ) ≠ 0 := by exact_mod_cast (by omega : m ≠ 0)
    have hofInt : ofInt spec (-m) = round spec .negative m 0 := by
      rw [ofInt, normalize, Int.compare_eq_lt.mpr hneg]
      simp
    have hrounds : Rounds spec (Sign.factor .negative * (m * 2 ^ (0 : ℤ)))
        (round spec .negative m 0) := by
      refine rounds_round .negative ?_
      rw [hone]
      simpa [hm] using hx
    rw [hofInt]
    simpa [hone, Sign.factor] using hrounds
  · exact rounds_zero .positive
  · obtain ⟨m, rfl⟩ : ∃ m : ℕ, n = m := ⟨n.natAbs, by omega⟩
    have hm : (m : ℚ) ≠ 0 := by exact_mod_cast (by omega : m ≠ 0)
    have hofInt : ofInt spec m = round spec .positive m 0 := by
      rw [ofInt, normalize, Int.compare_eq_gt.mpr hpos]
      simp
    have hrounds : Rounds spec (Sign.factor .positive * (m * 2 ^ (0 : ℤ)))
        (round spec .positive m 0) := by
      refine rounds_round .positive ?_
      rw [hone]
      simpa [hm] using hx
    rw [hofInt]
    simpa [hone, Sign.factor] using hrounds

end Float.Model.UnpackedFloat
