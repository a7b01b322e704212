import ExchangeRate.Base.FloatRounding
import Mathlib

/-!
# The arithmetic of `Float`

A float is packed into the bits of the format and unpacked again. A rounded result
survives this unless it is too large (`Float.Model.UnpackedFloat.unpack_pack`), and
what bits stand for is regular unless it is too small (`isRegular_unpack`).

So on numbers of moderate size (`Float.Within`) the operations of `Float` are the exact
ones, each with a relative error of at most `2⁻⁵³` (`Float.exists_value_mul`,
`Float.exists_value_div`, `Float.exists_value_ofInt`). The roundings of a calculation
are counted (`Float.After`): those of the factors of a product add up, and a divisor
counts twice.

The whole of Mathlib is imported for the lemmas about the bits of a float, which come
with no smaller part of it.
-/

namespace Float.Model.UnpackedFloat

variable {spec : Format} {u : UnpackedFloat} {q : ℚ}

/-! ### Packing -/

/-- The numbers from here on are infinite in the format. -/
def overflow (spec : Format) : ℚ := 2 ^ (spec.exponentBias + 1)

/-- The bias splits the exponents in halves, and the smallest exponent goes with it. -/
theorem exponentBias_spec (spec : Format) : 2 ^ spec.exponentBits = 2 * (spec.exponentBias + 1) ∧
    spec.minExponent = 2 - spec.exponentBias - spec.mantissaBits := by
  obtain ⟨B, hB⟩ : ∃ B, B = 2 ^ (spec.exponentBits - 1) := ⟨_, rfl⟩
  have hpos : 0 < B := hB ▸ Nat.two_pow_pos _
  have hbias : spec.exponentBias + 1 = B := by
    rw [Format.exponentBias, ← hB, Nat.sub_add_cancel hpos]
  have hmin : spec.minExponent = 3 - B - spec.mantissaBits := by
    rw [Format.minExponent, hB]
    push_cast
    rfl
  constructor
  · rw [hbias, hB, ← pow_succ', Nat.sub_add_cancel spec.he]
  · omega

theorem toNat_one_append {w : ℕ} (v : BitVec w) : (1#1 ++ v).toNat = 2 ^ w + v.toNat := by
  rw [BitVec.toNat_append, Nat.shiftLeft_eq, mul_comm, ← Nat.two_pow_add_eq_or_of_lt v.isLt]
  simp

theorem finite_congr {s s' : Sign} {m m' : ℕ} {e e' : ℤ} {h : 0 < m} {h' : 0 < m'} (hs : s = s')
    (hm : m = m') (he : e = e') : UnpackedFloat.finite s m e h = .finite s' m' e' h' := by
  subst hs hm he
  rfl

/-- **A regular float that has not overflowed is what its bits say.** -/
theorem unpack_pack (hu : IsRegular spec u q) (hq : |q| < overflow spec) :
    unpack spec (pack spec u) = u := by
  rcases hu with s | ⟨s, m, e, h, hlow, hhigh, hmin⟩
  · exact unpack_packedZero
  have hp := mantissaBits_eq spec
  obtain ⟨hexponents, hmin'⟩ := exponentBias_spec spec
  -- the biased exponent is neither all zeros nor all ones
  have hexponent : spec.mantissaBitsWithoutImplicit + e < (spec.exponentBias + 1 : ℕ) := by
    have hle : (2 : ℚ) ^ (spec.mantissaBitsWithoutImplicit + e) ≤ m * 2 ^ e := by
      rw [zpow_add₀ two_ne_zero, zpow_natCast]
      exact mul_le_mul_of_nonneg_right (by exact_mod_cast hlow) (by positivity)
    have hpos : (0 : ℚ) ≤ m * 2 ^ e := by positivity
    rw [Sign.abs_factor_mul _ hpos, overflow, ← zpow_natCast] at hq
    exact (zpow_lt_zpow_iff_right₀ one_lt_two).mp (hle.trans_lt hq)
  obtain ⟨b, hb⟩ : ∃ b : ℕ, b = e + spec.exponentBias + spec.mantissaBitsWithoutImplicit :=
    ⟨(e + spec.exponentBias + spec.mantissaBitsWithoutImplicit).toNat, by omega⟩
  have hlow' : 0 < b := by omega
  have hhigh' : b + 1 < 2 ^ spec.exponentBits := by omega
  have hpack : pack spec (.finite s m e h) = packComponents spec s (.ofNat _ b) (.ofNat _ m) := by
    rw [pack, ← hb, Int.toNat_natCast, if_neg hhigh'.not_ge, if_pos]
    rw [IsRegular.log2 hlow hhigh, hp]
  have htoNat : (BitVec.ofNat spec.exponentBits b).toNat = b := by
    rw [BitVec.toNat_ofNat, Nat.mod_eq_of_lt (by omega)]
  have hnotones : BitVec.ofNat spec.exponentBits b ≠ -1#_ := by
    intro heq
    have hnat := congrArg BitVec.toNat heq
    rw [htoNat, BitVec.neg_one_eq_allOnes, BitVec.toNat_allOnes] at hnat
    omega
  have hnotzeros : BitVec.ofNat spec.exponentBits b ≠ 0#_ := by
    intro heq
    have hnat := congrArg BitVec.toNat heq
    rw [htoNat, BitVec.toNat_ofNat, Nat.zero_mod] at hnat
    omega
  rw [hpack, unpack]
  simp only [unpackMantissa_packComponents, unpackExponent_packComponents,
    unpackSign_packComponents, Sign.ofBitVec_toBitVec, if_neg hnotones, if_neg hnotzeros]
  refine finite_congr rfl ?_ (by omega)
  -- the implicit bit comes back
  have hrest : m - 2 ^ spec.mantissaBitsWithoutImplicit < 2 ^ spec.mantissaBitsWithoutImplicit := by
    rw [hp, pow_succ] at hhigh
    omega
  rw [toNat_one_append, BitVec.toNat_ofNat, Nat.mod_eq_sub_mod hlow, Nat.mod_eq_of_lt hrest,
    Nat.add_sub_cancel' hlow]

/-- **What bits stand for is regular**, unless the number is too small. -/
theorem isRegular_unpack {b : BitVec spec.numBits} (hq : (unpack spec b).value? = some q)
    (hmin : q ≠ 0 → minNormal spec ≤ |q|) : IsRegular spec (unpack spec b) q := by
  have hp := mantissaBits_eq spec
  obtain ⟨-, hmin'⟩ := exponentBias_spec spec
  have hbits := (unpackMantissa b).isLt
  by_cases hones : unpackExponent b = -1#_
  · -- an infinity, or no number
    rw [unpack, if_pos hones] at hq
    split at hq <;> cases hq
  by_cases hzeros : unpackExponent b = 0#_
  · by_cases hmantissa : unpackMantissa b = 0#_
    · have hunpack : unpack spec b = .zero (.ofBitVec (unpackSign b)) := by
        rw [unpack, if_neg hones, if_pos hzeros, dif_pos hmantissa]
      rw [hunpack] at hq ⊢
      obtain rfl := Option.some.inj hq
      exact .zero _
    · -- a subnormal number is smaller than that
      rw [unpack, if_neg hones, if_pos hzeros, dif_neg hmantissa] at hq
      obtain rfl := Option.some.inj hq
      have hne := factor_mul_ne_zero (e := spec.minExponent) (.ofBitVec (unpackSign b))
        (BitVec.toNat_pos_of_ne_zero hmantissa)
      have hexponent : ((unpackExponent b).toNat : ℤ) -
          (spec.exponentBias + spec.mantissaBitsWithoutImplicit) + 1 = spec.minExponent := by
        rw [hzeros, BitVec.toNat_ofNat, Nat.zero_mod]
        omega
      have hnonneg : (0 : ℚ) ≤ (unpackMantissa b).toNat * 2 ^ spec.minExponent := by positivity
      rw [hexponent] at hmin
      refine absurd (hmin hne) (not_le.mpr ?_)
      rw [Sign.abs_factor_mul _ hnonneg, minNormal, zpow_add₀ two_ne_zero, mul_comm,
        zpow_natCast]
      exact mul_lt_mul_of_pos_left (by exact_mod_cast hbits) (zpow_pos two_pos _)
  · rw [unpack, if_neg hones, if_neg hzeros] at hq ⊢
    obtain rfl := Option.some.inj hq
    have hone : 0 < (unpackExponent b).toNat := BitVec.toNat_pos_of_ne_zero hzeros
    have hlow : 2 ^ spec.mantissaBitsWithoutImplicit ≤ (1#1 ++ unpackMantissa b).toNat := by
      rw [toNat_one_append]
      exact Nat.le_add_right _ _
    have hhigh : (1#1 ++ unpackMantissa b).toNat < 2 ^ spec.mantissaBits := by
      rw [toNat_one_append, hp, pow_succ]
      omega
    exact .normal _ _ _ _ hlow hhigh (by omega)

end Float.Model.UnpackedFloat

/-! ### Numbers of moderate size -/

namespace Float

open Float.Model UnpackedFloat

/-- The number that a float stands for, when it stands for one. -/
def value? (f : Float) : Option ℚ := f.toModel.unpack.value?

/-- **A number of moderate size**: neither it nor its inverse is above the bound. So zero is
one, too. -/
structure Within (k : ℤ) (q : ℚ) : Prop where
  le : |q| ≤ 2 ^ k
  inv_le : |q|⁻¹ ≤ 2 ^ k

namespace Within

variable {j k : ℤ} {a b : ℚ}

theorem inv (ha : Within k a) : Within k a⁻¹ := by
  refine ⟨?_, ?_⟩
  · rw [abs_inv]
    exact ha.inv_le
  · rw [abs_inv, inv_inv]
    exact ha.le

theorem mul (ha : Within j a) (hb : Within k b) : Within (j + k) (a * b) := by
  refine ⟨?_, ?_⟩
  · rw [abs_mul, zpow_add₀ two_ne_zero]
    exact mul_le_mul ha.le hb.le (abs_nonneg b) (by positivity)
  · rw [abs_mul, mul_inv, zpow_add₀ two_ne_zero]
    exact mul_le_mul ha.inv_le hb.inv_le (by positivity) (by positivity)

theorem div (ha : Within j a) (hb : Within k b) : Within (j + k) (a / b) := by
  rw [div_eq_mul_inv]
  exact ha.mul hb.inv

/-- A number that is not zero is not tiny. -/
theorem le_abs (ha : Within k a) (hne : a ≠ 0) : 2 ^ (-k) ≤ |a| := by
  rw [zpow_neg]
  exact inv_le_of_inv_le₀ (abs_pos.mpr hne) ha.inv_le

/-- Rounding changes the size by a factor of two at most. -/
theorem rounded (ha : Within k a) (hb : |b - a| ≤ 2 ^ (-53 : ℤ) * |a|) : Within (k + 1) b := by
  have hhalf : |b - a| ≤ 1 / 2 * |a| :=
    hb.trans (mul_le_mul_of_nonneg_right (by norm_num) (abs_nonneg a))
  have hlow : |a| - |b| ≤ |b - a| := by
    rw [abs_sub_comm]
    exact abs_sub_abs_le_abs_sub a b
  have hhigh : |b| - |a| ≤ |b - a| := abs_sub_abs_le_abs_sub b a
  have hpow : (2 : ℚ) ^ (k + 1) = 2 ^ k * 2 := zpow_add_one₀ two_ne_zero k
  refine ⟨?_, ?_⟩
  · rw [hpow]
    linarith [ha.le]
  · rcases eq_or_ne a 0 with rfl | hne
    · -- zero is rounded to zero
      have hzero : b = 0 := by simpa using hb
      rw [hzero, abs_zero, inv_zero]
      positivity
    · have hpos : 0 < |a| / 2 := half_pos (abs_pos.mpr hne)
      calc |b|⁻¹ ≤ (|a| / 2)⁻¹ := inv_anti₀ hpos (by linarith)
        _ = |a|⁻¹ * 2 := by rw [inv_div, div_eq_inv_mul]
        _ ≤ 2 ^ k * 2 := mul_le_mul_of_nonneg_right ha.inv_le two_pos.le
        _ = 2 ^ (k + 1) := hpow.symm

end Within

/-! ### The operations -/

variable {f g : Float} {a b : ℚ} {j k : ℤ}

/-- What is packed is read back. -/
theorem exists_value_pack {u : UnpackedFloat} {x : ℚ} (hu : Rounds .binary64 x u)
    (hx : Within k x) (hk : k ≤ 1022) :
    ∃ q, (Float.ofModel (.pack u)).value? = some q ∧
      |q - x| ≤ 2 ^ (-53 : ℤ) * |x| ∧ Within (k + 1) q := by
  obtain ⟨q, hregular, herror⟩ := hu
  have hwithin : Within (k + 1) q := hx.rounded herror
  refine ⟨q, ?_, herror, hwithin⟩
  have hfinite : |q| < overflow .binary64 := by
    have hoverflow : overflow .binary64 = 2 ^ (1024 : ℤ) := rfl
    rw [hoverflow]
    exact hwithin.le.trans_lt (zpow_lt_zpow_right₀ one_lt_two (by omega))
  have hread : (Float.ofModel (.pack u)).value? = u.value? :=
    congrArg _ (unpack_pack hregular hfinite)
  rw [hread]
  cases hregular with
  | zero => rfl
  | normal => rfl

theorem minNormal_le (ha : Within k a) (hk : k ≤ 1022) (hne : a ≠ 0) :
    minNormal .binary64 ≤ |a| := by
  have hmin : minNormal .binary64 = 2 ^ (-1022 : ℤ) := rfl
  rw [hmin]
  exact (zpow_le_zpow_right₀ one_le_two (by omega)).trans (ha.le_abs hne)

theorem isRegular_of_value (hf : f.value? = some a) (ha : Within k a) (hk : k ≤ 1022) :
    IsRegular .binary64 f.toModel.unpack a :=
  isRegular_unpack hf (minNormal_le ha hk)

/-- **A product of floats.** -/
theorem exists_value_mul (hf : f.value? = some a) (hg : g.value? = some b) (ha : Within j a)
    (hb : Within k b) (hj : 0 ≤ j) (hk : 0 ≤ k) (hjk : j + k ≤ 1022) :
    ∃ q, (f * g).value? = some q ∧ |q - a * b| ≤ 2 ^ (-53 : ℤ) * |a * b| ∧
      Within (j + k + 1) q :=
  have hu := isRegular_of_value hf ha (by omega)
  have hu' := isRegular_of_value hg hb (by omega)
  exists_value_pack (rounds_mul hu hu' (minNormal_le (ha.mul hb) hjk)) (ha.mul hb) hjk

/-- **A quotient of floats.** -/
theorem exists_value_div (hf : f.value? = some a) (hg : g.value? = some b) (hne : b ≠ 0)
    (ha : Within j a) (hb : Within k b) (hj : 0 ≤ j) (hk : 0 ≤ k) (hjk : j + k ≤ 1022) :
    ∃ q, (f / g).value? = some q ∧ |q - a / b| ≤ 2 ^ (-53 : ℤ) * |a / b| ∧
      Within (j + k + 1) q :=
  have hu := isRegular_of_value hf ha (by omega)
  have hu' := isRegular_of_value hg hb (by omega)
  exists_value_pack (rounds_div hu hu' hne (minNormal_le (ha.div hb) hjk)) (ha.div hb) hjk

/-- **A whole number as a float.** -/
theorem exists_value_ofInt {n : ℤ} (hn : Within k n) (hk : k ≤ 1022) :
    ∃ q, (Float.ofModel (.ofInt n)).value? = some q ∧ |q - n| ≤ 2 ^ (-53 : ℤ) * |(n : ℚ)| ∧
      Within (k + 1) q :=
  exists_value_pack (rounds_ofInt (minNormal_le hn hk)) hn hk

/-! ### A chain of operations -/

/-- **A number after some roundings.** -/
def After (n : ℕ) (x q : ℚ) : Prop := |q - x| ≤ ((1 + 2 ^ (-53 : ℤ)) ^ n - 1) * |x|

namespace After

variable {m n : ℕ} {x y z c d : ℚ}

theorem refl (x : ℚ) : After 0 x x := by
  rw [After, sub_self, abs_zero, pow_zero, sub_self, zero_mul]

theorem one (h : |y - x| ≤ 2 ^ (-53 : ℤ) * |x|) : After 1 x y := by
  rwa [After, pow_one, add_sub_cancel_left]

/-- What the roundings can do to the size. -/
theorem abs_le (h : After n x y) : |y| ≤ (1 + 2 ^ (-53 : ℤ)) ^ n * |x| := by
  have hle := abs_sub_abs_le_abs_sub y x
  rw [After, sub_one_mul] at h
  linarith

/-- One number of roundings after another. -/
theorem trans (h : After m x y) (h' : After n y z) : After (m + n) x z := by
  have hsize := h.abs_le
  obtain ⟨a, ha⟩ : ∃ a : ℚ, a = (1 + 2 ^ (-53 : ℤ)) ^ m := ⟨_, rfl⟩
  obtain ⟨b, hb⟩ : ∃ b : ℚ, b = (1 + 2 ^ (-53 : ℤ)) ^ n := ⟨_, rfl⟩
  have hone : 1 ≤ b := hb ▸ one_le_pow₀ (by norm_num)
  rw [After, ← ha] at h
  rw [After, ← hb] at h'
  rw [After, pow_add, ← ha, ← hb]
  rw [← ha] at hsize
  calc |z - x| ≤ |z - y| + |y - x| := abs_sub_le _ _ _
    _ ≤ (b - 1) * |y| + (a - 1) * |x| := add_le_add h' h
    _ ≤ (b - 1) * (a * |x|) + (a - 1) * |x| := by
        have hle := mul_le_mul_of_nonneg_left hsize (sub_nonneg.mpr hone)
        linarith
    _ = (a * b - 1) * |x| := by ring

/-- A product of two numbers that have been rounded. -/
theorem mul (h : After m x y) (h' : After n c d) : After (m + n) (x * c) (y * d) := by
  have hleft : After m (x * c) (y * c) := by
    rw [After, ← sub_mul, abs_mul, abs_mul, ← mul_assoc]
    exact mul_le_mul_of_nonneg_right h (abs_nonneg c)
  have hright : After n (y * c) (y * d) := by
    rw [After, ← mul_sub, abs_mul, abs_mul, mul_left_comm]
    exact mul_le_mul_of_nonneg_left h' (abs_nonneg y)
  exact hleft.trans hright

/-- Rounding keeps most of the size. -/
theorem le_abs_of_rounded (h : |y - x| ≤ 2 ^ (-53 : ℤ) * |x|) :
    (1 - 2 ^ (-53 : ℤ)) * |x| ≤ |y| := by
  have hlow : |x| - |y| ≤ |y - x| := by
    rw [abs_sub_comm]
    exact abs_sub_abs_le_abs_sub x y
  linarith

theorem ne_zero_of_rounded (h : |y - x| ≤ 2 ^ (-53 : ℤ) * |x|) (hx : x ≠ 0) : y ≠ 0 :=
  abs_pos.mp ((mul_pos (by norm_num) (abs_pos.mpr hx)).trans_le (le_abs_of_rounded h))

/-- The inverse of a number that has been rounded once. -/
theorem inv (h : |y - x| ≤ 2 ^ (-53 : ℤ) * |x|) (hx : x ≠ 0) : After 2 x⁻¹ y⁻¹ := by
  have hpos : 0 < |x| := abs_pos.mpr hx
  have hy := le_abs_of_rounded h
  have hne := ne_zero_of_rounded h hx
  have hy' : 0 < |y| := abs_pos.mpr hne
  rw [After, inv_sub_inv hne hx, abs_div, abs_mul, abs_inv, div_le_iff₀ (mul_pos hy' hpos),
    abs_sub_comm]
  calc |y - x| ≤ 2 ^ (-53 : ℤ) * |x| := h
    _ ≤ ((1 + 2 ^ (-53 : ℤ)) ^ 2 - 1) * ((1 - 2 ^ (-53 : ℤ)) * |x|) := by
        rw [← mul_assoc]
        exact mul_le_mul_of_nonneg_right (by norm_num) hpos.le
    _ ≤ ((1 + 2 ^ (-53 : ℤ)) ^ 2 - 1) * |y| := mul_le_mul_of_nonneg_left hy (by norm_num)
    _ = ((1 + 2 ^ (-53 : ℤ)) ^ 2 - 1) * |x|⁻¹ * (|y| * |x|) := by
        field_simp

end After

end Float
