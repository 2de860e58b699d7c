import TimingCharts.Number.Fixed
import TimingCharts.Proofs.FloatOperations

/-!
# Exact values

Decimal texts are computed from the fields of a float's encoding. The fraction that they stand for
is the number of the float (`exists_ofFloat?`), and rounding a fraction is rounding its
quotient (`roundQuotient_eq`).
-/

namespace TimingCharts

open Float.Model Float.Model.UnpackedFloat

namespace Binary

def number (b : Binary) : ℚ :=
  signed (if b.negative then .negative else .positive) (b.numerator / b.denominator)

theorem quotient_eq (b : Binary) :
    (b.numerator : ℚ) / b.denominator = b.significand * 2 ^ b.exponent := by
  have hpos : ((2 : ℚ) ^ (-b.exponent).toNat) ≠ 0 := by positivity
  have hexponent : (b.exponent.toNat : ℤ) = b.exponent + (-b.exponent).toNat := by omega
  rw [numerator, denominator, Nat.pow_eq, Nat.pow_eq]
  push_cast
  rw [div_eq_iff hpos, mul_assoc, ← zpow_natCast, ← zpow_natCast, ← zpow_add₀ two_ne_zero,
    hexponent]

end Binary

/-! ## Fields -/

section
variable (b : BitVec Format.binary64.numBits)

theorem toNat_exponent :
    (unpackExponent b : BitVec Format.binary64.exponentBits).toNat =
      b.toNat / Nat.pow 2 52 % Nat.pow 2 11 := by
  show b.toNat >>> 52 % 2 ^ 11 = _
  rw [Nat.shiftRight_eq_div_pow]

theorem toNat_mantissa :
    (unpackMantissa b : BitVec Format.binary64.mantissaBitsWithoutImplicit).toNat =
      b.toNat % Nat.pow 2 52 := rfl

theorem sign_eq :
    Sign.ofBitVec (unpackSign b) =
      if b.toNat / Nat.pow 2 63 % 2 = 1 then .negative else .positive := by
  have hsign : (unpackSign b).toNat = b.toNat / Nat.pow 2 63 % 2 := by
    show b.toNat >>> 63 % 2 ^ 1 = _
    rw [Nat.shiftRight_eq_div_pow]
  rw [← hsign, Sign.ofBitVec]
  rcases BitVec.eq_zero_or_eq_one (unpackSign b) with h | h
  · rw [h]
    rfl
  · rw [h]
    rfl

theorem number_fields (m : ℕ) (e : ℤ) :
    Binary.number ⟨decide (b.toNat / Nat.pow 2 63 % 2 = 1), m, e⟩ =
      signed (Sign.ofBitVec (unpackSign b)) (m * 2 ^ e) := by
  rw [Binary.number, Binary.quotient_eq, sign_eq]
  simp only [decide_eq_true_eq]

end

theorem signed_zero (s : Sign) : signed s 0 = 0 := by
  cases s with
  | negative => exact neg_zero
  | positive => rfl

theorem exists_ofFloat? {x : Float} (h : x.isFinite = true) :
    ∃ b, Binary.ofFloat? x = some b ∧ b.number = number x := by
  have hfinite :
      (UnpackedFloat.unpack Format.binary64 x.toModel.toBits.toBitVec).isFinite = true := h
  have hbits : x.toBits.toNat = x.toModel.toBits.toBitVec.toNat := rfl
  show ∃ b, _ ∧ _ = unpackedNumber (UnpackedFloat.unpack Format.binary64 x.toModel.toBits.toBitVec)
  unfold Binary.ofFloat?
  simp only [hbits]
  generalize x.toModel.toBits.toBitVec = b at hfinite
  rw [← toNat_exponent, ← toNat_mantissa]
  revert hfinite
  fun_cases UnpackedFloat.unpack with
  | case1 | case2 => nofun
  | case3 fraction scale signBit sign _ hscale hfraction =>
    intro _
    have h0 : scale.toNat = 0 := congrArg BitVec.toNat hscale
    have hm : fraction.toNat = 0 := congrArg BitVec.toNat hfraction
    have h2047 : scale.toNat ≠ 2047 := by
      rw [h0]
      decide
    rw [if_neg h2047, if_pos h0]
    refine ⟨_, rfl, ?_⟩
    rw [number_fields, hm, Nat.cast_zero, zero_mul, signed_zero]
    rfl
  | case4 fraction scale exponent signBit sign _ hscale hfraction =>
    intro _
    have h0 : scale.toNat = 0 := congrArg BitVec.toNat hscale
    have he : exponent + 1 = -1074 := by
      simp only [exponent, h0]
      rfl
    have h2047 : scale.toNat ≠ 2047 := by
      rw [h0]
      decide
    rw [if_neg h2047, if_pos h0]
    refine ⟨_, rfl, ?_⟩
    rw [number_fields, unpackedNumber, he]
  | case5 fraction scale exponent signBit sign hfull hscale =>
    intro _
    have h0 : scale.toNat ≠ 0 := fun h => hscale (BitVec.eq_of_toNat_eq h)
    have h2047 : scale.toNat ≠ 2047 := fun h => hfull (BitVec.eq_of_toNat_eq h)
    have hm : (1#1 ++ fraction).toNat = Nat.pow 2 52 + fraction.toNat := by
      have hor := Nat.two_pow_add_eq_or_of_lt fraction.isLt 1
      rw [Nat.mul_one] at hor
      rw [BitVec.toNat_append]
      exact hor.symm
    rw [if_neg h2047, if_neg h0]
    refine ⟨_, rfl, ?_⟩
    rw [number_fields, unpackedNumber, hm]
    rfl

/-! ## Rounded quotients -/

theorem roundQuotient_eq (n : ℕ) {d : ℕ} (hd : 0 < d) :
    (roundQuotient n d : ℤ) = nearestEven (n / d) := by
  have hround : roundQuotient n d =
      (accuracyOfFraction (n % d) d).roundToNearestEven (n / d) := by
    unfold roundQuotient accuracyOfFraction
    rcases lt_trichotomy (2 * (n % d)) d with h | h | h
    · rw [if_pos h, compare_lt_iff_lt.mpr h]
      split <;> rfl
    · have hrest : n % d ≠ 0 := by omega
      rw [if_neg h.not_lt, if_neg h.not_gt, compare_eq_iff_eq.mpr h, if_neg hrest]
      show _ = n / d + n / d % 2
      split <;> omega
    · have hrest : n % d ≠ 0 := by omega
      rw [if_neg h.not_gt, if_pos h, compare_gt_iff_gt.mpr h, if_neg hrest]
      rfl
  rw [hround]
  exact (nearestEven_eq (cut_fraction n hd).nearest).symm

/-! ## Numbers that are not rounded -/

theorem rounded_natCast {n : ℕ} (h : n < 2 ^ 53) : rounded n = n := by
  have hbit : lastBit n ≤ 0 := by
    have hlog : Int.log 2 (n : ℚ) = Nat.log 2 n := Int.log_natCast ..
    have := Nat.log_lt_of_lt_pow' (b := 2) (by decide : 53 ≠ 0) h
    rw [lastBit, Nat.abs_cast, hlog]
    omega
  apply rounded_of_multiple (n := n * 2 ^ (-lastBit n).toNat)
  push_cast
  rw [mul_assoc, ← zpow_natCast, ← zpow_add₀ two_ne_zero, Int.toNat_of_nonneg (by omega),
    neg_add_cancel, zpow_zero, mul_one]

theorem rounded_number {x : Float} (hx : x.isFinite = true) : rounded (number x) = number x :=
  ((isRounded_self (isNaN_of_isFinite hx)).number_of_isFinite hx).symm

end TimingCharts
