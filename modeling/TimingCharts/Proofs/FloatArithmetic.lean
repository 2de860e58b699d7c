import Mathlib

/-!
# Zero and one in floating point

A float is unpacked into sign, mantissa and exponent, the operation is done on these and rounded,
and the result is packed again. Two operations lose nothing on the way: `zero_add_float` (zero in
front of a sum, which only turns a negative zero into zero) and `div_one_float`.
-/

namespace TimingCharts

open Float.Model Float.Model.UnpackedFloat

theorem targetExponent_eq (t : Int) :
    Format.binary64.targetExponent t = max (t - 53) (-1074) := rfl

theorem targetExponent_of_unpack {b : BitVec Format.binary64.numBits} {s : Sign} {m : Nat} {e : Int}
    {hm : 0 < m} (h : UnpackedFloat.unpack Format.binary64 b = .finite s m e hm) :
    Format.binary64.targetExponent (totalExponent m e) = e := by
  rw [targetExponent_eq, totalExponent]
  revert h
  fun_cases UnpackedFloat.unpack with
  | case1 | case2 | case3 => nofun
  | case4 fraction scale exponent signBit sign _ hscale hfraction =>
    -- subnormal: the least exponent, and less than the full number of bits
    intro h
    injection h with _ hmantissa hexponent
    have hlog : m.log2 < 52 := by
      rw [← hmantissa] at hm ⊢
      exact (Nat.log2_lt hm.ne').mpr fraction.isLt
    have he : e = -1074 := by
      rw [← hexponent]
      simp only [exponent, hscale]
      rfl
    omega
  | case5 fraction scale exponent signBit sign hfull hscale =>
    -- normal: the full number of bits, the first of them not stored
    intro h
    injection h with _ hmantissa hexponent
    have hlt : fraction.toNat < 2 ^ 52 := fraction.isLt
    have hm' : m = 2 ^ 52 + fraction.toNat := by
      have hor := Nat.two_pow_add_eq_or_of_lt hlt 1
      rw [Nat.mul_one] at hor
      rw [← hmantissa, BitVec.toNat_append, hor]
      rfl
    have hlog : m.log2 = 52 := by
      rw [Nat.log2_eq_iff hm.ne']
      omega
    have hpos : scale.toNat ≠ 0 := fun h0 => hscale (BitVec.eq_of_toNat_eq h0)
    have he : -1074 ≤ e := by
      rw [← hexponent]
      show _ ≤ (scale.toNat : Int) - ((1023 : Nat) + (52 : Nat))
      omega
    omega

/-! ## Rounding what needs no rounding -/

section
variable {m : Nat} {e : Int}

theorem shiftToTargetExponent_self (h : Format.binary64.targetExponent (totalExponent m e) = e) :
    shiftToTargetExponent Format.binary64 m e .exact = (⟨m, false, false⟩, e) := by
  have hshift : (e - e).toNat = 0 := by omega
  simp only [shiftToTargetExponent, shiftToExponent, h, hshift]
  simp [ExtendedMantissa.ofMantissaAndAccuracy, HShiftRight.hShiftRight, Nat.repeat]

theorem totalExponent_double (hm : 0 < m) (e : Int) :
    totalExponent (2 * m) (e - 1) = totalExponent m e := by
  unfold totalExponent
  rw [Nat.log2_two_mul hm.ne']
  omega

theorem shiftToTargetExponent_double (hm : 0 < m)
    (h : Format.binary64.targetExponent (totalExponent m e) = e) :
    shiftToTargetExponent Format.binary64 (2 * m) (e - 1) .exact = (⟨m, false, false⟩, e) := by
  have hshift : (e - (e - 1)).toNat = 1 := by omega
  simp only [shiftToTargetExponent, shiftToExponent, totalExponent_double hm, h, hshift]
  simp [ExtendedMantissa.ofMantissaAndAccuracy, HShiftRight.hShiftRight, Nat.repeat,
    ExtendedMantissa.shiftRightOne]

theorem roundWithAccuracy_of_shift {m' : Nat} {e' : Int} (s : Sign) (hm : 0 < m)
    (h : Format.binary64.targetExponent (totalExponent m e) = e)
    (hshift : shiftToTargetExponent Format.binary64 m' e' .exact = (⟨m, false, false⟩, e)) :
    roundWithAccuracy Format.binary64 s m' e' .exact = .finite s m e hm := by
  have hround : ExtendedMantissa.roundedMantissa ⟨m, false, false⟩ = m := rfl
  simp only [roundWithAccuracy, hshift, hround, shiftToTargetExponent_self h, hm.ne', dite_false]

/-! ## Dividing by one -/

theorem divCore_one (h : Format.binary64.targetExponent (totalExponent m e) = e) :
    divCore Format.binary64 m e (2 ^ 52) (-52) = (m, e, .exact) ∨
      divCore Format.binary64 m e (2 ^ 52) (-52) = (2 * m, e - 1, .exact) := by
  have one : totalExponent (2 ^ 52) (-52) = 1 := rfl
  have shifted (k : Nat) : m <<< (52 + k) = m * 2 ^ k * 2 ^ 52 := by
    rw [Nat.shiftLeft_eq, pow_add, mul_left_comm, mul_comm]
  have quotient (k : Nat) : m <<< (52 + k) / 2 ^ 52 = m * 2 ^ k := by
    rw [shifted]
    exact Nat.mul_div_cancel _ (by decide)
  have remainder (k : Nat) : m <<< (52 + k) % 2 ^ 52 = 0 := by
    rw [shifted]
    exact Nat.mul_mod_left _ _
  rw [targetExponent_eq] at h
  by_cases least : totalExponent m e - 53 ≤ -1074
  · left
    have htarget : min (e - -52) (max (totalExponent m e - 1 - 53) (-1074)) = e := by omega
    have hshift : (e - -52 - e).toNat = 52 + 0 := by omega
    simp only [divCore, one, targetExponent_eq, htarget, hshift, quotient, remainder]
    simp [accuracyOfFraction]
  · right
    have htarget : min (e - -52) (max (totalExponent m e - 1 - 53) (-1074)) = e - 1 := by omega
    have hshift : (e - -52 - (e - 1)).toNat = 52 + 1 := by omega
    simp only [divCore, one, targetExponent_eq, htarget, hshift, quotient, remainder]
    simp [accuracyOfFraction, mul_comm]

end

theorem unpacked_div_one (x : Float.Model) :
    UnpackedFloat.div Format.binary64 x.unpack (.finite .positive (2 ^ 52) (-52) (by decide)) =
      x.unpack := by
  have sign (s : Sign) : s / Sign.positive = s := by cases s <;> rfl
  cases hx : x.unpack with
  | notANumber => rfl
  | infinity s => simp only [UnpackedFloat.div, sign]
  | zero s => simp only [UnpackedFloat.div, sign]
  | finite s m e hm =>
    have h := targetExponent_of_unpack hx
    simp only [UnpackedFloat.div, sign]
    rcases divCore_one h with hd | hd
    · rw [hd]
      exact roundWithAccuracy_of_shift s hm h (shiftToTargetExponent_self h)
    · rw [hd]
      exact roundWithAccuracy_of_shift s hm h (shiftToTargetExponent_double hm h)

theorem pack_unpack_model (x : Float.Model) : Float.Model.pack x.unpack = x := by
  obtain ⟨bits, valid⟩ := x
  unfold Float.Model.pack Float.Model.unpack
  congr 1
  exact UInt64.toBitVec_inj.mp (pack_unpack_of_valid valid)

theorem div_one_float (x : Float) : x / 1 = x := by
  have one : (1 : Float).toModel.unpack = .finite .positive (2 ^ 52) (-52) (by decide) := rfl
  show Float.ofModel (Float.Model.pack (UnpackedFloat.div _ x.toModel.unpack _)) = x
  rw [one, unpacked_div_one, pack_unpack_model]

/-! ## Adding to zero -/

theorem eq_of_unpack_eq {x y : Float} (h : x.toModel.unpack = y.toModel.unpack) : x = y := by
  have hm := congrArg Float.Model.pack h
  rw [pack_unpack_model, pack_unpack_model] at hm
  exact congrArg Float.ofModel hm

theorem zero_add_float (x : Float) : 0 + x = if x = -0 then 0 else x := by
  split
  · next h =>
    rw [h]
    rfl
  · next h =>
    have zero : (0 : Float).toModel.unpack = .zero .positive := rfl
    have hadd : UnpackedFloat.add Format.binary64 (.zero .positive) x.toModel.unpack =
        x.toModel.unpack := by
      cases hx : x.toModel.unpack with
      | notANumber | infinity | finite => rfl
      | zero s =>
        cases s with
        | positive => rfl
        | negative => exact absurd (eq_of_unpack_eq hx) h
    show Float.ofModel (Float.Model.pack (UnpackedFloat.add _ _ x.toModel.unpack)) = x
    rw [zero, hadd, pack_unpack_model]

end TimingCharts
