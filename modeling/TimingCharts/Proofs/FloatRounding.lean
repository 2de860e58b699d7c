import TimingCharts.Proofs.FloatNumbers

/-!
# How floats are rounded

An operation computes more bits than a float has, drops the last ones by shifting and rounds by what
it remembers of those: `Cut` says what that is. Main statement: `roundsTo_roundWithAccuracy`, the
result is the exact number rounded, in the form of a float but for an exponent that may be too great.
-/

namespace TimingCharts

open Float.Model Float.Model.UnpackedFloat

/-! ## Dropped bits -/

/-- What is remembered of a number that was cut down to a whole number. -/
def Cut (m : ℕ) (q : ℚ) : Accuracy → Prop
  | .exact => q = m
  | .inexact .lt => m < q ∧ q < m + 1 / 2
  | .inexact .eq => q = m + 1 / 2
  | .inexact .gt => m + 1 / 2 < q ∧ q < m + 1

namespace Cut
variable {m : ℕ} {q : ℚ} {a : Accuracy}

theorem bounds (h : Cut m q a) : m ≤ q ∧ q < m + 1 := by
  match a, h with
  | .exact, h => exact ⟨h.ge, by rw [h]; exact lt_add_one _⟩
  | .inexact .lt, h => exact ⟨h.1.le, by linarith [h.2]⟩
  | .inexact .eq, h => exact ⟨by linarith [h.ge], by linarith [h.le]⟩
  | .inexact .gt, h => exact ⟨by linarith [h.1], h.2⟩

theorem nearest (h : Cut m q a) : Nearest q (a.roundToNearestEven m : ℕ) := by
  match a, h with
  | .exact, h =>
    rw [show q = ((m : ℤ) : ℚ) by exact_mod_cast h]
    exact nearest_intCast m
  | .inexact .lt, h =>
    left
    rw [abs_lt]
    simp only [Accuracy.roundToNearestEven]
    push_cast
    constructor <;> linarith [h.1, h.2]
  | .inexact .eq, h =>
    right
    have h : q = m + 1 / 2 := h
    simp only [Accuracy.roundToNearestEven]
    rcases Nat.mod_two_eq_zero_or_one m with hm | hm
    · rw [hm, h]
      refine ⟨by push_cast; norm_num, ?_⟩
      exact_mod_cast Nat.even_iff.mpr hm
    · rw [hm, h]
      refine ⟨by push_cast; norm_num, ?_⟩
      have : Even (m + 1) := Nat.even_iff.mpr (by omega)
      exact_mod_cast this
  | .inexact .gt, h =>
    left
    rw [abs_lt]
    simp only [Accuracy.roundToNearestEven]
    push_cast
    constructor <;> linarith [h.1, h.2]

end Cut

theorem cut_ofMantissaAndAccuracy {m : ℕ} {q : ℚ} {a : Accuracy} (h : Cut m q a) :
    Cut (ExtendedMantissa.ofMantissaAndAccuracy m a).mantissa q
      (ExtendedMantissa.ofMantissaAndAccuracy m a).accuracy := by
  match a, h with
  | .exact, h | .inexact .lt, h | .inexact .eq, h | .inexact .gt, h => exact h

theorem cut_shiftRightOne {em : ExtendedMantissa} {q : ℚ} (h : Cut em.mantissa q em.accuracy) :
    Cut em.shiftRightOne.mantissa (q / 2) em.shiftRightOne.accuracy := by
  obtain ⟨m, round, sticky⟩ := em
  obtain ⟨k, rfl | rfl⟩ := Nat.even_or_odd' m
  · have hshift : ExtendedMantissa.shiftRightOne ⟨2 * k, round, sticky⟩ =
        ⟨k, false, round || sticky⟩ := by
      simp [ExtendedMantissa.shiftRightOne]
    rw [hshift]
    cases round <;> cases sticky <;>
      simp only [Cut, ExtendedMantissa.accuracy, Bool.or_false, Bool.or_true, Nat.cast_mul,
        Nat.cast_ofNat] at h ⊢
    · linarith
    · constructor <;> linarith
    · constructor <;> linarith
    · constructor <;> linarith
  · have hshift : ExtendedMantissa.shiftRightOne ⟨2 * k + 1, round, sticky⟩ =
        ⟨k, true, round || sticky⟩ := by
      simp [ExtendedMantissa.shiftRightOne]
      omega
    rw [hshift]
    cases round <;> cases sticky <;>
      simp only [Cut, ExtendedMantissa.accuracy, Bool.or_false, Bool.or_true, Nat.cast_add,
        Nat.cast_mul, Nat.cast_ofNat, Nat.cast_one] at h ⊢
    · linarith
    · constructor <;> linarith
    · constructor <;> linarith
    · constructor <;> linarith

theorem cut_shiftRight {em : ExtendedMantissa} {q : ℚ} (h : Cut em.mantissa q em.accuracy)
    (n : ℕ) : Cut (em >>> n).mantissa (q / 2 ^ n) (em >>> n).accuracy := by
  show Cut (n.repeat ExtendedMantissa.shiftRightOne em).mantissa _
    (n.repeat ExtendedMantissa.shiftRightOne em).accuracy
  induction n with
  | zero =>
    rw [pow_zero, div_one]
    exact h
  | succ n ih =>
    have hstep := cut_shiftRightOne ih
    rw [div_div, ← pow_succ] at hstep
    exact hstep

/-! ## Rounding -/

section
variable {q : ℚ} {m : ℕ} {e : ℤ} {a : Accuracy}

theorem log_of_cut (cut : Cut m (q / 2 ^ e) a) (hm : 0 < m) : Int.log 2 q = m.log2 + e := by
  have hpos : (0 : ℚ) < 2 ^ e := by positivity
  obtain ⟨low, high⟩ := cut.bounds
  rw [le_div_iff₀ hpos] at low
  rw [div_lt_iff₀ hpos] at high
  have hm' : (0 : ℚ) < m := by exact_mod_cast hm
  have hq : 0 < q := lt_of_lt_of_le (by positivity) low
  have hlow : (2 : ℚ) ^ (m.log2 + e) ≤ q := by
    have : (2 : ℚ) ^ m.log2 ≤ m := by exact_mod_cast Nat.log2_self_le hm.ne'
    rw [zpow_add₀ two_ne_zero, zpow_natCast]
    exact (mul_le_mul_of_nonneg_right this hpos.le).trans low
  have hhigh : q < (2 : ℚ) ^ (m.log2 + e + 1) := by
    have : (m : ℚ) + 1 ≤ 2 ^ (m.log2 + 1) := by exact_mod_cast Nat.lt_log2_self
    rw [add_right_comm, zpow_add₀ two_ne_zero]
    exact high.trans_le (mul_le_mul_of_nonneg_right (by exact_mod_cast this) hpos.le)
  have hge := (Int.zpow_le_iff_le_log Nat.one_lt_two hq).mp (by exact_mod_cast hlow)
  have hlt := (Int.lt_zpow_iff_log_lt Nat.one_lt_two hq).mp (by exact_mod_cast hhigh)
  omega

theorem targetExponent_of_cut (hq : 0 < q) (cut : Cut m (q / 2 ^ e) a)
    (hm : 0 < m ∨ e ≤ -1074) :
    Format.binary64.targetExponent (totalExponent m e) = lastBit q := by
  rw [targetExponent_eq, totalExponent, lastBit, abs_of_pos hq]
  rcases Nat.eq_zero_or_pos m with rfl | hpos
  · -- nothing is left, which happens only below the least last bit
    have he := hm.resolve_left (lt_irrefl 0)
    have hlt : q < 2 ^ e := by
      have := cut.bounds.2
      rw [div_lt_iff₀ (by positivity)] at this
      simpa using this
    have hlog := (Int.lt_zpow_iff_log_lt Nat.one_lt_two hq).mp (by exact_mod_cast hlt)
    rw [Nat.log2_zero]
    omega
  · rw [log_of_cut cut hpos]
    congr 1
    omega

end

/-! ## Results of rounding -/

/-- A float before it is packed: rounded, but with an exponent that may be too great. -/
def RoundsTo : UnpackedFloat → ℚ → Prop
  | .zero _, q => rounded q = 0
  | .finite s m e _, q => Canonical m e ∧ rounded q = signed s (m * 2 ^ e)
  | _, _ => False

theorem signed_rounded (s : Sign) (q : ℚ) : signed s (rounded q) = rounded (signed s q) := by
  cases s with
  | negative => exact (rounded_neg q).symm
  | positive => rfl

theorem shiftToTargetExponent_of_short {m : ℕ} {e : ℤ} (hm : m < 2 ^ 53) (he : -1074 ≤ e) :
    shiftToTargetExponent Format.binary64 m e .exact = (⟨m, false, false⟩, e) := by
  have hlog : m.log2 ≤ 52 := by
    rcases Nat.eq_zero_or_pos m with rfl | hpos
    · simp
    · have := (Nat.log2_lt hpos.ne').mpr hm
      omega
  have hshift : (Format.binary64.targetExponent (totalExponent m e) - e).toNat = 0 := by
    rw [targetExponent_eq, totalExponent]
    omega
  simp only [shiftToTargetExponent, shiftToExponent, hshift]
  simp [ExtendedMantissa.ofMantissaAndAccuracy, HShiftRight.hShiftRight, Nat.repeat]

theorem shiftToTargetExponent_of_carry {e : ℤ} (he : -1074 ≤ e) :
    shiftToTargetExponent Format.binary64 (2 ^ 53) e .exact = (⟨2 ^ 52, false, false⟩, e + 1) := by
  have hshift : (Format.binary64.targetExponent (totalExponent (2 ^ 53) e) - e).toNat = 1 := by
    rw [targetExponent_eq, totalExponent, Nat.log2_two_pow]
    omega
  simp only [shiftToTargetExponent, shiftToExponent, hshift]
  rfl

section
variable {q : ℚ} {m : ℕ} {e : ℤ} {a : Accuracy}

/-- The first shift leaves the bits of a float, and the rest as the accuracy. -/
theorem nearest_of_shift (hq : 0 < q) (cut : Cut m (q / 2 ^ e) a) (hm : 0 < m ∨ e ≤ -1074)
    (he : e ≤ lastBit q) :
    ∃ em : ExtendedMantissa,
      shiftToTargetExponent Format.binary64 m e a = (em, lastBit q) ∧
        (em.roundedMantissa : ℤ) = nearestEven (q / 2 ^ lastBit q) := by
  have hshift : e + ((lastBit q - e).toNat : ℤ) = lastBit q := by omega
  refine ⟨ExtendedMantissa.ofMantissaAndAccuracy m a >>> (lastBit q - e).toNat, ?_, ?_⟩
  · simp only [shiftToTargetExponent, shiftToExponent, targetExponent_of_cut hq cut hm, hshift]
  · have hcut := cut_shiftRight (cut_ofMantissaAndAccuracy cut) (lastBit q - e).toNat
    rw [div_div, ← zpow_natCast, ← zpow_add₀ two_ne_zero, hshift] at hcut
    exact (nearestEven_eq hcut.nearest).symm

theorem canonical_of_nearest {r : ℕ} (hq : 0 < q)
    (hr : (r : ℤ) = nearestEven (q / 2 ^ lastBit q)) :
    r ≤ 2 ^ 53 ∧ (2 ^ 52 ≤ r ∨ lastBit q = -1074) := by
  have hpos : (0 : ℚ) < 2 ^ lastBit q := by positivity
  constructor
  · have hle : q / 2 ^ lastBit q ≤ ((2 ^ 53 : ℤ) : ℚ) := by
      have := abs_lt_two_zpow q
      rw [abs_of_pos hq, add_comm, zpow_add₀ two_ne_zero] at this
      rw [div_le_iff₀ hpos]
      exact_mod_cast this.le
    have := nearestEven_mono hle
    rw [nearestEven_intCast, ← hr] at this
    exact_mod_cast this
  · by_cases hbit : lastBit q = -1074
    · exact .inr hbit
    · left
      have hle : ((2 ^ 52 : ℤ) : ℚ) ≤ q / 2 ^ lastBit q := by
        have := two_zpow_le_abs hq.ne' (lt_of_le_of_ne (least_le_lastBit q) (Ne.symm hbit))
        rw [abs_of_pos hq, add_comm, zpow_add₀ two_ne_zero] at this
        rw [le_div_iff₀ hpos]
        exact_mod_cast this
      have := nearestEven_mono hle
      rw [nearestEven_intCast, ← hr] at this
      exact_mod_cast this

theorem roundsTo_roundWithAccuracy (s : Sign) (hq : 0 < q) (cut : Cut m (q / 2 ^ e) a)
    (hm : 0 < m ∨ e ≤ -1074) (he : e ≤ lastBit q) :
    RoundsTo (roundWithAccuracy Format.binary64 s m e a) (signed s q) := by
  obtain ⟨em, hfirst, hr⟩ := nearest_of_shift hq cut hm he
  obtain ⟨hshort, hfull⟩ := canonical_of_nearest hq hr
  have hleast := least_le_lastBit q
  have hvalue : rounded q = em.roundedMantissa * 2 ^ lastBit q := by
    rw [rounded, ← hr]
    norm_cast
  unfold roundWithAccuracy
  rw [hfirst]
  rcases hshort.lt_or_eq with hlt | heq
  · -- the second shift changes nothing
    simp only [shiftToTargetExponent_of_short hlt hleast]
    split
    · next hzero =>
      show rounded _ = 0
      rw [← signed_rounded, hvalue, hzero]
      cases s <;> simp [signed]
    · next hzero =>
      refine ⟨⟨Nat.pos_of_ne_zero hzero, hlt, hleast, hfull⟩, ?_⟩
      rw [← signed_rounded, hvalue]
  · simp only [heq, shiftToTargetExponent_of_carry hleast]
    refine ⟨⟨by decide, by decide, by omega, .inl le_rfl⟩, ?_⟩
    rw [← signed_rounded, hvalue, heq, zpow_add₀ two_ne_zero]
    push_cast
    ring_nf

end

/-! ## Numbers that need no rounding -/

theorem cut_exact (m : ℕ) (e : ℤ) : Cut m ((m * 2 ^ e : ℚ) / 2 ^ e) .exact :=
  mul_div_cancel_right₀ _ (by positivity)

section
variable {m : ℕ} {e : ℤ}

theorem Canonical.lastBit_eq (h : Canonical m e) : lastBit (m * 2 ^ e) = e := by
  rw [← targetExponent_of_cut h.number_pos (cut_exact m e) (.inl h.pos), targetExponent_eq,
    totalExponent]
  have hshort := (Nat.log2_lt h.pos.ne').mpr h.short
  have hleast := h.least
  rcases h.full with hm | he
  · have := (Nat.le_log2 h.pos.ne').mpr hm
    omega
  · omega

theorem Canonical.rounded_eq (h : Canonical m e) : rounded (m * 2 ^ e : ℚ) = m * 2 ^ e :=
  rounded_of_multiple (n := m) (by rw [h.lastBit_eq]; norm_cast)

end

theorem roundsTo_self {a : UnpackedFloat} (ha : Stored a) (fin : a.isFinite = true) :
    RoundsTo a (unpackedNumber a) := by
  cases a with
  | notANumber | infinity => cases fin
  | zero s => exact rounded_zero
  | finite s m e hm =>
    refine ⟨ha.1, ?_⟩
    rw [unpackedNumber, ← signed_rounded, ha.1.rounded_eq]

end TimingCharts
