import TimingCharts.Proofs.FloatArithmetic
import TimingCharts.Proofs.Rounding

/-!
# The number of a float

A finite float is a sign, a significand and a power of two, in the one form that `Canonical`
describes. `number` gives its value. An infinity counts as the power of two that follows the
greatest float, so that floats compare as their numbers do (`lt_iff_number`, `le_iff_number`).
-/

namespace TimingCharts

open Float.Model Float.Model.UnpackedFloat

/-! ## Canonical forms -/

/-- A float has at most 53 significant bits, and fewer only at the least exponent. -/
structure Canonical (m : ℕ) (e : ℤ) : Prop where
  pos : 0 < m
  short : m < 2 ^ 53
  least : -1074 ≤ e
  full : 2 ^ 52 ≤ m ∨ e = -1074

theorem canonical_of_targetExponent {m : ℕ} {e : ℤ} (hm : 0 < m)
    (h : Format.binary64.targetExponent (totalExponent m e) = e) : Canonical m e := by
  rw [targetExponent_eq, totalExponent] at h
  have hlog : m.log2 < 53 := by omega
  refine ⟨hm, (Nat.log2_lt hm.ne').mp hlog, by omega, ?_⟩
  by_cases he : e = -1074
  · exact .inr he
  · left
    have hfull : 52 ≤ m.log2 := by omega
    exact (Nat.le_log2 hm.ne').mp hfull

theorem exponent_le_of_unpack {b : BitVec Format.binary64.numBits} {s : Sign} {m : ℕ} {e : ℤ}
    {hm : 0 < m} (h : UnpackedFloat.unpack Format.binary64 b = .finite s m e hm) : e ≤ 971 := by
  revert h
  fun_cases UnpackedFloat.unpack with
  | case1 | case2 | case3 => nofun
  | case4 fraction scale exponent signBit sign _ hscale hfraction =>
    intro h
    injection h with _ _ hexponent
    have he : e = -1074 := by
      rw [← hexponent]
      simp only [exponent, hscale]
      rfl
    omega
  | case5 fraction scale exponent signBit sign hfull hscale =>
    intro h
    injection h with _ _ hexponent
    have hlt : scale.toNat < 2048 := scale.isLt
    have hne : scale.toNat ≠ 2047 := fun h => hfull (BitVec.eq_of_toNat_eq h)
    rw [← hexponent]
    show (scale.toNat : Int) - ((1023 : Nat) + (52 : Nat)) ≤ 971
    omega

/-! ## Packing -/

section
variable {s : Sign} {m : ℕ} {e : ℤ}

theorem biasedExponent_eq (he : -1074 ≤ e) :
    ((e + Format.binary64.exponentBias + Format.binary64.mantissaBitsWithoutImplicit).toNat : ℤ) =
      e + 1075 := by
  show ((e + 1023 + 52).toNat : ℤ) = _
  omega

theorem unpack_pack_normal (hm : 2 ^ 52 ≤ m) (hm' : m < 2 ^ 53) (he : -1074 ≤ e) (he' : e ≤ 971)
    (pos : 0 < m) :
    UnpackedFloat.unpack Format.binary64
        (UnpackedFloat.pack Format.binary64 (.finite s m e pos)) = .finite s m e pos := by
  have hbiased := biasedExponent_eq he
  unfold UnpackedFloat.pack
  extract_lets bits biased
  have hbits : bits + 1 = Format.binary64.mantissaBits := by
    show m.log2 + 1 = 53
    rw [(Nat.log2_eq_iff pos.ne').mpr ⟨hm, hm'⟩]
  have hfits : ¬ 2 ^ Format.binary64.exponentBits ≤ biased + 1 := by
    show ¬ 2048 ≤ biased + 1
    omega
  rw [if_neg hfits, if_pos hbits]
  have hscale : (BitVec.ofNat 11 biased).toNat = biased := by
    rw [BitVec.toNat_ofNat, Nat.mod_eq_of_lt (by omega)]
  have hzero : BitVec.ofNat 11 biased ≠ 0#11 := by
    intro h
    rw [h] at hscale
    simp at hscale
    omega
  have hones : BitVec.ofNat 11 biased ≠ -1#11 := by
    intro h
    rw [h] at hscale
    simp at hscale
    omega
  have hmantissa : (1#1 ++ BitVec.ofNat 52 m).toNat = m := by
    have hor := Nat.two_pow_add_eq_or_of_lt (Nat.mod_lt m (Nat.two_pow_pos 52)) 1
    rw [BitVec.toNat_append, BitVec.toNat_ofNat]
    show 2 ^ 52 * 1 ||| m % 2 ^ 52 = m
    rw [← hor]
    omega
  unfold UnpackedFloat.unpack
  simp only [unpackExponent_packComponents, unpackMantissa_packComponents,
    unpackSign_packComponents, Sign.ofBitVec_toBitVec, hzero, hones, if_false, hmantissa, hscale]
  congr 1
  show (biased : ℤ) - (1023 + 52) = e
  omega

theorem unpack_pack_subnormal (hm : m < 2 ^ 52) (pos : 0 < m) :
    UnpackedFloat.unpack Format.binary64
        (UnpackedFloat.pack Format.binary64 (.finite s m (-1074) pos)) =
      .finite s m (-1074) pos := by
  unfold UnpackedFloat.pack
  extract_lets bits biased
  have hbits : ¬ bits + 1 = Format.binary64.mantissaBits := by
    have := (Nat.log2_lt pos.ne').mpr hm
    show ¬ m.log2 + 1 = 53
    omega
  have hfits : ¬ 2 ^ Format.binary64.exponentBits ≤ biased + 1 := by decide
  rw [if_neg hfits, if_neg hbits]
  have hmantissa : (BitVec.ofNat 52 m).toNat = m := by
    rw [BitVec.toNat_ofNat, Nat.mod_eq_of_lt hm]
  have hzero : BitVec.ofNat 52 m ≠ 0#52 := by
    intro h
    rw [h] at hmantissa
    exact pos.ne hmantissa
  have hones : ¬ 0#11 = -1#11 := by decide
  unfold UnpackedFloat.unpack
  simp only [unpackExponent_packComponents, unpackMantissa_packComponents,
    unpackSign_packComponents, Sign.ofBitVec_toBitVec, hzero, hones, if_true, if_false, dif_neg,
    not_false_eq_true, hmantissa]
  congr 1

theorem unpack_pack (h : Canonical m e) (he : e ≤ 971) :
    (Float.Model.pack (.finite s m e h.pos)).unpack = .finite s m e h.pos := by
  show UnpackedFloat.unpack Format.binary64 (UnpackedFloat.pack Format.binary64 _) = _
  by_cases hm : 2 ^ 52 ≤ m
  · exact unpack_pack_normal hm h.short h.least he h.pos
  · obtain rfl : e = -1074 := h.full.resolve_left hm
    exact unpack_pack_subnormal (not_le.mp hm) h.pos

theorem unpack_pack_infinity :
    (Float.Model.pack (.infinity s)).unpack = .infinity s := by
  cases s <;> rfl

theorem unpack_pack_zero : (Float.Model.pack (.zero s)).unpack = .zero s := by
  cases s <;> rfl

theorem unpack_pack_overflow (he : 971 < e) (pos : 0 < m) :
    (Float.Model.pack (.finite s m e pos)).unpack = .infinity s := by
  have hbiased := biasedExponent_eq (e := e) (by omega)
  have hpack : UnpackedFloat.pack Format.binary64 (.finite s m e pos) =
      UnpackedFloat.pack Format.binary64 (.infinity s) := by
    unfold UnpackedFloat.pack
    extract_lets bits biased
    have hfull : 2 ^ Format.binary64.exponentBits ≤ biased + 1 := by
      show 2048 ≤ biased + 1
      omega
    rw [if_pos hfull]
  rw [← unpack_pack_infinity, Float.Model.pack, Float.Model.pack]
  simp only [hpack]

end

/-! ## Numbers -/

def signed (s : Sign) (q : ℚ) : ℚ :=
  match s with
  | .negative => -q
  | .positive => q

/-- The power of two that follows the greatest float. -/
def overflow : ℚ := 2 ^ (1024 : ℤ)

theorem overflow_pos : 0 < overflow := zpow_pos two_pos _

def unpackedNumber : UnpackedFloat → ℚ
  | .notANumber => 0
  | .infinity s => signed s overflow
  | .zero _ => 0
  | .finite s m e _ => signed s (m * 2 ^ e)

/-- The value of a float. An infinity counts as `overflow`, and what is not a number as zero. -/
def number (x : Float) : ℚ := unpackedNumber x.toModel.unpack

theorem unpackedNumber_zero (s : Sign) : unpackedNumber (.zero s) = 0 := rfl

theorem number_zero : number 0 = 0 := rfl

theorem number_of_unpack {x : Float} {m : ℕ} {e : ℤ} {hm : 0 < m}
    (h : x.toModel.unpack = .finite .positive m e hm) : number x = m * 2 ^ e := by
  rw [number, h]
  rfl

def Stored : UnpackedFloat → Prop
  | .finite _ m e _ => Canonical m e ∧ e ≤ 971
  | _ => True

theorem stored_unpack (x : Float.Model) : Stored x.unpack := by
  cases h : x.unpack with
  | notANumber | infinity | zero => trivial
  | finite s m e hm =>
    exact ⟨canonical_of_targetExponent hm (targetExponent_of_unpack h), exponent_le_of_unpack h⟩

namespace Canonical
variable {m m' : ℕ} {e e' : ℤ}

theorem number_pos (h : Canonical m e) : (0 : ℚ) < m * 2 ^ e := by
  have : (0 : ℚ) < m := by exact_mod_cast h.pos
  positivity

theorem number_lt (h : Canonical m e) : (m : ℚ) * 2 ^ e < 2 ^ (e + 53) := by
  have hm : (m : ℚ) < 2 ^ (53 : ℤ) := by exact_mod_cast h.short
  rw [zpow_add₀ two_ne_zero, mul_comm]
  exact mul_lt_mul_of_pos_left hm (by positivity)

theorem le_number (h : Canonical m e) (he : -1074 < e) : 2 ^ (e + 52) ≤ (m : ℚ) * 2 ^ e := by
  have hm : (2 : ℚ) ^ (52 : ℤ) ≤ m := by exact_mod_cast h.full.resolve_right (by omega)
  rw [zpow_add₀ two_ne_zero, mul_comm]
  exact mul_le_mul_of_nonneg_right hm (by positivity)

theorem number_lt_of_exponent_lt (h : Canonical m e) (h' : Canonical m' e') (he : e < e') :
    (m : ℚ) * 2 ^ e < m' * 2 ^ e' :=
  calc (m : ℚ) * 2 ^ e < 2 ^ (e + 53) := h.number_lt
    _ ≤ 2 ^ (e' + 52) := zpow_le_zpow_right₀ one_le_two (by omega)
    _ ≤ m' * 2 ^ e' := h'.le_number (h.least.trans_lt he)

theorem compare_number (h : Canonical m e) (h' : Canonical m' e') :
    (compare e e').then (compare m m') = compare ((m : ℚ) * 2 ^ e) (m' * 2 ^ e') := by
  rcases lt_trichotomy e e' with he | rfl | he
  · rw [compare_lt_iff_lt.mpr he, compare_lt_iff_lt.mpr (h.number_lt_of_exponent_lt h' he)]
    rfl
  · have hpos : (0 : ℚ) < 2 ^ e := by positivity
    rw [compare_eq_iff_eq.mpr rfl]
    show compare m m' = _
    rcases lt_trichotomy m m' with hm | rfl | hm
    · rw [compare_lt_iff_lt.mpr hm, compare_lt_iff_lt.mpr]
      exact mul_lt_mul_of_pos_right (by exact_mod_cast hm) hpos
    · rw [compare_eq_iff_eq.mpr rfl, compare_eq_iff_eq.mpr rfl]
    · rw [compare_gt_iff_gt.mpr hm, compare_gt_iff_gt.mpr]
      exact mul_lt_mul_of_pos_right (by exact_mod_cast hm) hpos
  · rw [compare_gt_iff_gt.mpr he, compare_gt_iff_gt.mpr (h'.number_lt_of_exponent_lt h he)]
    rfl

end Canonical

/-! ## Order -/

theorem compare_neg_neg (p q : ℚ) : compare (-p) (-q) = (compare p q).swap := by
  rcases lt_trichotomy p q with h | rfl | h
  · rw [compare_lt_iff_lt.mpr h, compare_gt_iff_gt.mpr (neg_lt_neg h)]
    rfl
  · rw [compare_eq_iff_eq.mpr rfl, compare_eq_iff_eq.mpr rfl]
    rfl
  · rw [compare_gt_iff_gt.mpr h, compare_lt_iff_lt.mpr (neg_lt_neg h)]
    rfl

theorem abs_signed (s : Sign) (q : ℚ) : |signed s q| = |q| := by
  cases s with
  | negative => exact abs_neg q
  | positive => rfl

theorem abs_number_lt {s : Sign} {m : ℕ} {e : ℤ} {hm : 0 < m} (h : Stored (.finite s m e hm)) :
    |unpackedNumber (.finite s m e hm)| < overflow := by
  rw [unpackedNumber, abs_signed, abs_of_pos h.1.number_pos]
  exact h.1.number_lt.trans_le (zpow_le_zpow_right₀ one_le_two (by have := h.2; omega))

theorem compare_unpacked {a b : UnpackedFloat} (ha : Stored a) (hb : Stored b)
    (na : a ≠ .notANumber) (nb : b ≠ .notANumber) :
    a.compare b = some (compare (unpackedNumber a) (unpackedNumber b)) := by
  have below {p q : ℚ} (h : p < q) : some .lt = some (compare p q) := by
    rw [compare_lt_iff_lt.mpr h]
  have above {p q : ℚ} (h : q < p) : some .gt = some (compare p q) := by
    rw [compare_gt_iff_gt.mpr h]
  have same (q : ℚ) : some .eq = some (compare q q) := by
    rw [compare_eq_iff_eq.mpr rfl]
  have top := overflow_pos
  cases a with
  | notANumber => exact absurd rfl na
  | infinity s =>
    cases b with
    | notANumber => exact absurd rfl nb
    | infinity s' =>
      cases s <;> cases s'
      · exact same _
      · exact below (neg_lt_self top)
      · exact above (neg_lt_self top)
      · exact same _
    | zero s' =>
      cases s
      · exact below (neg_lt_zero.mpr top)
      · exact above top
    | finite s' m e hm =>
      obtain ⟨low, high⟩ := abs_lt.mp (abs_number_lt hb)
      cases s
      · exact below low
      · exact above high
  | zero s =>
    cases b with
    | notANumber => exact absurd rfl nb
    | infinity s' =>
      cases s'
      · exact above (neg_lt_zero.mpr top)
      · exact below top
    | zero s' => exact same 0
    | finite s' m e hm =>
      cases s'
      · exact above (neg_lt_zero.mpr hb.1.number_pos)
      · exact below hb.1.number_pos
  | finite s m e hm =>
    have pos := ha.1.number_pos
    cases b with
    | notANumber => exact absurd rfl nb
    | infinity s' =>
      obtain ⟨low, high⟩ := abs_lt.mp (abs_number_lt ha)
      cases s'
      · exact above low
      · exact below high
    | zero s' =>
      cases s
      · exact below (neg_lt_zero.mpr pos)
      · exact above pos
    | finite s' m' e' hm' =>
      -- of two negative numbers the one with the lesser magnitude is greater
      have pos' := hb.1.number_pos
      have hcompare := ha.1.compare_number hb.1
      cases s <;> cases s'
      · show some (Ordering.swap _) = some (compare (-_) (-_))
        rw [hcompare, compare_neg_neg]
      · exact below ((neg_lt_zero.mpr pos).trans pos')
      · exact above ((neg_lt_zero.mpr pos').trans pos)
      · exact congrArg some hcompare

section
variable {x y : Float}

theorem unpack_ne_of_isNaN (h : x.isNaN = false) : x.toModel.unpack ≠ .notANumber := by
  intro hx
  have : x.toModel.unpack.isNaN = false := h
  rw [hx] at this
  cases this

theorem compare_number (hx : x.isNaN = false) (hy : y.isNaN = false) :
    x.toModel.unpack.compare y.toModel.unpack = some (compare (number x) (number y)) :=
  compare_unpacked (stored_unpack _) (stored_unpack _) (unpack_ne_of_isNaN hx)
    (unpack_ne_of_isNaN hy)

theorem lt_iff_number (hx : x.isNaN = false) (hy : y.isNaN = false) :
    x < y ↔ number x < number y := by
  show decide (UnpackedFloat.lt _ _ = true) = true ↔ _
  rw [decide_eq_true_iff, UnpackedFloat.lt, compare_number hx hy, beq_iff_eq, Option.some.injEq,
    compare_lt_iff_lt]

theorem le_iff_number (hx : x.isNaN = false) (hy : y.isNaN = false) :
    x ≤ y ↔ number x ≤ number y := by
  show decide (UnpackedFloat.le _ _ = true) = true ↔ _
  rw [decide_eq_true_iff, UnpackedFloat.le, compare_number hx hy, Option.any_some,
    Ordering.isLE_iff_ne_gt, compare_gt_iff_gt, not_lt]

theorem isNaN_of_compare {o : Ordering}
    (h : x.toModel.unpack.compare y.toModel.unpack = some o) :
    x.isNaN = false ∧ y.isNaN = false := by
  show x.toModel.unpack.isNaN = false ∧ y.toModel.unpack.isNaN = false
  cases hx : x.toModel.unpack with
  | notANumber =>
    rw [hx] at h
    cases h
  | infinity | zero | finite =>
    refine ⟨rfl, ?_⟩
    cases hy : y.toModel.unpack with
    | notANumber =>
      rw [hx, hy] at h
      cases h
    | infinity | zero | finite => rfl

theorem isNaN_of_lt (h : x < y) : x.isNaN = false ∧ y.isNaN = false := by
  have h : decide (UnpackedFloat.lt _ _ = true) = true := h
  rw [decide_eq_true_iff, UnpackedFloat.lt, beq_iff_eq] at h
  exact isNaN_of_compare h

theorem isNaN_of_le (h : x ≤ y) : x.isNaN = false ∧ y.isNaN = false := by
  have h : decide (UnpackedFloat.le _ _ = true) = true := h
  rw [decide_eq_true_iff, UnpackedFloat.le, Option.any_eq_true] at h
  obtain ⟨o, h, -⟩ := h
  exact isNaN_of_compare h

theorem isFinite_iff_number : x.isFinite = true ↔ x.isNaN = false ∧ |number x| < overflow := by
  have hstored := stored_unpack x.toModel
  show x.toModel.unpack.isFinite = true ↔ x.toModel.unpack.isNaN = false ∧
    |unpackedNumber x.toModel.unpack| < _
  cases hx : x.toModel.unpack with
  | notANumber => simp [UnpackedFloat.isFinite, UnpackedFloat.isNaN]
  | infinity s => simp [UnpackedFloat.isFinite, unpackedNumber, abs_signed, abs_of_pos overflow_pos]
  | zero s =>
    simp only [UnpackedFloat.isFinite, UnpackedFloat.isNaN, unpackedNumber, abs_zero, true_and]
    exact iff_of_true trivial overflow_pos
  | finite s m e hm =>
    rw [hx] at hstored
    exact iff_of_true rfl ⟨rfl, abs_number_lt hstored⟩

theorem isNaN_of_isFinite (h : x.isFinite = true) : x.isNaN = false := (isFinite_iff_number.mp h).1

theorem finite_cases (h : x.isFinite = true) :
    (∃ s, x.toModel.unpack = .zero s) ∨
      ∃ s m e, ∃ can : Canonical m e, e ≤ 971 ∧ x.toModel.unpack = .finite s m e can.pos := by
  have hstored := stored_unpack x.toModel
  have h : x.toModel.unpack.isFinite = true := h
  cases hx : x.toModel.unpack with
  | notANumber | infinity =>
    rw [hx] at h
    cases h
  | zero s => exact .inl ⟨s, rfl⟩
  | finite s m e hm =>
    rw [hx] at hstored
    exact .inr ⟨s, m, e, hstored.1, hstored.2, rfl⟩

end

section
variable {x y z : Float}

theorem float_le_refl (hx : x.isNaN = false) : x ≤ x := (le_iff_number hx hx).mpr le_rfl

theorem float_le_of_lt (h : x < y) : x ≤ y := by
  obtain ⟨hx, hy⟩ := isNaN_of_lt h
  rw [lt_iff_number hx hy] at h
  exact (le_iff_number hx hy).mpr h.le

theorem float_le_of_not_lt (hx : x.isNaN = false) (hy : y.isNaN = false) (h : ¬ x < y) : y ≤ x := by
  rw [lt_iff_number hx hy, not_lt] at h
  exact (le_iff_number hy hx).mpr h

theorem number_eq_of_not_lt (h : x ≤ y) (h' : ¬ x < y) : number x = number y := by
  obtain ⟨hx, hy⟩ := isNaN_of_le h
  rw [le_iff_number hx hy] at h
  rw [lt_iff_number hx hy] at h'
  exact le_antisymm h (not_lt.mp h')

theorem float_le_trans (h : x ≤ y) (h' : y ≤ z) : x ≤ z := by
  obtain ⟨hx, hy⟩ := isNaN_of_le h
  have hz := (isNaN_of_le h').2
  rw [le_iff_number hx hy] at h
  rw [le_iff_number hy hz] at h'
  exact (le_iff_number hx hz).mpr (h.trans h')

theorem float_lt_of_le_of_lt (h : x ≤ y) (h' : y < z) : x < z := by
  obtain ⟨hx, hy⟩ := isNaN_of_le h
  have hz := (isNaN_of_lt h').2
  rw [le_iff_number hx hy] at h
  rw [lt_iff_number hy hz] at h'
  exact (lt_iff_number hx hz).mpr (h.trans_lt h')

theorem float_lt_of_lt_of_le (h : x < y) (h' : y ≤ z) : x < z := by
  obtain ⟨hx, hy⟩ := isNaN_of_lt h
  have hz := (isNaN_of_le h').2
  rw [lt_iff_number hx hy] at h
  rw [le_iff_number hy hz] at h'
  exact (lt_iff_number hx hz).mpr (h.trans_le h')

end

end TimingCharts
