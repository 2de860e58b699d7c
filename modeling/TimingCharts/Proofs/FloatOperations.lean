import TimingCharts.Proofs.FloatRounding

/-!
# Operations on floats

The result of an operation on finite floats is the exact result, rounded and cut off at the
infinities (`IsRounded`). Since rounding keeps order, a float that is at most the exact result is at
most the float result (`IsRounded.le_of_number_le`), and so on the other side.
-/

namespace TimingCharts

open Float.Model Float.Model.UnpackedFloat

/-! ## Sums -/

theorem signed_mul (s : Sign) (p q : ℚ) : signed s p * q = signed s (p * q) := by
  cases s with
  | negative => exact neg_mul p q
  | positive => rfl

theorem decreaseExponent_number (s : Sign) (m : ℕ) {e t : ℤ} (h : t ≤ e) :
    ((s.apply (decreaseExponent m e t).1 : ℤ) : ℚ) * 2 ^ t = signed s (m * 2 ^ e) := by
  have happly (n : ℕ) : ((s.apply n : ℤ) : ℚ) = signed s n := by cases s <;> simp [Sign.apply, signed]
  have he : e = (e - t).toNat + t := by omega
  rw [happly, signed_mul, decreaseExponent, Nat.shiftLeft_eq]
  push_cast
  conv_rhs => rw [he, zpow_add₀ two_ne_zero, zpow_natCast]
  ring_nf

theorem signed_neg (s : Sign) (q : ℚ) : signed (-s) q = -signed s q := by
  cases s with
  | negative => exact (neg_neg q).symm
  | positive => rfl

theorem roundsTo_round (s : Sign) {m : ℕ} (hm : 0 < m) (e : ℤ) :
    RoundsTo (UnpackedFloat.round Format.binary64 s m e) (signed s (m * 2 ^ e)) := by
  have hm' : (0 : ℚ) < m := by exact_mod_cast hm
  have hq : (0 : ℚ) < m * 2 ^ e := by positivity
  have htarget := targetExponent_of_cut hq (cut_exact m e) (.inl hm)
  let k := (e - lastBit (m * 2 ^ e)).toNat
  have hvalue : ((m <<< k : ℕ) : ℚ) = m * 2 ^ e / 2 ^ (e - k) := by
    rw [Nat.shiftLeft_eq, eq_div_iff (by positivity), zpow_sub₀ two_ne_zero, zpow_natCast]
    push_cast
    field_simp
  unfold UnpackedFloat.round
  simp only [htarget, decreaseExponent]
  refine roundsTo_roundWithAccuracy s hq hvalue.symm (.inl ?_) ?_
  · rw [Nat.shiftLeft_eq]
    positivity
  · show e - (k : ℤ) ≤ _
    omega

theorem roundsTo_normalize (n : ℤ) (e : ℤ) (zeroSign : Sign) :
    RoundsTo (UnpackedFloat.normalize Format.binary64 n e zeroSign) (n * 2 ^ e) := by
  unfold UnpackedFloat.normalize
  rcases lt_trichotomy n 0 with hn | rfl | hn
  · have habs : (n : ℚ) = -((-n).toNat : ℚ) := by
      have : n = -((-n).toNat : ℤ) := by omega
      exact_mod_cast congrArg (Int.cast (R := ℚ)) this
    rw [Int.compare_eq_lt.mpr hn, habs, neg_mul]
    exact roundsTo_round .negative (by omega) e
  · show rounded _ = 0
    rw [Int.cast_zero, zero_mul, rounded_zero]
  · have habs : (n : ℚ) = (n.toNat : ℚ) := by
      have : n = (n.toNat : ℤ) := by omega
      exact_mod_cast congrArg (Int.cast (R := ℚ)) this
    rw [Int.compare_eq_gt.mpr hn, habs]
    exact roundsTo_round .positive (by omega) e

section
variable {a b : UnpackedFloat} (ha : Stored a) (hb : Stored b) (fa : a.isFinite = true)
  (fb : b.isFinite = true)
include ha hb fa fb

theorem roundsTo_add :
    RoundsTo (UnpackedFloat.add Format.binary64 a b) (unpackedNumber a + unpackedNumber b) := by
  have hself := roundsTo_self ha fa
  have hself' := roundsTo_self hb fb
  cases a with
  | notANumber | infinity => cases fa
  | zero s =>
    rw [unpackedNumber_zero, zero_add]
    cases b with
    | notANumber | infinity => cases fb
    | zero s' =>
      cases s <;> cases s' <;> exact rounded_zero
    | finite s' m' e' hm' => exact hself'
  | finite s m e hm =>
    cases b with
    | notANumber | infinity => cases fb
    | zero s' =>
      rw [unpackedNumber_zero, add_zero]
      exact hself
    | finite s' m' e' hm' =>
      have hsum := roundsTo_normalize
        (s.apply (decreaseExponent m e (min e e')).1 + s'.apply (decreaseExponent m' e' (min e e')).1)
        (min e e') .positive
      rw [Int.cast_add, add_mul, decreaseExponent_number s m (min_le_left e e'),
        decreaseExponent_number s' m' (min_le_right e e')] at hsum
      exact hsum

theorem roundsTo_sub :
    RoundsTo (UnpackedFloat.sub Format.binary64 a b) (unpackedNumber a - unpackedNumber b) := by
  have hself := roundsTo_self ha fa
  have hself' := roundsTo_self hb fb
  cases a with
  | notANumber | infinity => cases fa
  | zero s =>
    rw [unpackedNumber_zero, zero_sub]
    cases b with
    | notANumber | infinity => cases fb
    | zero s' =>
      rw [unpackedNumber_zero, neg_zero]
      cases s <;> cases s' <;> exact rounded_zero
    | finite s' m' e' hm' =>
      refine ⟨hself'.1, ?_⟩
      rw [rounded_neg, hself'.2, signed_neg]
  | finite s m e hm =>
    cases b with
    | notANumber | infinity => cases fb
    | zero s' =>
      rw [unpackedNumber_zero, sub_zero]
      exact hself
    | finite s' m' e' hm' =>
      have hsum := roundsTo_normalize
        (s.apply (decreaseExponent m e (min e e')).1 - s'.apply (decreaseExponent m' e' (min e e')).1)
        (min e e') .positive
      rw [Int.cast_sub, sub_mul, decreaseExponent_number s m (min_le_left e e'),
        decreaseExponent_number s' m' (min_le_right e e')] at hsum
      exact hsum

end

/-! ## Products and quotients -/

theorem signed_mul_signed (s t : Sign) (p q : ℚ) :
    signed s p * signed t q = signed (s * t) (p * q) := by
  cases s <;> cases t
  · exact neg_mul_neg p q
  · exact neg_mul p q
  · exact mul_neg p q
  · rfl

theorem signed_div_signed (s t : Sign) (p q : ℚ) :
    signed s p / signed t q = signed (s / t) (p / q) := by
  cases s <;> cases t
  · exact neg_div_neg_eq p q
  · exact neg_div q p
  · exact div_neg p
  · rfl

section
variable {m m' : ℕ} {e e' : ℤ}

theorem product_exponent_le (h : Canonical m e) (h' : Canonical m' e') :
    e + e' ≤ lastBit ((m * m' : ℕ) * 2 ^ (e + e')) := by
  have hpos : 0 < m * m' := Nat.mul_pos h.pos h'.pos
  have hpos' : (0 : ℚ) < (m * m' : ℕ) := by exact_mod_cast hpos
  rw [← targetExponent_of_cut (by positivity) (cut_exact (m * m') (e + e')) (.inl hpos),
    targetExponent_eq, totalExponent]
  have full (hm : 2 ^ 52 ≤ m * m') : 52 ≤ (m * m').log2 := (Nat.le_log2 hpos.ne').mpr hm
  rcases h.full with hm | he
  · -- one factor has all its bits, so the product has at least as many
    have := full (hm.trans (Nat.le_mul_of_pos_right m h'.pos))
    omega
  · rcases h'.full with hm' | he'
    · have := full (hm'.trans (Nat.le_mul_of_pos_left m' h.pos))
      omega
    · omega

theorem cut_fraction (n : ℕ) {d : ℕ} (hd : 0 < d) :
    Cut (n / d) ((n : ℚ) / d) (accuracyOfFraction (n % d) d) := by
  have hd' : (0 : ℚ) < d := by exact_mod_cast hd
  have hn : (n : ℚ) = d * (n / d : ℕ) + (n % d : ℕ) := by exact_mod_cast (Nat.div_add_mod n d).symm
  have hrem : ((n % d : ℕ) : ℚ) < d := by exact_mod_cast Nat.mod_lt n hd
  have hquot : (n : ℚ) / d = (n / d : ℕ) + (n % d : ℕ) / d := by
    conv_lhs => rw [hn]
    field_simp
  have hbelow : ((n % d : ℕ) : ℚ) / d < 1 := (div_lt_one hd').mpr hrem
  rw [hquot]
  unfold accuracyOfFraction
  split
  · next hzero =>
    show _ = _
    rw [hzero, Nat.cast_zero, zero_div, add_zero]
  · next hzero =>
    have hrem' : (0 : ℚ) < (n % d : ℕ) := by exact_mod_cast Nat.pos_of_ne_zero hzero
    have hpos : (0 : ℚ) < (n % d : ℕ) / d := by positivity
    rcases lt_trichotomy (2 * (n % d)) d with hlt | heq | hgt
    · have hhalf : ((n % d : ℕ) : ℚ) / d < 1 / 2 := by
        have : (2 : ℚ) * (n % d : ℕ) < d := by exact_mod_cast hlt
        rw [div_lt_div_iff₀ hd' two_pos]
        linarith
      rw [compare_lt_iff_lt.mpr hlt]
      exact ⟨by linarith, by linarith⟩
    · have hhalf : ((n % d : ℕ) : ℚ) / d = 1 / 2 := by
        have : (2 : ℚ) * (n % d : ℕ) = d := by exact_mod_cast heq
        rw [div_eq_div_iff hd'.ne' two_ne_zero]
        linarith
      rw [compare_eq_iff_eq.mpr heq]
      exact congrArg _ hhalf
    · have hhalf : 1 / 2 < ((n % d : ℕ) : ℚ) / d := by
        have : (d : ℚ) < 2 * (n % d : ℕ) := by exact_mod_cast hgt
        rw [div_lt_div_iff₀ two_pos hd']
        linarith
      rw [compare_gt_iff_gt.mpr hgt]
      exact ⟨by linarith, by linarith⟩

theorem two_zpow_le_quotient (hm : 0 < m) (hm' : 0 < m') (e e' : ℤ) :
    (2 : ℚ) ^ (totalExponent m e - totalExponent m' e' - 1) ≤ m * 2 ^ e / (m' * 2 ^ e') := by
  have hpos' : (0 : ℚ) < m' := by exact_mod_cast hm'
  have hlow : (2 : ℚ) ^ m.log2 ≤ m := by exact_mod_cast Nat.log2_self_le hm.ne'
  have hhigh : (m' : ℚ) ≤ 2 ^ (m'.log2 + 1) := by exact_mod_cast Nat.lt_log2_self.le
  have hexp : totalExponent m e - totalExponent m' e' - 1 + ((m'.log2 + 1 : ℕ) + e') = m.log2 + e := by
    unfold totalExponent
    push_cast
    omega
  rw [le_div_iff₀ (by positivity)]
  calc (2 : ℚ) ^ (totalExponent m e - totalExponent m' e' - 1) * (m' * 2 ^ e')
      ≤ 2 ^ (totalExponent m e - totalExponent m' e' - 1) * (2 ^ (m'.log2 + 1) * 2 ^ e') := by gcongr
    _ = 2 ^ m.log2 * 2 ^ e := by
        rw [← zpow_natCast, ← zpow_natCast, ← zpow_add₀ two_ne_zero, ← zpow_add₀ two_ne_zero,
          ← zpow_add₀ two_ne_zero, hexp]
    _ ≤ m * 2 ^ e := by gcongr

/-- A quotient is computed to as many bits as a float has, unless it lies below all of them. -/
theorem roundsTo_divCore (s : Sign) (hm : 0 < m) (hm' : 0 < m') :
    RoundsTo (roundWithAccuracy Format.binary64 s (divCore Format.binary64 m e m' e').1
        (divCore Format.binary64 m e m' e').2.1 (divCore Format.binary64 m e m' e').2.2)
      (signed s (m * 2 ^ e / (m' * 2 ^ e'))) := by
  have hpos : (0 : ℚ) < m := by exact_mod_cast hm
  have hpos' : (0 : ℚ) < m' := by exact_mod_cast hm'
  have hq : (0 : ℚ) < m * 2 ^ e / (m' * 2 ^ e') := by positivity
  have hlow := two_zpow_le_quotient hm hm' e e'
  simp only [divCore, targetExponent_eq]
  generalize htarget : min (e - e') (max (totalExponent m e - totalExponent m' e' - 53) (-1074)) = t
  have hcut := cut_fraction (m <<< (e - e' - t).toNat) hm'
  have hvalue : ((m <<< (e - e' - t).toNat : ℕ) : ℚ) / m' = m * 2 ^ e / (m' * 2 ^ e') / 2 ^ t := by
    have hshift : ((e - e' - t).toNat : ℤ) = e - e' - t := by omega
    rw [Nat.shiftLeft_eq]
    push_cast
    rw [← zpow_natCast, hshift, zpow_sub₀ two_ne_zero, zpow_sub₀ two_ne_zero]
    field_simp
  rw [hvalue] at hcut
  have hlog := (Int.zpow_le_iff_le_log Nat.one_lt_two hq).mp (by exact_mod_cast hlow)
  refine roundsTo_roundWithAccuracy s hq hcut ?_ ?_
  · -- a quotient without any bits lies below the exponent that was aimed at
    by_contra hnone
    obtain ⟨hzero, hleast⟩ := not_or.mp hnone
    have hlt := hcut.bounds.2
    rw [Nat.eq_zero_of_not_pos hzero, Nat.cast_zero, zero_add, div_lt_one (by positivity)] at hlt
    have := (zpow_lt_zpow_iff_right₀ one_lt_two).mp (hlow.trans_lt hlt)
    omega
  · rw [lastBit, abs_of_pos hq]
    omega

end

section
variable {a b : UnpackedFloat} (ha : Stored a) (hb : Stored b) (fa : a.isFinite = true)
  (fb : b.isFinite = true)
include ha hb fa fb

theorem roundsTo_mul :
    RoundsTo (UnpackedFloat.mul Format.binary64 a b) (unpackedNumber a * unpackedNumber b) := by
  cases a with
  | notANumber | infinity => cases fa
  | zero s =>
    rw [unpackedNumber_zero, zero_mul]
    cases b with
    | notANumber | infinity => cases fb
    | zero | finite => exact rounded_zero
  | finite s m e hm =>
    cases b with
    | notANumber | infinity => cases fb
    | zero s' =>
      rw [unpackedNumber_zero, mul_zero]
      exact rounded_zero
    | finite s' m' e' hm' =>
      have hpos : (0 : ℚ) < (m * m' : ℕ) := by exact_mod_cast Nat.mul_pos hm hm'
      have hvalue : (m : ℚ) * 2 ^ e * (m' * 2 ^ e') = (m * m' : ℕ) * 2 ^ (e + e') := by
        rw [zpow_add₀ two_ne_zero]
        push_cast
        ring
      rw [unpackedNumber, unpackedNumber, signed_mul_signed, hvalue]
      exact roundsTo_roundWithAccuracy _ (by positivity) (cut_exact _ _)
        (.inl (Nat.mul_pos hm hm')) (product_exponent_le ha.1 hb.1)

omit ha hb in
theorem roundsTo_div (nonzero : unpackedNumber b ≠ 0) :
    RoundsTo (UnpackedFloat.div Format.binary64 a b) (unpackedNumber a / unpackedNumber b) := by
  cases b with
  | notANumber | infinity => cases fb
  | zero => exact absurd rfl nonzero
  | finite s' m' e' hm' =>
    cases a with
    | notANumber | infinity => cases fa
    | zero s =>
      rw [unpackedNumber_zero, zero_div]
      exact rounded_zero
    | finite s m e hm =>
      rw [unpackedNumber, unpackedNumber, signed_div_signed]
      exact roundsTo_divCore (s / s') hm hm'

end

/-! ## Packed results -/

/-- A number cut off where the infinities count. -/
def saturated (q : ℚ) : ℚ := max (-overflow) (min overflow q)

theorem saturated_mono : Monotone saturated := fun _ _ h =>
  max_le_max le_rfl (min_le_min le_rfl h)

theorem saturated_of_abs_le {q : ℚ} (h : |q| ≤ overflow) : saturated q = q := by
  obtain ⟨low, high⟩ := abs_le.mp h
  rw [saturated, min_eq_right high, max_eq_right low]

theorem saturated_zero : saturated 0 = 0 :=
  saturated_of_abs_le (by rw [abs_zero]; exact overflow_pos.le)

theorem saturated_signed (s : Sign) {q : ℚ} (h : overflow ≤ q) :
    saturated (signed s q) = signed s overflow := by
  have top := overflow_pos
  unfold saturated
  cases s with
  | negative =>
    show max _ (min _ (-q)) = -overflow
    rw [min_eq_right (by linarith), max_eq_left (neg_le_neg h)]
  | positive =>
    show max _ (min _ q) = overflow
    rw [min_eq_left h, max_eq_right (by linarith)]

theorem eq_of_abs_saturated_lt {q : ℚ} (h : |saturated q| < overflow) : saturated q = q := by
  obtain ⟨low, high⟩ := abs_lt.mp h
  unfold saturated at low high ⊢
  rw [max_eq_right_iff.mpr ((lt_max_iff.mp low).resolve_left (lt_irrefl _)).le] at high ⊢
  exact min_eq_right ((min_lt_iff.mp high).resolve_left (lt_irrefl _)).le

structure IsRounded (z : Float) (q : ℚ) : Prop where
  isNaN : z.isNaN = false
  number_eq : number z = saturated (rounded q)

theorem isRounded_of_unpack {z : Float} {q : ℚ} {u : UnpackedFloat} (hz : z.toModel.unpack = u)
    (hu : u.isNaN = false) (hr : unpackedNumber u = saturated (rounded q)) : IsRounded z q := by
  constructor
  · show z.toModel.unpack.isNaN = false
    rw [hz, hu]
  · rw [number, hz, hr]

theorem isRounded_pack {u : UnpackedFloat} {q : ℚ} (h : RoundsTo u q) :
    IsRounded (Float.ofModel (Float.Model.pack u)) q := by
  cases u with
  | notANumber | infinity => exact h.elim
  | zero s =>
    have h : rounded q = 0 := h
    refine isRounded_of_unpack (u := .zero s) unpack_pack_zero rfl ?_
    rw [h, saturated_zero]
    rfl
  | finite s m e hm =>
    obtain ⟨hcan, hq⟩ := h
    rcases le_or_gt e 971 with he | he
    · refine isRounded_of_unpack (u := .finite s m e hm) (unpack_pack hcan he) rfl ?_
      have hstored : Stored (.finite s m e hm) := ⟨hcan, he⟩
      rw [hq, ← saturated_of_abs_le (abs_number_lt hstored).le]
      rfl
    · refine isRounded_of_unpack (u := .infinity s) (unpack_pack_overflow he hm) rfl ?_
      have habove : overflow ≤ m * 2 ^ e :=
        (zpow_le_zpow_right₀ one_le_two (by omega)).trans (hcan.le_number (by omega))
      rw [hq, saturated_signed s habove]
      rfl

section
variable {x y : Float} (hx : x.isFinite = true) (hy : y.isFinite = true)
include hx hy

theorem isRounded_add : IsRounded (x + y) (number x + number y) :=
  isRounded_pack (roundsTo_add (stored_unpack _) (stored_unpack _) hx hy)

theorem isRounded_sub : IsRounded (x - y) (number x - number y) :=
  isRounded_pack (roundsTo_sub (stored_unpack _) (stored_unpack _) hx hy)

theorem isRounded_mul : IsRounded (x * y) (number x * number y) :=
  isRounded_pack (roundsTo_mul (stored_unpack _) (stored_unpack _) hx hy)

theorem isRounded_div (nonzero : number y ≠ 0) : IsRounded (x / y) (number x / number y) :=
  isRounded_pack (roundsTo_div hx hy nonzero)

end

theorem rounded_overflow : rounded overflow = overflow := by
  have hcan : Canonical (2 ^ 52) 972 := ⟨by decide, by decide, by decide, .inl le_rfl⟩
  have htop : ((2 ^ 52 : ℕ) : ℚ) * 2 ^ (972 : ℤ) = overflow := by
    rw [overflow, Nat.cast_pow, Nat.cast_ofNat, ← zpow_natCast, ← zpow_add₀ two_ne_zero]
    rfl
  rw [← htop]
  exact hcan.rounded_eq

theorem isRounded_self {x : Float} (hx : x.isNaN = false) : IsRounded x (number x) := by
  refine ⟨hx, ?_⟩
  have hstored := stored_unpack x.toModel
  rw [number]
  cases hu : x.toModel.unpack with
  | notANumber => exact absurd hu (unpack_ne_of_isNaN hx)
  | infinity s =>
    rw [unpackedNumber, ← signed_rounded, rounded_overflow, saturated_signed s le_rfl]
  | zero s =>
    rw [unpackedNumber_zero, rounded_zero, saturated_zero]
  | finite s m e hm =>
    rw [hu] at hstored
    rw [unpackedNumber, ← signed_rounded, hstored.1.rounded_eq]
    exact (saturated_of_abs_le (abs_number_lt hstored).le).symm

namespace IsRounded
variable {x z z' : Float} {q q' : ℚ}

theorem mono (h : IsRounded z q) (h' : IsRounded z' q') (hq : q ≤ q') : z ≤ z' := by
  rw [le_iff_number h.isNaN h'.isNaN, h.number_eq, h'.number_eq]
  exact saturated_mono (rounded_mono hq)

theorem le_of_number_le (h : IsRounded z q) (hx : x.isNaN = false) (hq : number x ≤ q) : x ≤ z :=
  (isRounded_self hx).mono h hq

theorem le_of_le_number (h : IsRounded z q) (hx : x.isNaN = false) (hq : q ≤ number x) : z ≤ x :=
  h.mono (isRounded_self hx) hq

theorem isFinite_of_lt (h : IsRounded z q)
    (hq : |q| + (|q| / 2 ^ 53 + underflow) < overflow) : z.isFinite = true := by
  have hr : |rounded q| < overflow := by
    have := abs_add_le q (rounded q - q)
    rw [add_sub_cancel] at this
    linarith [abs_rounded_sub_le q]
  rw [isFinite_iff_number, h.number_eq, saturated_of_abs_le hr.le]
  exact ⟨h.isNaN, hr⟩

/-- What lies above a float by more than it is rounded is rounded to a greater float. -/
theorem lt_of_add_lt (h : IsRounded z q) (fin : x.isFinite = true)
    (hq : number x + (|q| / 2 ^ 53 + underflow) < q) : x < z := by
  obtain ⟨hnan, hlt⟩ := isFinite_iff_number.mp fin
  have hr : number x < rounded q := by linarith [(abs_le.mp (abs_rounded_sub_le q)).1]
  rw [lt_iff_number hnan h.isNaN, h.number_eq]
  exact lt_max_of_lt_right (lt_min (abs_lt.mp hlt).2 hr)

theorem number_of_isFinite (h : IsRounded z q) (fin : z.isFinite = true) :
    number z = rounded q := by
  have hlt := (isFinite_iff_number.mp fin).2
  rw [h.number_eq] at hlt ⊢
  exact eq_of_abs_saturated_lt hlt

theorem abs_sub_le (h : IsRounded z q) (fin : z.isFinite = true) :
    |number z - q| ≤ |q| / 2 ^ 53 + underflow := by
  rw [h.number_of_isFinite fin]
  exact abs_rounded_sub_le q

end IsRounded

/-! ## Infinities -/

theorem abs_number_le (x : Float) : |number x| ≤ overflow := by
  have hstored := stored_unpack x.toModel
  rw [number]
  cases hu : x.toModel.unpack with
  | notANumber | zero =>
    rw [unpackedNumber, abs_zero]
    exact overflow_pos.le
  | infinity s => rw [unpackedNumber, abs_signed, abs_of_pos overflow_pos]
  | finite s m e hm =>
    rw [hu] at hstored
    exact (abs_number_lt hstored).le

section
variable {x p : Float}

theorem unpack_of_nonneg_of_infinite (hp : 0 ≤ p) (inf : p.isFinite = false) :
    p.toModel.unpack = .infinity .positive := by
  have hnan : p.toModel.unpack ≠ .notANumber := unpack_ne_of_isNaN (isNaN_of_le hp).2
  have inf : p.toModel.unpack.isFinite = false := inf
  have hle := (le_iff_number (isNaN_of_le hp).1 (isNaN_of_le hp).2).mp hp
  rw [number_zero, number] at hle
  cases hu : p.toModel.unpack with
  | notANumber => exact absurd hu hnan
  | zero | finite =>
    rw [hu] at inf
    cases inf
  | infinity s =>
    cases s with
    | positive => rfl
    | negative =>
      rw [hu] at hle
      exact absurd (neg_nonneg.mp hle) overflow_pos.not_ge

theorem le_of_unpack_infinity (hx : x.isNaN = false) (hp : p.toModel.unpack = .infinity .positive) :
    x ≤ p := by
  have hnan : p.toModel.unpack.isNaN = false := by rw [hp]; rfl
  rw [le_iff_number hx hnan, number, number, hp]
  exact (le_abs_self _).trans (abs_number_le x)

theorem le_of_unpack_neg_infinity (hx : x.isNaN = false)
    (hp : p.toModel.unpack = .infinity .negative) : p ≤ x := by
  have hnan : p.toModel.unpack.isNaN = false := by rw [hp]; rfl
  rw [le_iff_number hnan hx, number, number, hp]
  exact (abs_le.mp (abs_number_le x)).1

variable (hp : p.toModel.unpack = .infinity .positive)
include hp

theorem unpack_add_infinity (hx : x.isFinite = true) :
    (x + p).toModel.unpack = .infinity .positive := by
  show (Float.Model.pack (UnpackedFloat.add _ x.toModel.unpack p.toModel.unpack)).unpack = _
  rcases finite_cases hx with ⟨s, hu⟩ | ⟨s, m, e, can, -, hu⟩
  · rw [hp, hu]
    exact unpack_pack_infinity
  · rw [hp, hu]
    exact unpack_pack_infinity

theorem unpack_sub_infinity (hx : x.isFinite = true) :
    (x - p).toModel.unpack = .infinity .negative := by
  show (Float.Model.pack (UnpackedFloat.sub _ x.toModel.unpack p.toModel.unpack)).unpack = _
  rcases finite_cases hx with ⟨s, hu⟩ | ⟨s, m, e, can, -, hu⟩
  · rw [hp, hu]
    exact unpack_pack_infinity
  · rw [hp, hu]
    exact unpack_pack_infinity

theorem unpack_infinity_mul {m : ℕ} {e : ℤ} {hm : 0 < m}
    (hx : x.toModel.unpack = .finite .positive m e hm) :
    (p * x).toModel.unpack = .infinity .positive := by
  show (Float.Model.pack (UnpackedFloat.mul _ p.toModel.unpack x.toModel.unpack)).unpack = _
  rw [hp, hx]
  exact unpack_pack_infinity

end

end TimingCharts
