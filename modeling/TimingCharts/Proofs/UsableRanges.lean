import TimingCharts.Proofs.AxisRanges

/-!
# Axes that can be drawn

An axis is of use if its ends are finite and the first lies below the second. Padding gives that for
all but the values at the limits of a float (`Scale.range_usable`): next to zero a factor of 1.25 is
rounded away, and next to the greatest float the padding runs over.
-/

namespace TimingCharts

open Float.Model Float.Model.UnpackedFloat

/-! ## The least floats -/

theorem two_underflow : 2 ^ (-1074 : ℤ) = 2 * underflow := by
  rw [underflow, ← zpow_one_add₀ two_ne_zero]
  rfl

theorem underflow_le : underflow ≤ 1 / 2 := by
  rw [underflow, one_div, ← zpow_neg_one]
  exact zpow_le_zpow_right₀ one_le_two (by decide)

theorem le_overflow : 2 ^ 200 ≤ overflow := by
  rw [overflow, ← zpow_natCast]
  exact zpow_le_zpow_right₀ one_le_two (by decide)

section
variable {x y : Float}

theorem unpack_of_pos (fin : x.isFinite = true) (pos : 0 < number x) :
    ∃ m e, ∃ h : Canonical m e, x.toModel.unpack = .finite .positive m e h.pos := by
  rw [number] at pos
  rcases finite_cases fin with ⟨s, hu⟩ | ⟨s, m, e, can, -, hu⟩
  · rw [hu] at pos
    exact absurd pos (lt_irrefl 0)
  · rw [hu] at pos
    cases s with
    | positive => exact ⟨m, e, can, hu⟩
    | negative => exact absurd pos (neg_neg_of_pos can.number_pos).not_gt

theorem eq_of_number_eq (hx : x.isFinite = true) (hy : y.isFinite = true) (pos : 0 < number x)
    (h : number x = number y) : x = y := by
  obtain ⟨m, e, hc, hu⟩ := unpack_of_pos hx pos
  obtain ⟨m', e', hc', hu'⟩ := unpack_of_pos hy (h ▸ pos)
  have hcompare := hc.compare_number hc'
  rw [number, number, hu, hu'] at h
  have h : (m : ℚ) * 2 ^ e = m' * 2 ^ e' := h
  rw [compare_eq_iff_eq.mpr h, Ordering.then_eq_eq, compare_eq_iff_eq, compare_eq_iff_eq] at hcompare
  obtain ⟨rfl, rfl⟩ := hcompare
  exact eq_of_unpack_eq (hu.trans hu'.symm)

theorem two_underflow_le_number (fin : x.isFinite = true) (pos : 0 < number x) :
    2 * underflow ≤ number x := by
  obtain ⟨m, e, hc, hu⟩ := unpack_of_pos fin pos
  rw [number, hu, ← two_underflow]
  have hm : (1 : ℚ) ≤ m := by exact_mod_cast hc.pos
  calc (2 : ℚ) ^ (-1074 : ℤ) ≤ 2 ^ e := zpow_le_zpow_right₀ one_le_two hc.least
    _ ≤ m * 2 ^ e := le_mul_of_one_le_left (by positivity) hm

theorem unpack_least : (5e-324 : Float).toModel.unpack = .finite .positive 1 (-1074) (by decide) := by
  have : (5e-324 : Float) = .ofBits 1 := by decide +kernel
  rw [this]
  rfl

theorem unpack_second :
    (1e-323 : Float).toModel.unpack = .finite .positive 2 (-1074) (by decide) := by
  have : (1e-323 : Float) = .ofBits 2 := by decide +kernel
  rw [this]
  rfl

theorem eq_least_or_second (fin : x.isFinite = true) (pos : 0 < number x)
    (h : number x < 6 * underflow) : x = 5e-324 ∨ x = 1e-323 := by
  obtain ⟨m, e, hc, hu⟩ := unpack_of_pos fin pos
  have hlt : (m : ℚ) * 2 ^ e < 3 * 2 ^ (-1074 : ℤ) := by
    rw [number, hu] at h
    rw [two_underflow]
    linarith [show (m : ℚ) * 2 ^ e < 6 * underflow from h]
  have he : e = -1074 := by
    -- with a greater exponent it would have all its bits
    by_contra hne
    have hmore : -1074 < e := lt_of_le_of_ne hc.least (Ne.symm hne)
    have hfour : 2 ^ (-1072 : ℤ) ≤ (m : ℚ) * 2 ^ e :=
      (zpow_le_zpow_right₀ one_le_two (by omega)).trans (hc.le_number hmore)
    rw [show (-1072 : ℤ) = 2 + -1074 from rfl, zpow_add₀ two_ne_zero] at hfour
    have : (0 : ℚ) < 2 ^ (-1074 : ℤ) := by positivity
    linarith
  subst he
  have hm : m < 3 := by exact_mod_cast lt_of_mul_lt_mul_right hlt (by positivity)
  have hpos := hc.pos
  interval_cases m
  · exact .inl (eq_of_unpack_eq (hu.trans unpack_least.symm))
  · exact .inr (eq_of_unpack_eq (hu.trans unpack_second.symm))

end

/-! ## The margin of values that are all the same -/

theorem number_one : number 1 = 1 := by
  rw [number_of_unpack (m := 2 ^ 52) (e := -52) rfl]
  norm_num

theorem number_tenth : 1 / 16 ≤ number 0.1 ∧ number 0.1 ≤ 1 / 9 := by
  rw [number_of_unpack (m := 7205759403792794) (e := -56) rfl]
  norm_num

section
variable {x : Float} (fin : x.isFinite = true)
include fin

theorem tenth_bounds :
    (x.abs * 0.1).isFinite = true ∧ |number x| ≤ 17 * (number (x.abs * 0.1) + underflow) ∧
      number (x.abs * 0.1) ≤ |number x| / 8 + underflow := by
  obtain ⟨htenth, htenth'⟩ := number_tenth
  have hlow := mul_le_mul_of_nonneg_left htenth (abs_nonneg (number x))
  have hhigh := mul_le_mul_of_nonneg_left htenth' (abs_nonneg (number x))
  have habs : |(|number x| * number 0.1)| = |number x| * number 0.1 :=
    abs_of_nonneg (mul_nonneg (abs_nonneg _) (by linarith))
  have hround := isRounded_tenth fin
  have hfin : (x.abs * 0.1).isFinite = true := by
    apply hround.isFinite_of_lt
    rw [habs]
    linarith [le_overflow, underflow_le, (isFinite_iff_number.mp fin).2]
  have herror := abs_le.mp (hround.abs_sub_le hfin)
  rw [habs] at herror
  have hpos := underflow_pos
  exact ⟨hfin, by linarith, by linarith⟩

theorem flatMargin_bounds :
    (flatMargin x).isFinite = true ∧ 1 ≤ number (flatMargin x) ∧
      |number x| ≤ 17 * (number (flatMargin x) + underflow) ∧
      number (flatMargin x) ≤ |number x| / 8 + underflow + 1 := by
  obtain ⟨hfin, hlow, hhigh⟩ := tenth_bounds fin
  obtain ⟨hchoice, hleft, hright⟩ := greater_spec (y := 1) (isNaN_of_isFinite hfin) rfl
  have hone := (le_iff_number rfl (isNaN_of_le hright).2).mp hright
  have htenth := (le_iff_number (isNaN_of_le hleft).1 (isNaN_of_le hleft).2).mp hleft
  rw [number_one] at hone
  refine ⟨?_, hone, ?_, ?_⟩
  · rcases hchoice with heq | heq
    · rw [flatMargin, heq, hfin]
    · rw [flatMargin, heq]
      rfl
  · rw [flatMargin]
    linarith
  · rcases hchoice with heq | heq
    · rw [flatMargin, heq]
      linarith
    · rw [flatMargin, heq, number_one]
      linarith [abs_nonneg (number x), underflow_pos]

theorem lt_add_flatMargin : x < x + flatMargin x := by
  obtain ⟨hfin, hone, hrel, -⟩ := flatMargin_bounds fin
  have habs := abs_add_le (number x) (number (flatMargin x))
  rw [abs_of_nonneg (zero_le_one.trans hone)] at habs
  apply (isRounded_add fin hfin).lt_of_add_lt fin
  linarith [underflow_le]

end

/-! ## Ends in order -/

theorem margin_of_number_eq {low high : Float} (hlow : low.isFinite = true)
    (hhigh : high.isFinite = true) (h : number low = number high) :
    margin low high = flatMargin high := by
  have hround := isRounded_sub hhigh hlow
  have hzero : number (high - low) = 0 := by
    rw [hround.number_eq, h, sub_self, rounded_zero, saturated_zero]
  have hspread : ¬ high - low > 0 := by
    show ¬ 0 < high - low
    rw [lt_iff_number rfl hround.isNaN, hzero]
    exact lt_irrefl 0
  rw [margin, if_neg hspread]

namespace Scale
variable {scale : Scale} {low high : Float}

section
variable (hlow : scale.admits low = true) (hhigh : scale.admits high = true)
include hlow hhigh

theorem padded_lt_of_lt (h : low < high) :
    (scale.padded low high).start < (scale.padded low high).stop :=
  float_lt_of_lt_of_le (float_lt_of_le_of_lt (padded_start_le scale hlow hhigh) h)
    (le_padded_stop scale hhigh)

theorem padded_lt_of_lt_stop (hle : low ≤ high) (h : high < (scale.padded low high).stop) :
    (scale.padded low high).start < (scale.padded low high).stop :=
  float_lt_of_le_of_lt (float_le_trans (padded_start_le scale hlow hhigh) hle) h

end

theorem linear_padded_lt (hlow : Scale.linear.admits low = true)
    (hhigh : Scale.linear.admits high = true) (hle : low ≤ high) :
    (Scale.linear.padded low high).start < (Scale.linear.padded low high).stop := by
  by_cases hlt : low < high
  · exact padded_lt_of_lt hlow hhigh hlt
  · apply padded_lt_of_lt_stop hlow hhigh hle
    show high < high + margin low high
    rw [margin_of_number_eq hlow hhigh (number_eq_of_not_lt hle hlt)]
    exact lt_add_flatMargin hhigh

/-- A factor of 1.25 is rounded away only from the two least floats. -/
theorem log_padded_lt_iff (hlow : Scale.log.admits low = true) (hhigh : Scale.log.admits high = true)
    (hle : low ≤ high) :
    (Scale.log.padded low high).start < (Scale.log.padded low high).stop ↔
      ¬ (low = high ∧ (high = 5e-324 ∨ high = 1e-323)) := by
  have hfin := isFinite_of_admits hhigh
  have hpos := number_pos_of_pos hfin (pos_of_admits hhigh)
  constructor
  · rintro hlt ⟨rfl, rfl | rfl⟩
    · exact absurd hlt (by decide +kernel)
    · exact absurd hlt (by decide +kernel)
  · intro hmore
    by_cases hlt : low < high
    · exact padded_lt_of_lt hlow hhigh hlt
    · apply padded_lt_of_lt_stop hlow hhigh hle
      have heq : high = low :=
        eq_of_number_eq hfin (isFinite_of_admits hlow) hpos (number_eq_of_not_lt hle hlt).symm
      -- the third float is the first for which a quarter is more than is rounded away
      have hsix : 6 * underflow ≤ number high :=
        not_lt.mp fun h => hmore ⟨heq.symm, eq_least_or_second hfin hpos h⟩
      have hunder := underflow_pos
      apply (isRounded_mul_factor hfin).lt_of_add_lt hfin
      rw [abs_of_pos (by linarith)]
      linarith

theorem eq_of_spans_self {values : List Float} {v : Float}
    (h : Spans (values.filter Scale.log.admits) v v) :
    ∀ w ∈ values.filter Scale.log.admits, w = v := by
  intro w hw
  have hfin := isFinite_of_admits h.of_filter.1
  have hw' := isFinite_of_admits (List.mem_filter.mp hw).2
  have hpos := number_pos_of_pos hfin (pos_of_admits h.of_filter.1)
  have hlow := (le_iff_number (isNaN_of_isFinite hfin) (isNaN_of_isFinite hw')).mp (h.low_le w hw)
  have hhigh := (le_iff_number (isNaN_of_isFinite hw') (isNaN_of_isFinite hfin)).mp (h.le_high w hw)
  exact (eq_of_number_eq hfin hw' hpos (le_antisymm hlow hhigh)).symm

theorem range_lt_iff (scale : Scale) (values : List Float) :
    (scale.range values).start < (scale.range values).stop ↔
      ¬ (scale = .log ∧ ∃ v, (v = 5e-324 ∨ v = 1e-323) ∧
        values.filter scale.admits ≠ [] ∧ ∀ w ∈ values.filter scale.admits, w = v) := by
  rcases range_cases scale values with ⟨hnone, hrange⟩ | ⟨low, high, hspan, hrange⟩
  · rw [hrange]
    refine iff_of_true ?_ fun ⟨_, v, _, hsome, _⟩ => hsome hnone
    cases scale <;> decide
  · obtain ⟨hlow, hhigh⟩ := hspan.of_filter
    have hle := hspan.low_le high hspan.high_mem
    rw [hrange]
    cases scale with
    | linear => exact iff_of_true (linear_padded_lt hlow hhigh hle) nofun
    | log =>
      rw [log_padded_lt_iff hlow hhigh hle, not_iff_not]
      constructor
      · rintro ⟨rfl, htiny⟩
        exact ⟨rfl, low, htiny, List.ne_nil_of_mem hspan.low_mem, eq_of_spans_self hspan⟩
      · rintro ⟨-, v, htiny, -, hall⟩
        rw [hall low hspan.low_mem, hall high hspan.high_mem]
        exact ⟨rfl, htiny⟩

theorem log_range_start_pos (values : List Float) :
    0 < (Scale.log.range values).start ∧ (Scale.log.range values).start.isFinite = true := by
  rcases range_cases .log values with ⟨-, hrange⟩ | ⟨low, high, hspan, hrange⟩
  · rw [hrange]
    exact ⟨by decide, rfl⟩
  · have hadmits := hspan.of_filter.1
    have hfin := isFinite_of_admits hadmits
    have hpos := number_pos_of_pos hfin (pos_of_admits hadmits)
    have hround := isRounded_div_factor hfin
    rw [hrange]
    show 0 < low / 1.25 ∧ (low / 1.25).isFinite = true
    have hstart : 0 < low / 1.25 := by
      have htwo := two_underflow_le_number hfin hpos
      apply hround.lt_of_add_lt rfl
      rw [number_zero, abs_of_pos (by positivity)]
      linarith
    refine ⟨hstart, ?_⟩
    have hle := div_factor_le hfin (pos_of_admits hadmits)
    rw [le_iff_number hround.isNaN (isNaN_of_isFinite hfin)] at hle
    rw [lt_iff_number rfl hround.isNaN] at hstart
    have hlt := (isFinite_iff_number.mp hfin).2
    rw [abs_of_pos hpos] at hlt
    rw [isFinite_iff_number, abs_of_pos hstart]
    exact ⟨hround.isNaN, hle.trans_lt hlt⟩

end Scale

/-! ## Finite ends -/

theorem number_half_overflow : number 8.98846567431158e307 = 2 ^ 52 * 2 ^ (971 : ℤ) := by
  have hbits : (8.98846567431158e307 : Float) = .ofBits 0x7FE0000000000000 := by decide +kernel
  have hunpack : (Float.ofBits 0x7FE0000000000000).toModel.unpack =
      .finite .positive (2 ^ 52) 971 (by decide) := rfl
  rw [hbits, number_of_unpack hunpack, Nat.cast_pow, Nat.cast_ofNat]

theorem overflow_eq : overflow = 2 ^ 54 * 2 ^ (970 : ℤ) := by
  rw [overflow, ← zpow_natCast, ← zpow_add₀ two_ne_zero]
  rfl

/-- Finite and below half of `overflow`; a float stays away from that by a last bit. -/
structure Moderate (x : Float) : Prop where
  fin : x.isFinite = true
  le : |number x| ≤ overflow * (1 / 2 - 1 / 2 ^ 54)

theorem moderate_of_lt {x : Float} (fin : x.isFinite = true)
    (h : x.abs < 8.98846567431158e307) : Moderate x := by
  refine ⟨fin, ?_⟩
  rw [lt_iff_number (isNaN_of_lt h).1 (isNaN_of_lt h).2, number_abs, number_half_overflow, number] at h
  rw [overflow_eq, number]
  rcases finite_cases fin with ⟨s, hu⟩ | ⟨s, m, e, can, he, hu⟩
  · rw [hu, unpackedNumber, abs_zero]
    positivity
  · rw [hu, unpackedNumber, abs_signed, abs_of_pos can.number_pos] at h ⊢
    have he : e ≤ 970 := by
      by_contra hmore
      obtain rfl : e = 971 := le_antisymm he (by omega)
      have := can.le_number (by decide)
      rw [add_comm, zpow_add₀ two_ne_zero] at this
      exact absurd h (not_lt.mpr (by exact_mod_cast this))
    have hm : (m : ℚ) ≤ 2 ^ 53 - 1 := by
      have : (m : ℚ) + 1 ≤ 2 ^ 53 := by exact_mod_cast can.short
      linarith
    calc (m : ℚ) * 2 ^ e ≤ (2 ^ 53 - 1) * 2 ^ (970 : ℤ) :=
          mul_le_mul hm (zpow_le_zpow_right₀ one_le_two he) (by positivity) (by norm_num)
      _ = 2 ^ 54 * 2 ^ (970 : ℤ) * (1 / 2 - 1 / 2 ^ 54) := by ring

section
variable {low high : Float} (hlow : Moderate low) (hhigh : Moderate high)
include hlow hhigh

theorem span_isFinite : (high - low).isFinite = true := by
  have habs := abs_sub (number high) (number low)
  apply (isRounded_sub hhigh.fin hlow.fin).isFinite_of_lt
  linarith [hlow.le, hhigh.le, le_overflow, underflow_le]

theorem margin_le : (margin low high).isFinite = true ∧ number (margin low high) ≤ overflow / 8 := by
  have hover := le_overflow
  have hunder := underflow_le
  unfold margin
  split
  · have hfin := span_isFinite hlow hhigh
    obtain ⟨htwentieth, htwentieth'⟩ := number_twentieth
    have hpart : |number (high - low) * number 0.05| ≤ overflow / 18 := by
      rw [abs_mul, abs_of_nonneg htwentieth, div_eq_mul_one_div]
      exact mul_le_mul (isFinite_iff_number.mp hfin).2.le htwentieth' htwentieth overflow_pos.le
    have hround := isRounded_mul (y := 0.05) hfin rfl
    have hfin' : ((high - low) * 0.05).isFinite = true := by
      apply hround.isFinite_of_lt
      linarith
    refine ⟨hfin', ?_⟩
    have herror := (abs_le.mp (hround.abs_sub_le hfin')).2
    linarith [le_abs_self (number (high - low) * number 0.05)]
  · obtain ⟨hfin, -, -, hle⟩ := flatMargin_bounds hhigh.fin
    refine ⟨hfin, ?_⟩
    linarith [hhigh.le]

theorem linear_padded_isFinite :
    (Scale.linear.padded low high).start.isFinite = true ∧
      (Scale.linear.padded low high).stop.isFinite = true := by
  have hover := le_overflow
  have hunder := underflow_le
  obtain ⟨hfin, hle⟩ := margin_le hlow hhigh
  have hnonneg := margin_nonneg low hhigh.fin
  rw [le_iff_number (isNaN_of_le hnonneg).1 (isNaN_of_le hnonneg).2] at hnonneg
  have habs : |number (margin low high)| ≤ overflow / 8 := (abs_of_nonneg hnonneg).trans_le hle
  have hsub : (low - margin low high).isFinite = true := by
    apply (isRounded_sub hlow.fin hfin).isFinite_of_lt
    linarith [abs_sub (number low) (number (margin low high)), hlow.le]
  constructor
  · show Float.isFinite (ite _ _ _) = true
    split
    · rcases (greater_spec (y := 0) (isNaN_of_isFinite hsub) rfl).1 with heq | heq
      · rw [heq, hsub]
      · rw [heq]
        rfl
    · exact hsub
  · apply (isRounded_add hhigh.fin hfin).isFinite_of_lt
    linarith [abs_add_le (number high) (number (margin low high)), hhigh.le]

end

theorem log_padded_stop_isFinite {high : Float} (hhigh : Moderate high) :
    (high * 1.25).isFinite = true := by
  apply (isRounded_mul_factor hhigh.fin).isFinite_of_lt
  rw [abs_mul]
  linarith [hhigh.le, le_overflow, underflow_le]

namespace Scale

theorem range_isFinite {scale : Scale} {values : List Float}
    (h : ∀ v ∈ values, scale.admits v = true → v.abs < 8.98846567431158e307) :
    (scale.range values).start.isFinite = true ∧ (scale.range values).stop.isFinite = true := by
  rcases range_cases scale values with ⟨-, hrange⟩ | ⟨low, high, hspan, hrange⟩
  · rw [hrange]
    cases scale <;> exact ⟨rfl, rfl⟩
  · have moderate {v : Float} (hv : v ∈ values.filter scale.admits) : Moderate v := by
      obtain ⟨hmem, hadmits⟩ := List.mem_filter.mp hv
      exact moderate_of_lt (isFinite_of_admits hadmits) (h v hmem hadmits)
    cases scale with
    | linear =>
      rw [hrange]
      exact linear_padded_isFinite (moderate hspan.low_mem) (moderate hspan.high_mem)
    | log =>
      refine ⟨(log_range_start_pos values).2, ?_⟩
      rw [hrange]
      exact log_padded_stop_isFinite (moderate hspan.high_mem)

/-- The ends of a range are in order unless a logarithmic axis is made for one of the two least
floats alone. They are finite if no value reaches half of what a float can hold, and a logarithmic
axis always begins at a positive number. -/
theorem range_usable (scale : Scale) (values : List Float) :
    ((scale.range values).start < (scale.range values).stop ↔
        ¬ (scale = .log ∧ ∃ v, (v = 5e-324 ∨ v = 1e-323) ∧
          values.filter scale.admits ≠ [] ∧ ∀ w ∈ values.filter scale.admits, w = v)) ∧
      (scale = .log →
        0 < (scale.range values).start ∧ (scale.range values).start.isFinite = true) ∧
      ((∀ v ∈ values, scale.admits v = true → v.abs < 8.98846567431158e307) →
        (scale.range values).start.isFinite = true ∧ (scale.range values).stop.isFinite = true) := by
  refine ⟨range_lt_iff scale values, ?_, range_isFinite⟩
  rintro rfl
  exact log_range_start_pos values

theorem range_usable_mixed :
    let values : List Float := [5e-324, 1.5e-323, 0 / 0, 1 / 0, -3]
    (Scale.log.range values).start < (Scale.log.range values).stop ∧
      (0 < (Scale.log.range values).start ∧ (Scale.log.range values).start.isFinite = true) ∧
      (Scale.linear.range values).start.isFinite = true ∧
      (Scale.linear.range values).stop.isFinite = true := by
  intro values
  obtain ⟨ordered, positive, -⟩ := range_usable .log values
  obtain ⟨-, -, finite⟩ := range_usable .linear values
  refine ⟨ordered.mpr ?_, positive rfl, finite (by decide +kernel)⟩
  rintro ⟨-, v, -, -, same⟩
  have hleast := same 5e-324 (List.mem_filter.mpr ⟨List.mem_cons_self, by decide +kernel⟩)
  have hthird := same 1.5e-323
    (List.mem_filter.mpr ⟨List.mem_cons_of_mem _ List.mem_cons_self, by decide +kernel⟩)
  exact absurd (hleast.trans hthird.symm) (by decide +kernel)

/-- At the limits of a float padding comes to nothing or to too much. -/
theorem range_at_limits :
    (Scale.log.range [5e-324]).start = 5e-324 ∧ (Scale.log.range [5e-324]).stop = 5e-324 ∧
      (Scale.log.range [1.7976931348623157e308]).stop.isFinite = false ∧
      (Scale.linear.range [1.7976931348623157e308]).stop.isFinite = false ∧
      (Scale.linear.range [8.98846567431158e307, -8.98846567431158e307]).start.isFinite = false := by
  decide +kernel

end Scale

end TimingCharts
