import TimingCharts.Proofs.SkippedPoints
import TimingCharts.Proofs.TickLabels

/-!
# The units of size labels

A size is labelled in the greatest unit that it reaches, and then rounded. The count of units lies
between one and a thousand, and it is a thousand for the sizes that are at most half a tenth of
the unit away from the next one (`abbreviate_count`).
-/

namespace TimingCharts.Label

/-! ## Counts that are rounded up to a thousand

With one decimal a count is written as a thousand from the limit 999.95 on. -/

theorem underflow_lt : underflow < 1 / 2 ^ 60 := by
  rw [underflow, one_div, ← zpow_natCast, ← zpow_neg]
  exact zpow_lt_zpow_right₀ one_lt_two (by decide)

theorem limit_le_rounded : (99995 / 100 : ℚ) ≤ rounded (99995 / 100) := by
  have hpos : (0 : ℚ) < 99995 / 100 := by norm_num
  have hlog : Int.log 2 (99995 / 100 : ℚ) = 9 := by
    apply log_eq_of_bounds hpos (by decide) <;> norm_num
  have hbit : lastBit (99995 / 100) = -43 := by
    rw [lastBit, abs_of_pos hpos, hlog]
    rfl
  have hnearest : nearestEven (99995 / 100 / 2 ^ (-43 : ℤ)) = 8795653217556890 := by
    refine nearestEven_eq (.inl ?_)
    rw [abs_lt]
    norm_num
  rw [rounded, hbit, hnearest]
  norm_num

/-- A count of a unit stays on its side of the limit when it is rounded to a float. -/
theorem rounded_lt_limit_iff {n u : ℕ} (hu : 0 < u) (hu' : u ≤ 10 ^ 9) :
    rounded ((n : ℚ) / u) < 99995 / 100 ↔ 100 * n < 99995 * u := by
  have hupos : (0 : ℚ) < u := by exact_mod_cast hu
  constructor
  · intro h
    by_contra hle
    have hcount : (99995 / 100 : ℚ) ≤ n / u := by
      rw [div_le_div_iff₀ (by norm_num) hupos, mul_comm (n : ℚ)]
      exact_mod_cast not_lt.mp hle
    exact absurd (limit_le_rounded.trans (rounded_mono hcount)) (not_le.mpr h)
  · intro h
    -- the count is below the limit by at least a hundredth of `1 / u`, and rounding moves it less
    have hgap : (n : ℚ) / u ≤ 99995 / 100 - 1 / 10 ^ 11 := by
      have hstep : 100 * (n : ℚ) + 1 ≤ 99995 * u := by exact_mod_cast h
      have hu' : (u : ℚ) ≤ 10 ^ 9 := by exact_mod_cast hu'
      rw [div_le_iff₀ hupos]
      linarith
    have hcount : 0 ≤ (n : ℚ) / u := by positivity
    have herror := (abs_le.mp (abs_rounded_sub_le ((n : ℚ) / u))).2
    rw [abs_of_nonneg hcount] at herror
    linarith [underflow_lt]

theorem fixedNumber_lt_thousand_iff (q : ℚ) : fixedNumber 1 q < 1000 ↔ q < 99995 / 100 := by
  rw [fixedNumber, pow_one, div_lt_iff₀ (by norm_num)]
  constructor
  · intro h
    by_contra hle
    have htie : nearestEven (99995 / 100 * 10) = 10000 :=
      nearestEven_eq (.inr ⟨by norm_num, by decide⟩)
    have hmono : nearestEven (99995 / 100 * 10) ≤ nearestEven (q * 10) :=
      nearestEven_mono (mul_le_mul_of_nonneg_right (not_lt.mp hle) (by norm_num))
    rw [htie] at hmono
    have : (10000 : ℚ) ≤ nearestEven (q * 10) := by exact_mod_cast hmono
    linarith
  · intro h
    have := (abs_le.mp (nearest_nearestEven (q * 10)).within).1
    linarith

/-! ## Sizes -/

theorem number_toFloat {n : UInt64} (h : n.toNat < 2 ^ 53) : number n.toFloat = n.toNat := by
  rw [(isRounded_toFloat n).number_of_isFinite (isFinite_toFloat n), rounded_natCast h]

section
variable {n : ℕ}

theorem lt_of_tier (h : n < 10 ^ 12) : n < 10 ^ (3 * tier n + 3) := by
  by_contra hle
  have hle : (10 : ℚ) ^ (3 * (tier n + 1)) ≤ |(n : ℚ)| := by
    rw [Nat.abs_cast, Nat.mul_add]
    exact_mod_cast not_lt.mp hle
  rcases (tier_le n).lt_or_eq with hless | hgreatest
  · have := (le_tier_iff (Nat.succ_ne_zero _) hless n).mpr hle
    omega
  · rw [hgreatest, Nat.abs_cast] at hle
    have : 10 ^ 12 ≤ n := by exact_mod_cast hle
    omega

theorem unit_le (pos : 0 < n) : 10 ^ (3 * tier n) ≤ n := by
  rcases Nat.eq_zero_or_pos (tier n) with hzero | hpos
  · rw [hzero]
    exact pos
  · have hunit := (le_tier_iff hpos.ne' (tier_le n) n).mp le_rfl
    rw [Nat.abs_cast] at hunit
    exact_mod_cast hunit

theorem count_bounds (pos : 0 < n) (h : n < 10 ^ 12) :
    1 ≤ rounded ((n : ℚ) / 10 ^ (3 * tier n)) ∧ rounded ((n : ℚ) / 10 ^ (3 * tier n)) ≤ 1000 := by
  have hunit : (0 : ℚ) < 10 ^ (3 * tier n) := by positivity
  have hlow : ((1 : ℕ) : ℚ) ≤ n / 10 ^ (3 * tier n) := by
    rw [le_div_iff₀ hunit, Nat.cast_one, one_mul]
    exact_mod_cast unit_le pos
  have hhigh : (n : ℚ) / 10 ^ (3 * tier n) ≤ ((1000 : ℕ) : ℚ) := by
    have hlt : n < 1000 * 10 ^ (3 * tier n) := by
      have := lt_of_tier h
      rwa [pow_add, mul_comm] at this
    rw [div_le_iff₀ hunit]
    exact_mod_cast hlt.le
  have hone := rounded_mono hlow
  have hthousand := rounded_mono hhigh
  rw [rounded_natCast (by decide)] at hone hthousand
  exact ⟨by exact_mod_cast hone, by exact_mod_cast hthousand⟩

end

/-- A size is labelled with digits, one decimal at most that is not zero, and the suffix of the
greatest unit that it reaches. Their number is at least one if there is a unit, and below a thousand
unless the size comes within half a tenth of the next unit: then it is a thousand. -/
theorem abbreviate_count (n : UInt64) (h : n.toNat < 10 ^ 12) :
    ∃ (t : ℕ) (whole decimals : List Char) (q : ℚ),
      abbreviate n.toFloat = String.ofList (whole ++ decimals ++ tierSuffix t) ∧
      whole ≠ [] ∧ AllDigits whole ∧ Trimmed 1 decimals ∧
      textNumber? (whole ++ decimals) = some q ∧
      t ≤ 3 ∧ n.toNat < 10 ^ (3 * t + 3) ∧ (t ≠ 0 → 10 ^ (3 * t) ≤ n.toNat ∧ 1 ≤ q) ∧
      q ≤ 1000 ∧ (q < 1000 ↔ 100 * n.toNat < 99995 * 10 ^ (3 * t)) := by
  rcases Nat.eq_zero_or_pos n.toNat with hzero | pos
  · obtain rfl : n = 0 := UInt64.toNat_inj.mp hzero
    have hlabel : abbreviate (0 : UInt64).toFloat = "0" := by decide +kernel
    exact ⟨0, ['0'], [], 0, hlabel, by decide, allDigits_toDigits 0, .inl rfl,
      textNumber?_toDigits 0, by decide, by decide, nofun, by norm_num, by norm_num⟩
  obtain ⟨scaled, fin, hnumber, hlabel⟩ := exists_abbreviate (isFinite_toFloat n)
  rw [number_toFloat (h.trans (by decide))] at hnumber hlabel
  obtain ⟨hone, hthousand⟩ := count_bounds pos h
  obtain ⟨negative, whole, decimals, hne, hw, htrimmed, htext, hvalue, hsign⟩ :=
    exists_trimmed_fixedText fin one_ne_zero
  rw [hnumber] at hvalue hsign
  obtain rfl := hsign (by linarith)
  have hlow := fixedNumber_mono 1 hone
  have hhigh := fixedNumber_mono 1 hthousand
  rw [fixedNumber_of_decimal 1 (q := 1) 10 (by norm_num)] at hlow
  rw [fixedNumber_of_decimal 1 (q := 1000) 10000 (by norm_num)] at hhigh
  have hlimit := rounded_lt_limit_iff (n := n.toNat) (Nat.pow_pos (by decide : 0 < 10))
    (Nat.pow_le_pow_right (by decide) (Nat.mul_le_mul_left 3 (tier_le n.toNat)))
  rw [Nat.cast_pow, Nat.cast_ofNat] at hlimit
  exact ⟨tier n.toNat, whole, decimals, _, by rw [hlabel, htext]; rfl, hne, hw, htrimmed, hvalue,
    tier_le _, lt_of_tier h, fun _ => ⟨unit_le pos, hlow⟩, hhigh,
    (fixedNumber_lt_thousand_iff _).trans hlimit⟩

theorem abbreviate_count_below_limit :
    (999949 : UInt64).toNat < 10 ^ 12 ∧
    ∃ (count : List Char) (q : ℚ),
      abbreviate (999949 : UInt64).toFloat = String.ofList (count ++ ['K']) ∧
      textNumber? count = some q ∧ 1 ≤ q ∧ q < 1000 := by
  have hsize : (999949 : UInt64).toNat < 10 ^ 12 := by decide
  refine ⟨hsize, ?_⟩
  obtain ⟨t, whole, decimals, q, hlabel, -, -, -, hnumber, ht, habove, hunit, -, hlimit⟩ :=
    abbreviate_count 999949 hsize
  have hn : (999949 : UInt64).toNat = 999949 := rfl
  rw [hn] at habove hunit hlimit
  interval_cases t
  · omega
  · exact ⟨_, q, hlabel, hnumber, (hunit one_ne_zero).2, hlimit.mpr (by decide)⟩
  · exact absurd (hunit two_ne_zero).1 (by decide)
  · exact absurd (hunit three_ne_zero).1 (by decide)

/-- Just below a million the label is `1000K`, a count that is not below a thousand. -/
theorem abbreviate_below_million :
    ¬ ∃ (count suffix : List Char) (q : ℚ), suffix ∈ [[], ['K'], ['M'], ['G']] ∧
      abbreviate (999999 : UInt64).toFloat = String.ofList (count ++ suffix) ∧
      textNumber? count = some q ∧ q < 1000 := by
  have hlabel : abbreviate (999999 : UInt64).toFloat = "1000K" := by decide +kernel
  rintro ⟨count, suffix, q, hsuffix, htext, hnumber, hlt⟩
  rw [hlabel] at htext
  have hchars : ['1', '0', '0', '0'] ++ ['K'] = count ++ suffix := String.ofList_injective htext
  simp only [List.mem_cons, List.not_mem_nil, or_false] at hsuffix
  rcases hsuffix with rfl | rfl | rfl | rfl
  · -- the whole label is no number
    rw [List.append_nil] at hchars
    rw [← hchars] at hnumber
    cases hnumber
  · obtain ⟨rfl, -⟩ := List.append_inj' hchars rfl
    have hthousand := (textNumber?_toDigits 1000).symm.trans hnumber
    rw [← Option.some.inj hthousand] at hlt
    norm_num at hlt
  · exact absurd (List.append_inj' hchars rfl).2 (by decide)
  · exact absurd (List.append_inj' hchars rfl).2 (by decide)

end TimingCharts.Label
