import Mathlib

/-!
# Rounding to binary numbers

A float has 53 significant bits, and its last bit counts at least `2 ^ (-1074)`. `rounded` takes a
number to the nearest one of this form, and of two equally near ones to the even one. All that is
used of it later is that it keeps order (`rounded_mono`), that it leaves a number alone that is a
multiple of its last bit (`rounded_of_multiple`), and how far it can go (`abs_rounded_sub_le`).
-/

namespace TimingCharts

/-! ## Whole numbers -/

/-- At most a half away, and even if it is a half. -/
def Nearest (q : ℚ) (n : ℤ) : Prop := |q - n| < 1 / 2 ∨ |q - n| = 1 / 2 ∧ Even n

namespace Nearest
variable {q q' : ℚ} {n n' : ℤ}

theorem within (h : Nearest q n) : |q - n| ≤ 1 / 2 := by
  rcases h with h | ⟨h, -⟩
  · exact h.le
  · exact h.le

theorem even (h : Nearest q n) (tie : |q - n| = 1 / 2) : Even n := by
  rcases h with h | ⟨-, h⟩
  · exact absurd tie h.ne
  · exact h

theorem mono (h : Nearest q n) (h' : Nearest q' n') (hq : q ≤ q') : n ≤ n' := by
  by_contra hlt
  have hnext : (n' : ℚ) + 1 ≤ n := by exact_mod_cast not_le.mp hlt
  have hlow := (abs_le.mp h.within).1
  have hhigh := (abs_le.mp h'.within).2
  -- both are ties between the same two numbers, which cannot both be even
  have htie : q - n = -(1 / 2) := by linarith
  have htie' : q' - n' = 1 / 2 := by linarith
  have hn : n = n' + 1 := by
    have : (n : ℚ) = n' + 1 := by linarith
    exact_mod_cast this
  have heven := h.even (by rw [htie, abs_neg]; norm_num)
  have heven' := h'.even (by rw [htie']; norm_num)
  rw [hn, Int.even_add_one] at heven
  exact heven heven'

theorem unique (h : Nearest q n) (h' : Nearest q n') : n = n' :=
  le_antisymm (h.mono h' le_rfl) (h'.mono h le_rfl)

theorem neg (h : Nearest q n) : Nearest (-q) (-n) := by
  have habs : |-q - ((-n : ℤ) : ℚ)| = |q - n| := by
    rw [← abs_neg]
    push_cast
    ring_nf
  rwa [Nearest, habs, even_neg]

end Nearest

theorem nearest_intCast (n : ℤ) : Nearest n n := by
  left
  simp

def nearestEven (q : ℚ) : ℤ :=
  if Int.fract q < 1 / 2 ∨ Int.fract q = 1 / 2 ∧ Even ⌊q⌋ then ⌊q⌋ else ⌊q⌋ + 1

theorem nearest_nearestEven (q : ℚ) : Nearest q (nearestEven q) := by
  have hfract : q - ⌊q⌋ = Int.fract q := Int.self_sub_floor q
  have hnonneg := Int.fract_nonneg q
  unfold nearestEven
  split
  · next h =>
    rwa [Nearest, hfract, abs_of_nonneg hnonneg]
  · next h =>
    obtain ⟨hhalf, hodd⟩ := not_or.mp h
    have habs : |q - ((⌊q⌋ + 1 : ℤ) : ℚ)| = 1 - Int.fract q := by
      rw [abs_sub_comm, ← hfract, abs_of_nonneg]
      · push_cast
        ring
      · have := Int.lt_floor_add_one q
        push_cast
        linarith
    rw [Nearest, habs]
    rcases (not_lt.mp hhalf).lt_or_eq with hlt | heq
    · left
      linarith
    · right
      refine ⟨by linarith, ?_⟩
      rw [Int.even_add_one]
      exact fun heven => hodd ⟨heq.symm, heven⟩

theorem nearestEven_eq {q : ℚ} {n : ℤ} (h : Nearest q n) : nearestEven q = n :=
  (nearest_nearestEven q).unique h

theorem nearestEven_mono : Monotone nearestEven := fun q q' hq =>
  (nearest_nearestEven q).mono (nearest_nearestEven q') hq

theorem nearestEven_intCast (n : ℤ) : nearestEven n = n := nearestEven_eq (nearest_intCast n)

theorem nearestEven_neg (q : ℚ) : nearestEven (-q) = -nearestEven q :=
  nearestEven_eq (nearest_nearestEven q).neg

/-! ## Significant bits -/

/-- The exponent of the last bit that a float of about this size has. -/
def lastBit (q : ℚ) : ℤ := max (Int.log 2 |q| - 52) (-1074)

/-- The nearest number with the last bit of a float. -/
def rounded (q : ℚ) : ℚ := nearestEven (q / 2 ^ lastBit q) * 2 ^ lastBit q

theorem lastBit_neg (q : ℚ) : lastBit (-q) = lastBit q := by
  rw [lastBit, abs_neg, lastBit]

theorem least_le_lastBit (q : ℚ) : -1074 ≤ lastBit q := le_max_right _ _

theorem abs_lt_two_zpow (q : ℚ) : |q| < 2 ^ (lastBit q + 53) := by
  calc |q| < 2 ^ (Int.log 2 |q| + 1) := by
        exact_mod_cast Int.lt_zpow_succ_log_self Nat.one_lt_two |q|
    _ ≤ 2 ^ (lastBit q + 53) := by
      apply zpow_le_zpow_right₀ one_le_two
      have : Int.log 2 |q| - 52 ≤ lastBit q := le_max_left _ _
      omega

theorem two_zpow_le_abs {q : ℚ} (hq : q ≠ 0) (h : -1074 < lastBit q) :
    2 ^ (lastBit q + 52) ≤ |q| := by
  have hlog : lastBit q + 52 = Int.log 2 |q| := by
    unfold lastBit at h ⊢
    omega
  rw [hlog]
  exact_mod_cast Int.zpow_log_le_self Nat.one_lt_two (abs_pos.mpr hq)

theorem lastBit_mono {q q' : ℚ} (hq : 0 < q) (h : q ≤ q') : lastBit q ≤ lastBit q' := by
  rw [lastBit, lastBit, abs_of_pos hq, abs_of_pos (hq.trans_le h)]
  exact max_le_max_right _ (sub_le_sub_right (Int.log_mono_right hq h) _)

theorem rounded_neg (q : ℚ) : rounded (-q) = -rounded q := by
  rw [rounded, lastBit_neg, neg_div, nearestEven_neg, Int.cast_neg, neg_mul, rounded]

theorem le_rounded {q : ℚ} {n : ℤ} (h : n * 2 ^ lastBit q ≤ q) : n * 2 ^ lastBit q ≤ rounded q := by
  have hpos : (0 : ℚ) < 2 ^ lastBit q := by positivity
  have hle : (n : ℚ) ≤ q / 2 ^ lastBit q := (le_div_iff₀ hpos).mpr h
  have hn := nearestEven_mono hle
  rw [nearestEven_intCast] at hn
  exact mul_le_mul_of_nonneg_right (by exact_mod_cast hn) hpos.le

theorem rounded_le {q : ℚ} {n : ℤ} (h : q ≤ n * 2 ^ lastBit q) : rounded q ≤ n * 2 ^ lastBit q := by
  have hneg := le_rounded (q := -q) (n := -n) (by
    rw [lastBit_neg, Int.cast_neg, neg_mul]
    exact neg_le_neg h)
  rw [lastBit_neg, rounded_neg, Int.cast_neg, neg_mul] at hneg
  exact neg_le_neg_iff.mp hneg

theorem rounded_of_multiple {q : ℚ} {n : ℤ} (h : q = n * 2 ^ lastBit q) : rounded q = q :=
  le_antisymm ((rounded_le h.le).trans h.ge) (h.le.trans (le_rounded h.ge))

theorem rounded_zero : rounded 0 = 0 :=
  rounded_of_multiple (n := 0) (by rw [Int.cast_zero, zero_mul])

theorem rounded_nonneg {q : ℚ} (h : 0 ≤ q) : 0 ≤ rounded q := by
  simpa using le_rounded (q := q) (n := 0) (by simpa using h)

theorem rounded_mono_of_nonneg {q q' : ℚ} (hq : 0 ≤ q) (h : q ≤ q') : rounded q ≤ rounded q' := by
  rcases hq.eq_or_lt with rfl | hq
  · rw [rounded_zero]
    exact rounded_nonneg h
  rcases (lastBit_mono hq h).eq_or_lt with hbit | hbit
  · -- the same last bit: the same multiples
    rw [rounded, rounded, ← hbit]
    apply mul_le_mul_of_nonneg_right _ (by positivity)
    exact_mod_cast nearestEven_mono (div_le_div_of_nonneg_right h (by positivity))
  · -- a power of two lies between the two numbers, and is a multiple of both last bits
    have hq' : 0 < q' := hq.trans_le h
    let top := lastBit q' + 52
    have hlow : q ≤ 2 ^ top := by
      rw [← abs_of_pos hq]
      refine (abs_lt_two_zpow q).le.trans (zpow_le_zpow_right₀ one_le_two ?_)
      omega
    have hhigh : (2 : ℚ) ^ top ≤ q' := by
      rw [← abs_of_pos hq']
      exact two_zpow_le_abs hq'.ne' ((least_le_lastBit q).trans_lt hbit)
    have multiple {t : ℤ} (ht : t ≤ top) :
        (2 : ℚ) ^ top = ((2 ^ (top - t).toNat : ℤ) : ℚ) * 2 ^ t := by
      push_cast
      rw [← zpow_natCast, ← zpow_add₀ two_ne_zero]
      congr 1
      omega
    calc rounded q ≤ 2 ^ top := by
          rw [multiple (t := lastBit q) (by omega)] at hlow ⊢
          exact rounded_le hlow
      _ ≤ rounded q' := by
          rw [multiple (t := lastBit q') (by omega)] at hhigh ⊢
          exact le_rounded hhigh

theorem rounded_mono : Monotone rounded := by
  intro q q' h
  rcases le_total 0 q with hq | hq
  · exact rounded_mono_of_nonneg hq h
  rcases le_total 0 q' with hq' | hq'
  · have := rounded_nonneg (neg_nonneg.mpr hq)
    rw [rounded_neg] at this
    exact (neg_nonneg.mp this).trans (rounded_nonneg hq')
  · have := rounded_mono_of_nonneg (neg_nonneg.mpr hq') (neg_le_neg h)
    rw [rounded_neg, rounded_neg] at this
    exact neg_le_neg_iff.mp this

/-! ## How far a number is rounded -/

def underflow : ℚ := 2 ^ (-1075 : ℤ)

theorem underflow_pos : 0 < underflow := zpow_pos two_pos _

/-- The error is relative to the number, and for the least numbers half of their last bit. -/
theorem abs_rounded_sub_le (q : ℚ) : |rounded q - q| ≤ |q| / 2 ^ 53 + underflow := by
  have hpos : (0 : ℚ) < 2 ^ lastBit q := by positivity
  have hhalf : |rounded q - q| ≤ 2 ^ (lastBit q - 1) := by
    have hscale : rounded q - q = -(q / 2 ^ lastBit q - nearestEven (q / 2 ^ lastBit q)) *
        2 ^ lastBit q := by
      rw [rounded]
      field_simp
      ring
    rw [hscale, abs_mul, abs_neg, abs_of_pos hpos, zpow_sub_one₀ two_ne_zero, mul_comm]
    apply mul_le_mul_of_nonneg_left _ hpos.le
    exact (nearest_nearestEven _).within.trans (by norm_num)
  rcases (least_le_lastBit q).eq_or_lt with hleast | hmore
  · rw [← hleast] at hhalf
    have : 0 ≤ |q| / 2 ^ 53 := by positivity
    exact hhalf.trans (le_add_of_nonneg_left this)
  · rcases eq_or_ne q 0 with rfl | hq
    · rw [rounded_zero, sub_zero, abs_zero, zero_div, zero_add]
      exact underflow_pos.le
    · have hbit : (2 : ℚ) ^ (lastBit q - 1) = 2 ^ (lastBit q + 52) / 2 ^ 53 := by
        rw [← zpow_natCast, ← zpow_sub₀ two_ne_zero]
        congr 1
        omega
      have hle : (2 : ℚ) ^ (lastBit q - 1) ≤ |q| / 2 ^ 53 := by
        rw [hbit]
        exact div_le_div_of_nonneg_right (two_zpow_le_abs hq hmore) (by positivity)
      exact hhalf.trans (hle.trans (le_add_of_nonneg_right underflow_pos.le))

end TimingCharts
