import TimingCharts.Proofs.DecimalTexts
import TimingCharts.Proofs.ExactValues

/-!
# Rounded decimals

A text of a given precision denotes its number rounded: to a count of decimals (`fixedNumber`) or to
one significant digit (`digitNumber`). Both ways of rounding keep order, and the second one never
gives zero for anything else.
-/

namespace TimingCharts

/-! ## A count of decimals -/

def fixedNumber (places : ℕ) (q : ℚ) : ℚ := nearestEven (q * 10 ^ places) / 10 ^ places

section
variable (places : ℕ)

theorem fixedNumber_mono : Monotone (fixedNumber places) := by
  intro p q h
  have hscaled : p * 10 ^ places ≤ q * 10 ^ places := mul_le_mul_of_nonneg_right h (by positivity)
  have hnearest : (nearestEven (p * 10 ^ places) : ℚ) ≤ nearestEven (q * 10 ^ places) := by
    exact_mod_cast nearestEven_mono hscaled
  exact div_le_div_of_nonneg_right hnearest (by positivity)

theorem fixedNumber_neg (q : ℚ) : fixedNumber places (-q) = -fixedNumber places q := by
  rw [fixedNumber, neg_mul, nearestEven_neg, Int.cast_neg, neg_div, fixedNumber]

theorem fixedNumber_of_decimal {q : ℚ} (n : ℤ) (h : q * 10 ^ places = n) :
    fixedNumber places q = q := by
  rw [fixedNumber, h, nearestEven_intCast, ← h]
  exact mul_div_cancel_right₀ q (by positivity)

theorem fixedNumber_natCast (n : ℕ) : fixedNumber places n = n :=
  fixedNumber_of_decimal places (n * 10 ^ places) (by push_cast; rfl)

end

/-! ## One significant digit -/

def digitNumber (q : ℚ) : ℚ := nearestEven (q / 10 ^ Int.log 10 |q|) * 10 ^ Int.log 10 |q|

theorem digitNumber_neg (q : ℚ) : digitNumber (-q) = -digitNumber q := by
  rw [digitNumber, abs_neg, neg_div, nearestEven_neg, Int.cast_neg, neg_mul, digitNumber]

theorem digitNumber_zero : digitNumber 0 = 0 := by
  rw [digitNumber, zero_div, ← Int.cast_zero, nearestEven_intCast, Int.cast_zero, zero_mul]

theorem lt_zpow_log (q : ℚ) : q < (10 : ℚ) ^ (Int.log 10 q + 1) := by
  exact_mod_cast Int.lt_zpow_succ_log_self (by decide : 1 < 10) q

section
variable {q : ℚ} (hq : 0 < q)
include hq

theorem zpow_log_le : (10 : ℚ) ^ Int.log 10 q ≤ q := by
  exact_mod_cast Int.zpow_log_le_self (by decide : 1 < 10) hq

theorem log_eq_of_bounds {b : ℕ} (hb : 1 < b) {k : ℤ} (low : (b : ℚ) ^ k ≤ q)
    (high : q < (b : ℚ) ^ (k + 1)) : Int.log b q = k := by
  have hlow := (Int.zpow_le_iff_le_log hb hq).mp low
  have hhigh := (Int.lt_zpow_iff_log_lt hb hq).mp high
  omega

theorem digit_bounds :
    1 ≤ nearestEven (q / 10 ^ Int.log 10 q) ∧ nearestEven (q / 10 ^ Int.log 10 q) ≤ 10 := by
  have hpos : (0 : ℚ) < 10 ^ Int.log 10 q := by positivity
  have hlow : ((1 : ℤ) : ℚ) ≤ q / 10 ^ Int.log 10 q := by
    rw [le_div_iff₀ hpos, Int.cast_one, one_mul]
    exact zpow_log_le hq
  have hhigh : q / 10 ^ Int.log 10 q ≤ ((10 : ℤ) : ℚ) := by
    have h := (lt_zpow_log q).le
    rw [zpow_add_one₀ (by norm_num), mul_comm] at h
    rw [div_le_iff₀ hpos]
    exact_mod_cast h
  constructor
  · exact (nearestEven_intCast 1).symm.le.trans (nearestEven_mono hlow)
  · exact (nearestEven_mono hhigh).trans (nearestEven_intCast 10).le

theorem zpow_log_le_digitNumber : (10 : ℚ) ^ Int.log 10 q ≤ digitNumber q := by
  rw [digitNumber, abs_of_pos hq]
  have h : (1 : ℚ) ≤ nearestEven (q / 10 ^ Int.log 10 q) := by exact_mod_cast (digit_bounds hq).1
  exact le_mul_of_one_le_left (by positivity) h

theorem digitNumber_le_zpow_log : digitNumber q ≤ (10 : ℚ) ^ (Int.log 10 q + 1) := by
  rw [digitNumber, abs_of_pos hq, zpow_add_one₀ (by norm_num), mul_comm]
  have h : (nearestEven (q / 10 ^ Int.log 10 q) : ℚ) ≤ 10 := by exact_mod_cast (digit_bounds hq).2
  exact mul_le_mul_of_nonneg_left h (by positivity)

theorem digitNumber_pos : 0 < digitNumber q :=
  lt_of_lt_of_le (by positivity) (zpow_log_le_digitNumber hq)

end

theorem digitNumber_mono_of_pos {p q : ℚ} (hp : 0 < p) (h : p ≤ q) :
    digitNumber p ≤ digitNumber q := by
  have hq := hp.trans_le h
  rcases (Int.log_mono_right hp h : Int.log 10 p ≤ Int.log 10 q).eq_or_lt with hlog | hlog
  · -- the same power of ten: the same multiples
    have hpos : (0 : ℚ) < 10 ^ Int.log 10 q := by positivity
    rw [digitNumber, digitNumber, abs_of_pos hp, abs_of_pos hq, hlog]
    apply mul_le_mul_of_nonneg_right _ hpos.le
    exact_mod_cast nearestEven_mono (div_le_div_of_nonneg_right h hpos.le)
  · calc digitNumber p ≤ 10 ^ (Int.log 10 p + 1) := digitNumber_le_zpow_log hp
      _ ≤ 10 ^ Int.log 10 q := zpow_le_zpow_right₀ (by norm_num) (by omega)
      _ ≤ digitNumber q := zpow_log_le_digitNumber hq

theorem digitNumber_mono_of_nonneg {p q : ℚ} (hp : 0 ≤ p) (h : p ≤ q) :
    digitNumber p ≤ digitNumber q := by
  rcases hp.eq_or_lt with rfl | hp
  · rw [digitNumber_zero]
    rcases h.eq_or_lt with rfl | hq
    · exact digitNumber_zero.ge
    · exact (digitNumber_pos hq).le
  · exact digitNumber_mono_of_pos hp h

/-! ## Texts with a count of decimals -/

theorem paddedDigits_eq (width n : ℕ) :
    paddedDigits width n = decimalText (width - (Nat.toDigits 10 n).length) n := rfl

namespace Binary

theorem length_paddedDigits (width n : ℕ) : width ≤ (paddedDigits width n).length := by
  rw [paddedDigits_eq, decimalText, List.length_append, List.length_replicate]
  omega

theorem exists_fixed (b : Binary) (places : ℕ) :
    ∃ whole fraction, whole ≠ [] ∧ AllDigits whole ∧ AllDigits fraction ∧
      fraction.length = places ∧
      digitsValue (whole ++ fraction) =
        roundQuotient (b.numerator * Nat.pow 10 places) b.denominator ∧
      b.fixed places =
        minus b.negative ++ whole ++ if places = 0 then [] else '.' :: fraction := by
  let n := roundQuotient (b.numerator * Nat.pow 10 places) b.denominator
  let digits := paddedDigits (places + 1) n
  have hlength : places + 1 ≤ digits.length := length_paddedDigits (places + 1) n
  have hdigits : AllDigits digits := fun c hc => isDigit_of_mem_decimalText hc
  refine ⟨digits.take (digits.length - places), digits.drop (digits.length - places), ?_,
    fun c hc => hdigits c (List.mem_of_mem_take hc),
    fun c hc => hdigits c (List.mem_of_mem_drop hc), ?_, ?_, rfl⟩
  · rw [← List.length_pos_iff, List.length_take]
    omega
  · rw [List.length_drop]
    omega
  · rw [List.take_append_drop]
    exact digitsValue_decimalText _ n

theorem number_eq (b : Binary) :
    b.number = if b.negative then -((b.numerator : ℚ) / b.denominator)
      else (b.numerator : ℚ) / b.denominator := by
  rw [number]
  split <;> rfl

theorem fixedNumber_quotient (b : Binary) (places : ℕ) :
    (Decimal.mk (roundQuotient (b.numerator * Nat.pow 10 places) b.denominator)
      (-(places : ℤ))).number = fixedNumber places (b.numerator / b.denominator) := by
  have hround := roundQuotient_eq (b.numerator * Nat.pow 10 places) b.denominator_pos
  have hscaled : ((b.numerator * Nat.pow 10 places : ℕ) : ℚ) / b.denominator =
      (b.numerator : ℚ) / b.denominator * 10 ^ places := by
    rw [Nat.pow_eq, Nat.cast_mul, Nat.cast_pow, Nat.cast_ofNat, mul_div_right_comm]
  rw [hscaled] at hround
  rw [Decimal.number, fixedNumber, ← hround, Int.cast_natCast, zpow_neg, zpow_natCast,
    div_eq_mul_inv]

theorem textNumber?_fixed (b : Binary) (places : ℕ) :
    textNumber? (b.fixed places) = some (fixedNumber places b.number) := by
  obtain ⟨whole, fraction, hne, hw, hf, hlength, hvalue, htext⟩ := b.exists_fixed places
  have hread : readDecimal (whole ++ if places = 0 then [] else '.' :: fraction) =
      some ⟨digitsValue (whole ++ fraction), -(places : ℤ)⟩ := by
    split
    · next h0 =>
      rw [h0, List.length_eq_zero_iff] at hlength
      rw [h0, hlength, List.append_nil, readDecimal_whole hne hw]
      rfl
    · rw [readDecimal_point hne hw hf, hlength]
  rw [htext, textNumber?_minus hne hw, hread, Option.map_some, hvalue, fixedNumber_quotient,
    number_eq]
  split
  · rw [fixedNumber_neg]
  · rfl

theorem exists_trimmed_fixed (b : Binary) {places : ℕ} (pos : places ≠ 0) :
    ∃ whole decimals, whole ≠ [] ∧ AllDigits whole ∧ Trimmed places decimals ∧
      Label.trimDecimals (b.fixed places) = minus b.negative ++ whole ++ decimals ∧
      textNumber? (minus b.negative ++ whole ++ decimals) = some (fixedNumber places b.number) := by
  obtain ⟨whole, fraction, hne, hw, hf, rfl, -, htext⟩ := b.exists_fixed places
  rw [if_neg pos] at htext
  obtain ⟨decimals, htrimmed, htrim, hnumber⟩ := exists_trimmed b.negative hne hw hf
  refine ⟨whole, decimals, hne, hw, htrimmed, by rw [htext, htrim], ?_⟩
  rw [hnumber, ← htext, textNumber?_fixed]

/-! ## Texts with one digit -/

theorem exists_length_toDigits {n : ℕ} (hn : 0 < n) :
    ∃ k, (Nat.toDigits 10 n).length = k + 1 ∧ 10 ^ k ≤ n ∧ n < 10 ^ (k + 1) := by
  have hpos : 0 < (Nat.toDigits 10 n).length := List.length_pos_iff.mpr Nat.toDigits_ne_nil
  obtain ⟨k, hk⟩ := Nat.exists_eq_succ_of_ne_zero hpos.ne'
  refine ⟨k, hk, ?_, (Nat.length_toDigits_le_iff (by decide) k.succ_pos).mp hk.le⟩
  rcases Nat.eq_zero_or_pos k with rfl | hkpos
  · exact hn
  · by_contra hlt
    have := (Nat.length_toDigits_le_iff (by decide) hkpos).mpr (not_le.mp hlt)
    omega

theorem magnitude_eq (b : Binary) (hb : b.significand ≠ 0) :
    b.magnitude = Int.log 10 ((b.numerator : ℚ) / b.denominator) := by
  have hn : 0 < b.numerator := Nat.mul_pos (Nat.pos_of_ne_zero hb) (Nat.two_pow_pos _)
  have hd := b.denominator_pos
  have hn' : (0 : ℚ) < b.numerator := by exact_mod_cast hn
  have hd' : (0 : ℚ) < b.denominator := by exact_mod_cast hd
  have hten : (10 : ℚ) ≠ 0 := by norm_num
  unfold magnitude
  split
  · next hle =>
    obtain ⟨k, hlength, low, high⟩ := exists_length_toDigits (Nat.div_pos hle hd)
    rw [Nat.le_div_iff_mul_le hd] at low
    rw [Nat.div_lt_iff_lt_mul hd] at high
    rw [hlength, log_eq_of_bounds (div_pos hn' hd') (by decide) (k := k)]
    · push_cast
      omega
    · rw [zpow_natCast, le_div_iff₀ hd']
      exact_mod_cast low
    · rw [← Nat.cast_add_one, zpow_natCast, div_lt_iff₀ hd']
      exact_mod_cast high
  · next hlt =>
    have hsteps : 0 < (b.denominator - 1) / b.numerator := Nat.div_pos (by omega) hn
    obtain ⟨k, hlength, low, high⟩ := exists_length_toDigits hsteps
    rw [Nat.le_div_iff_mul_le hn] at low
    rw [Nat.div_lt_iff_lt_mul hn] at high
    have hk : Int.negOfNat (k + 1) = -((k + 1 : ℕ) : ℤ) := rfl
    have hlow : b.denominator ≤ 10 ^ (k + 1) * b.numerator := by omega
    have hhigh : 10 ^ k * b.numerator < b.denominator := by omega
    dsimp only
    rw [hlength, hk, log_eq_of_bounds (div_pos hn' hd') (by decide)
      (k := -((k + 1 : ℕ) : ℤ))]
    · rw [zpow_neg, zpow_natCast, le_div_iff₀ hd', inv_mul_le_iff₀ (by positivity)]
      exact_mod_cast hlow
    · have hexponent : -((k + 1 : ℕ) : ℤ) + 1 = -(k : ℤ) := by
        push_cast
        ring
      rw [hexponent, zpow_neg, zpow_natCast, div_lt_iff₀ hd', lt_inv_mul_iff₀ (by positivity)]
      exact_mod_cast hhigh

theorem digit_quotient (b : Binary) (k : ℤ) :
    (roundQuotient (b.numerator * Nat.pow 10 (-k).toNat) (b.denominator * Nat.pow 10 k.toNat) : ℤ) =
      nearestEven ((b.numerator : ℚ) / b.denominator / 10 ^ k) := by
  have hten : (10 : ℚ) ≠ 0 := by norm_num
  have hk : (10 : ℚ) ^ k = 10 ^ k.toNat / 10 ^ (-k).toNat := by
    rw [← zpow_natCast, ← zpow_natCast, ← zpow_sub₀ hten]
    congr 1
    omega
  have hd := Nat.mul_pos b.denominator_pos (Nat.pow_pos (n := k.toNat) (by decide : 0 < 10))
  rw [Nat.pow_eq, Nat.pow_eq, roundQuotient_eq _ hd, hk]
  congr 1
  push_cast
  field_simp

theorem exists_oneDigit (b : Binary) :
    ∃ (digit : ℕ) (k : ℤ),
      b.oneDigit = minus b.negative ++ Nat.toDigits 10 digit ++ 'e' :: powerText k ∧
      (digit : ℚ) * 10 ^ k = digitNumber (b.numerator / b.denominator) := by
  by_cases hb : b.significand = 0
  · refine ⟨0, 0, ?_, ?_⟩
    · rw [oneDigit, if_pos hb, List.append_assoc]
      rfl
    · rw [numerator, hb, Nat.zero_mul, Nat.cast_zero, zero_div, zero_mul, digitNumber_zero]
  have hn : 0 < b.numerator := Nat.mul_pos (Nat.pos_of_ne_zero hb) (Nat.two_pow_pos _)
  have hq : (0 : ℚ) < b.numerator / b.denominator :=
    div_pos (by exact_mod_cast hn) (by exact_mod_cast b.denominator_pos)
  have hdigit := b.digit_quotient b.magnitude
  have hvalue : (roundQuotient (b.numerator * Nat.pow 10 (-b.magnitude).toNat)
      (b.denominator * Nat.pow 10 b.magnitude.toNat) : ℚ) * 10 ^ b.magnitude =
        digitNumber (b.numerator / b.denominator) := by
    rw [digitNumber, abs_of_pos hq, ← magnitude_eq b hb, ← hdigit, Int.cast_natCast]
  unfold oneDigit
  rw [if_neg hb]
  dsimp only
  generalize roundQuotient _ _ = digit at hvalue
  split
  · next h10 =>
    refine ⟨1, b.magnitude + 1, rfl, ?_⟩
    rw [← hvalue, h10, zpow_add_one₀ (by norm_num)]
    push_cast
    ring
  · exact ⟨digit, b.magnitude, rfl, hvalue⟩

theorem textNumber?_oneDigit (b : Binary) :
    textNumber? b.oneDigit = some (digitNumber b.number) := by
  obtain ⟨digit, k, htext, hvalue⟩ := b.exists_oneDigit
  rw [htext, textNumber?_minus Nat.toDigits_ne_nil (allDigits_toDigits digit),
    readDecimal_exponent Nat.toDigits_ne_nil (allDigits_toDigits digit), readExponent_powerText,
    digitsValue_toDigits, number_eq, Option.map_some, Option.map_some, Decimal.number, hvalue]
  split
  · rw [digitNumber_neg]
  · rfl

end Binary

/-! ## Texts of floats -/

section
variable {x : Float} (hx : x.isFinite = true)
include hx

theorem textNumber?_fixedText (places : ℕ) :
    textNumber? (fixedText places x) = some (fixedNumber places (number x)) := by
  obtain ⟨b, hb, hnumber⟩ := exists_ofFloat? hx
  rw [fixedText, hb, ← hnumber]
  exact b.textNumber?_fixed places

theorem exists_trimmed_fixedText {places : ℕ} (pos : places ≠ 0) :
    ∃ negative whole decimals, whole ≠ [] ∧ AllDigits whole ∧ Trimmed places decimals ∧
      Label.trimDecimals (fixedText places x) = minus negative ++ whole ++ decimals ∧
      textNumber? (minus negative ++ whole ++ decimals) =
        some (fixedNumber places (number x)) ∧
      (0 < number x → negative = false) := by
  obtain ⟨b, hb, hnumber⟩ := exists_ofFloat? hx
  obtain ⟨whole, decimals, hne, hw, htrimmed, htext, htrim⟩ := b.exists_trimmed_fixed pos
  rw [fixedText, hb, ← hnumber]
  refine ⟨b.negative, whole, decimals, hne, hw, htrimmed, htext, htrim, fun hpos => ?_⟩
  rw [Binary.number_eq] at hpos
  by_contra hnegative
  rw [if_pos (eq_true_of_ne_false hnegative)] at hpos
  have : (0 : ℚ) ≤ b.numerator / b.denominator := by positivity
  linarith

theorem exists_exponentText :
    ∃ front digits, digits ≠ [] ∧ AllDigits digits ∧ exponentText x = front ++ digits ∧
      textNumber? (front ++ digits) = some (digitNumber (number x)) := by
  obtain ⟨b, hb, hnumber⟩ := exists_ofFloat? hx
  obtain ⟨digit, k, htext, -⟩ := b.exists_oneDigit
  let front := minus b.negative ++ Nat.toDigits 10 digit ++ 'e' :: minus (decide (k < 0))
  have hfront : b.oneDigit = front ++ Nat.toDigits 10 k.natAbs := by
    rw [htext, powerText_eq]
    simp [front]
  refine ⟨front, _, Nat.toDigits_ne_nil, allDigits_toDigits k.natAbs, ?_, ?_⟩
  · rw [exponentText, hb]
    exact hfront
  · rw [← hfront, b.textNumber?_oneDigit, hnumber]

end

end TimingCharts
