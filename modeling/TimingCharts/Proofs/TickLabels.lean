import TimingCharts.Proofs.RoundedDecimals
import TimingCharts.Proofs.UsableRanges

/-!
# The order of tick labels

A label denotes the number of its decimal text, times a unit if there is a suffix. For each way of
writing labels this is a function of the value's number, and that function keeps order: within one
unit because rounding does, and from one unit to a greater one because the number where the greater
one begins is written exactly in both.
-/

namespace TimingCharts.Label

open Float.Model

/-! ## Reading -/

def suffixUnit : Char → Option ℚ
  | 'K' => some (10 ^ 3)
  | 'M' => some (10 ^ 6)
  | 'G' => some (10 ^ 9)
  | _ => none

/-- The number that a label denotes. -/
def labelNumber? (label : String) : Option ℚ :=
  match label.toList.getLast?.bind suffixUnit with
  | some unit => (textNumber? label.toList.dropLast).map (· * unit)
  | none => textNumber? label.toList

theorem labelNumber?_suffix (text : List Char) {c : Char} {unit : ℚ}
    (hc : suffixUnit c = some unit) :
    labelNumber? (String.ofList (text ++ [c])) = (textNumber? text).map (· * unit) := by
  rw [labelNumber?, String.toList_ofList, List.getLast?_concat, Option.bind_some, hc,
    List.dropLast_concat]

theorem suffixUnit_of_isDigit {c : Char} (h : isDigit c = true) : suffixUnit c = none := by
  unfold suffixUnit
  split
  · exact absurd h (by decide)
  · exact absurd h (by decide)
  · exact absurd h (by decide)
  · rfl

theorem labelNumber?_digits (front : List Char) {digits : List Char} (hne : digits ≠ [])
    (hd : AllDigits digits) :
    labelNumber? (String.ofList (front ++ digits)) = textNumber? (front ++ digits) := by
  have hlast : (front ++ digits).getLast?.bind suffixUnit = none := by
    rw [List.getLast?_append_of_ne_nil _ hne, Option.bind_eq_none_iff]
    exact fun c hc => suffixUnit_of_isDigit (hd c (List.mem_of_getLast? hc))
  rw [labelNumber?, String.toList_ofList, hlast]

theorem labelNumber?_trimmed (front : List Char) {whole decimals : List Char} {places : ℕ}
    (hne : whole ≠ []) (hw : AllDigits whole) (ht : Trimmed places decimals) :
    labelNumber? (String.ofList (front ++ whole ++ decimals)) =
      textNumber? (front ++ whole ++ decimals) := by
  obtain rfl | ⟨kept, rfl, hkept, hk, -⟩ := ht
  · rw [List.append_nil]
    exact labelNumber?_digits front hne hw
  · rw [List.append_cons]
    exact labelNumber?_digits _ hkept hk

/-! ## Units -/

/-- How many thousands are multiplied for the unit of a number. -/
def tier (q : ℚ) : ℕ :=
  if 10 ^ 9 ≤ |q| then 3 else if 10 ^ 6 ≤ |q| then 2 else if 10 ^ 3 ≤ |q| then 1 else 0

def tierSuffix : ℕ → List Char
  | 1 => ['K']
  | 2 => ['M']
  | 3 => ['G']
  | _ => []

theorem tier_le (q : ℚ) : tier q ≤ 3 := by
  unfold tier
  split_ifs <;> decide

theorem tier_neg (q : ℚ) : tier (-q) = tier q := by
  rw [tier, abs_neg, tier]

theorem labelNumber?_tier (front : List Char) {whole decimals : List Char} {places t : ℕ}
    (hne : whole ≠ []) (hw : AllDigits whole) (htrimmed : Trimmed places decimals) (ht : t ≤ 3) :
    labelNumber? (String.ofList (front ++ whole ++ decimals ++ tierSuffix t)) =
      (textNumber? (front ++ whole ++ decimals)).map (· * 10 ^ (3 * t)) := by
  interval_cases t
  · show labelNumber? (String.ofList (_ ++ [])) = _
    rw [List.append_nil, labelNumber?_trimmed front hne hw htrimmed]
    simp
  · exact labelNumber?_suffix _ rfl
  · exact labelNumber?_suffix _ rfl
  · exact labelNumber?_suffix _ rfl

theorem le_tier_iff {t : ℕ} (pos : t ≠ 0) (ht : t ≤ 3) (q : ℚ) :
    t ≤ tier q ↔ 10 ^ (3 * t) ≤ |q| := by
  unfold tier
  interval_cases t <;> grind

theorem tier_mono {p q : ℚ} (h : |p| ≤ |q|) : tier p ≤ tier q := by
  rcases Nat.eq_zero_or_pos (tier p) with hp | hp
  · exact hp ▸ Nat.zero_le _
  · have hunit := (le_tier_iff hp.ne' (tier_le p) p).mp le_rfl
    exact (le_tier_iff hp.ne' (tier_le p) q).mpr (hunit.trans h)

def scaledNumber (places t : ℕ) (q : ℚ) : ℚ :=
  fixedNumber places (rounded (q / 10 ^ (3 * t))) * 10 ^ (3 * t)

section
variable (places : ℕ)

theorem scaledNumber_mono (t : ℕ) : Monotone (scaledNumber places t) := by
  intro p q h
  have hquotient : p / 10 ^ (3 * t) ≤ q / 10 ^ (3 * t) :=
    div_le_div_of_nonneg_right h (by positivity)
  have hfixed := fixedNumber_mono places (rounded_mono hquotient)
  exact mul_le_mul_of_nonneg_right hfixed (by positivity)

theorem scaledNumber_neg (t : ℕ) (q : ℚ) :
    scaledNumber places t (-q) = -scaledNumber places t q := by
  rw [scaledNumber, neg_div, rounded_neg, fixedNumber_neg, neg_mul, scaledNumber]

theorem scaledNumber_unit {t u : ℕ} (h : t ≤ u) (hu : u ≤ 3) :
    scaledNumber places t (10 ^ (3 * u)) = 10 ^ (3 * u) := by
  have hquotient : (10 : ℚ) ^ (3 * u) / 10 ^ (3 * t) = (10 ^ (3 * (u - t)) : ℕ) := by
    rw [Nat.cast_pow, Nat.cast_ofNat, Nat.mul_sub, pow_sub₀ _ (by norm_num) (by omega),
      div_eq_mul_inv]
  have hsmall : 10 ^ (3 * (u - t)) < 2 ^ 53 :=
    (Nat.pow_le_pow_right (by decide) (by omega : 3 * (u - t) ≤ 9)).trans_lt (by decide)
  rw [scaledNumber, hquotient, rounded_natCast hsmall, fixedNumber_natCast, ← hquotient]
  exact div_mul_cancel₀ _ (by positivity)

end

def abbreviatedNumber (q : ℚ) : ℚ := scaledNumber 1 (tier q) q

theorem abbreviatedNumber_mono : Monotone abbreviatedNumber := by
  apply monotone_of_odd_of_monotoneOn_nonneg
  · intro q
    rw [abbreviatedNumber, tier_neg, scaledNumber_neg, abbreviatedNumber]
  · intro p hp q hq h
    rcases (tier_mono (abs_le_abs_of_nonneg hp h)).eq_or_lt with htier | htier
    · rw [abbreviatedNumber, abbreviatedNumber, htier]
      exact scaledNumber_mono 1 _ h
    · -- the unit of the greater number lies between the two numbers
      have hunit := le_tier_iff (Nat.ne_zero_of_lt htier) (tier_le q)
      have hlow : p ≤ 10 ^ (3 * tier q) := by
        have := mt (hunit p).mpr htier.not_ge
        rw [abs_of_nonneg hp] at this
        exact (not_le.mp this).le
      have hhigh : 10 ^ (3 * tier q) ≤ q := by
        have := (hunit q).mp le_rfl
        rwa [abs_of_nonneg hq] at this
      calc abbreviatedNumber p ≤ scaledNumber 1 (tier p) (10 ^ (3 * tier q)) :=
            scaledNumber_mono 1 _ hlow
        _ = 10 ^ (3 * tier q) := scaledNumber_unit 1 htier.le (tier_le q)
        _ = scaledNumber 1 (tier q) (10 ^ (3 * tier q)) :=
            (scaledNumber_unit 1 le_rfl (tier_le q)).symm
        _ ≤ abbreviatedNumber q := scaledNumber_mono 1 _ hhigh

/-! ## Small times -/

/-- Three decimals, or one digit for less than a hundredth. -/
def secondsNumber (q : ℚ) : ℚ := if number 0.01 ≤ |q| then fixedNumber 3 q else digitNumber q

theorem number_hundredth : 1 / 100 ≤ number 0.01 ∧ number 0.01 < 3 / 200 := by
  rw [number_of_unpack (m := 5764607523034235) (e := -59) rfl]
  norm_num

theorem digitNumber_hundredth : digitNumber (number 0.01) = 1 / 100 := by
  obtain ⟨low, high⟩ := number_hundredth
  have hpos : 0 < number 0.01 := by linarith
  have hlog : Int.log 10 (number 0.01) = -2 := by
    apply log_eq_of_bounds hpos (by decide) <;> norm_num <;> linarith
  have hdigit : nearestEven (number 0.01 / 10 ^ (-2 : ℤ)) = 1 := by
    refine nearestEven_eq (.inl ?_)
    rw [abs_lt]
    norm_num
    constructor <;> linarith
  rw [digitNumber, abs_of_pos hpos, hlog, hdigit]
  norm_num

theorem fixedNumber_hundredth : fixedNumber 3 (1 / 100) = 1 / 100 :=
  fixedNumber_of_decimal 3 10 (by norm_num)

theorem secondsNumber_neg (q : ℚ) : secondsNumber (-q) = -secondsNumber q := by
  rw [secondsNumber, abs_neg, fixedNumber_neg, digitNumber_neg, ← apply_ite, secondsNumber]

theorem secondsNumber_mono : Monotone secondsNumber := by
  apply monotone_of_odd_of_monotoneOn_nonneg secondsNumber_neg
  intro p hp q hq h
  have hp : 0 ≤ p := hp
  have low := number_hundredth.1
  rw [secondsNumber, secondsNumber, abs_of_nonneg hp, abs_of_nonneg (hp.trans h)]
  by_cases hq' : number 0.01 ≤ q
  · rw [if_pos hq']
    split
    · exact fixedNumber_mono 3 h
    · next hp' =>
      calc digitNumber p ≤ digitNumber (number 0.01) :=
            digitNumber_mono_of_nonneg hp (not_le.mp hp').le
        _ = fixedNumber 3 (1 / 100) := by rw [digitNumber_hundredth, fixedNumber_hundredth]
        _ ≤ fixedNumber 3 q := fixedNumber_mono 3 (low.trans hq')
  · rw [if_neg hq', if_neg fun hp' => hq' (hp'.trans h)]
    exact digitNumber_mono_of_nonneg hp h

theorem secondsNumber_pos {q : ℚ} (hq : 0 < q) : 0 < secondsNumber q := by
  unfold secondsNumber
  rw [abs_of_pos hq]
  split
  · next h =>
    have hle := fixedNumber_mono 3 (number_hundredth.1.trans h)
    rw [fixedNumber_hundredth] at hle
    linarith
  · exact digitNumber_pos hq

theorem secondsNumber_ne_zero {q : ℚ} (hq : q ≠ 0) : secondsNumber q ≠ 0 := by
  rcases hq.lt_or_gt with hneg | hpos
  · have h := secondsNumber_pos (neg_pos.mpr hneg)
    rw [secondsNumber_neg] at h
    exact (neg_pos.mp h).ne
  · exact (secondsNumber_pos hpos).ne'

/-! ## Labels -/

theorem number_thousand : number 1e3 = 10 ^ 3 := by
  rw [number_of_unpack (m := 8796093022208000) (e := -43) rfl]
  norm_num

theorem number_million : number 1e6 = 10 ^ 6 := by
  rw [number_of_unpack (m := 8589934592000000) (e := -33) rfl]
  norm_num

theorem number_billion : number 1e9 = 10 ^ 9 := by
  rw [number_of_unpack (m := 8388608000000000) (e := -23) rfl]
  norm_num

theorem beq_zero_iff {x : Float} (hx : x.isNaN = false) : (x == 0) = true ↔ number x = 0 := by
  show UnpackedFloat.beq _ _ = true ↔ _
  rw [UnpackedFloat.beq, compare_number hx rfl, beq_iff_eq, Option.some.injEq, compare_eq_iff_eq,
    number_zero]

section
variable {x : Float} (hx : x.isFinite = true)
include hx

theorem ge_abs_iff {c : Float} (hc : c.isNaN = false) : x.abs ≥ c ↔ number c ≤ |number x| := by
  rw [ge_iff_le, le_iff_number hc (isNaN_of_isFinite (isFinite_abs hx)), number_abs]

theorem number_scaled {c : Float} {t : ℕ} (hc : c.isFinite = true) (hct : number c = 10 ^ (3 * t))
    (pos : t ≠ 0) :
    (x / c).isFinite = true ∧ number (x / c) = rounded (number x / 10 ^ (3 * t)) := by
  have hunit : (1000 : ℚ) ≤ 10 ^ (3 * t) := by
    have : (10 : ℚ) ^ 3 ≤ 10 ^ (3 * t) := pow_le_pow_right₀ (by norm_num) (by omega)
    linarith
  have hrounded := isRounded_div hx hc (by rw [hct]; positivity)
  rw [hct] at hrounded
  have hsmall : |number x / 10 ^ (3 * t)| ≤ overflow / 1000 := by
    rw [abs_div, abs_of_pos (by linarith : (0 : ℚ) < 10 ^ (3 * t))]
    exact div_le_div₀ overflow_pos.le (isFinite_iff_number.mp hx).2.le (by norm_num) hunit
  have fin : (x / c).isFinite = true := by
    apply hrounded.isFinite_of_lt
    linarith [underflow_le, le_overflow]
  exact ⟨fin, hrounded.number_of_isFinite fin⟩

theorem exists_abbreviate : ∃ scaled, scaled.isFinite = true ∧
    number scaled = rounded (number x / 10 ^ (3 * tier (number x))) ∧
    abbreviate x =
      String.ofList (trimDecimals (fixedText 1 scaled) ++ tierSuffix (tier (number x))) := by
  have hbillion := ge_abs_iff hx (c := 1e9) rfl
  have hmillion := ge_abs_iff hx (c := 1e6) rfl
  have hthousand := ge_abs_iff hx (c := 1e3) rfl
  rw [number_billion] at hbillion
  rw [number_million] at hmillion
  rw [number_thousand] at hthousand
  unfold abbreviate tier
  simp only [hbillion, hmillion, hthousand]
  split_ifs
  · obtain ⟨fin, hnumber⟩ := number_scaled hx (t := 3) rfl number_billion (by decide)
    exact ⟨_, fin, hnumber, rfl⟩
  · obtain ⟨fin, hnumber⟩ := number_scaled hx (t := 2) rfl number_million (by decide)
    exact ⟨_, fin, hnumber, rfl⟩
  · obtain ⟨fin, hnumber⟩ := number_scaled hx (t := 1) rfl number_thousand (by decide)
    exact ⟨_, fin, hnumber, rfl⟩
  · refine ⟨x, hx, ?_, rfl⟩
    rw [Nat.mul_zero, pow_zero, div_one, rounded_number hx]

theorem labelNumber?_abbreviate :
    labelNumber? (abbreviate x) = some (abbreviatedNumber (number x)) := by
  obtain ⟨scaled, fin, hnumber, hlabel⟩ := exists_abbreviate hx
  obtain ⟨negative, whole, decimals, hne, hw, htrimmed, htext, hvalue, -⟩ :=
    exists_trimmed_fixedText fin one_ne_zero
  rw [hlabel, htext, labelNumber?_tier _ hne hw htrimmed (tier_le _), hvalue, hnumber]
  rfl

theorem labelNumber?_millions :
    labelNumber? (millions x) = some (scaledNumber 0 2 (number x)) := by
  obtain ⟨fin, hnumber⟩ := number_scaled hx (t := 2) rfl number_million (by decide)
  rw [millions, labelNumber?_suffix _ rfl, textNumber?_fixedText fin, hnumber]
  rfl

theorem labelNumber?_seconds : labelNumber? (seconds x) = some (secondsNumber (number x)) := by
  have hzero := beq_zero_iff (isNaN_of_isFinite hx)
  have hhundredth := ge_abs_iff hx (c := 0.01) rfl
  unfold seconds secondsNumber
  simp only [hzero, hhundredth]
  split
  · next h0 =>
    have hnone : ¬ number 0.01 ≤ |(0 : ℚ)| := by
      rw [abs_zero]
      linarith [number_hundredth.1]
    rw [h0, if_neg hnone, digitNumber_zero]
    exact (labelNumber?_digits [] Nat.toDigits_ne_nil (allDigits_toDigits 0)).trans
      (textNumber?_toDigits 0)
  · split
    · obtain ⟨negative, whole, decimals, hne, hw, htrimmed, htext, hvalue, -⟩ :=
        exists_trimmed_fixedText hx three_ne_zero
      rw [htext, labelNumber?_trimmed _ hne hw htrimmed, hvalue]
    · obtain ⟨front, digits, hne, hd, htext, hvalue⟩ := exists_exponentText hx
      rw [htext, labelNumber?_digits front hne hd, hvalue]

end

/-- Of two values the greater one never has the label of a lesser number, whatever the way labels
are written, and no label for seconds gives zero for another time. -/
theorem labels_in_order :
    (∀ label ∈ [abbreviate, millions, seconds], ∀ x y : Float, x.isFinite = true →
      y.isFinite = true → x ≤ y →
      ∃ p q, labelNumber? (label x) = some p ∧ labelNumber? (label y) = some q ∧ p ≤ q) ∧
    ∀ x : Float, x.isFinite = true → (x == 0) = false →
      ∃ q, labelNumber? (seconds x) = some q ∧ q ≠ 0 := by
  constructor
  · intro label hlabel x y hx hy h
    have hnumber := (le_iff_number (isNaN_of_isFinite hx) (isNaN_of_isFinite hy)).mp h
    simp only [List.mem_cons, List.not_mem_nil, or_false] at hlabel
    rcases hlabel with rfl | rfl | rfl
    · exact ⟨_, _, labelNumber?_abbreviate hx, labelNumber?_abbreviate hy,
        abbreviatedNumber_mono hnumber⟩
    · exact ⟨_, _, labelNumber?_millions hx, labelNumber?_millions hy,
        scaledNumber_mono 0 2 hnumber⟩
    · exact ⟨_, _, labelNumber?_seconds hx, labelNumber?_seconds hy, secondsNumber_mono hnumber⟩
  · intro x hx hne
    refine ⟨_, labelNumber?_seconds hx, secondsNumber_ne_zero fun hzero => ?_⟩
    rw [(beq_zero_iff (isNaN_of_isFinite hx)).mpr hzero] at hne
    cases hne

theorem labels_in_order_below_million :
    (999999 : Float) ≤ 1e6 ∧ ((1e-4 : Float) == 0) = false ∧
    (∃ p q, labelNumber? (abbreviate 999999) = some p ∧ labelNumber? (abbreviate 1e6) = some q ∧
      p ≤ q) ∧
    ∃ q, labelNumber? (seconds 1e-4) = some q ∧ q ≠ 0 := by
  have hle : (999999 : Float) ≤ 1e6 := by decide +kernel
  have hne : ((1e-4 : Float) == 0) = false := by decide +kernel
  exact ⟨hle, hne, labels_in_order.1 abbreviate List.mem_cons_self _ _ (by decide +kernel)
    (by decide +kernel) hle, labels_in_order.2 1e-4 (by decide +kernel) hne⟩

end TimingCharts.Label
