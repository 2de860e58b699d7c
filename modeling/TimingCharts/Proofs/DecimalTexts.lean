import Mathlib
import TimingCharts.Label
import TimingCharts.Proofs.NumberTexts

/-!
# Decimal texts

The number that a decimal text denotes, and what writing it another way does to that number: zeros
at the end of the decimals, and a point with nothing behind it, can be left out (`exists_trimmed`).
-/

namespace TimingCharts

def Decimal.number (d : Decimal) : ℚ := d.digits * 10 ^ d.exponent

/-- The number that a text denotes: a decimal, with a minus sign in front or none. -/
def textNumber? (text : List Char) : Option ℚ :=
  match text with
  | '-' :: rest => (readDecimal rest).map (-Decimal.number ·)
  | text => (readDecimal text).map Decimal.number

def minus (negative : Bool) : List Char := if negative then ['-'] else []

theorem dropWhile_of_head? {p : Char → Bool} {text : List Char}
    (h : ∀ c ∈ text.head?, p c = false) : text.dropWhile p = text := by
  cases text with
  | nil => rfl
  | cons c rest => rw [List.dropWhile_cons, h c rfl, if_neg Bool.false_ne_true]

def AllDigits (text : List Char) : Prop := ∀ c ∈ text, isDigit c = true

namespace AllDigits
variable {text rest : List Char}

theorem notMem (h : AllDigits text) {c : Char} (hc : isDigit c = false) : c ∉ text := fun hmem => by
  rw [h c hmem] at hc
  cases hc

theorem takeWhile_append (h : AllDigits text) (hr : ∀ c ∈ rest.head?, isDigit c = false) :
    (text ++ rest).takeWhile isDigit = text := by
  rw [List.takeWhile_append_of_pos h]
  cases rest with
  | nil => simp
  | cons c rest => simp [hr c rfl]

theorem dropWhile_append (h : AllDigits text) (hr : ∀ c ∈ rest.head?, isDigit c = false) :
    (text ++ rest).dropWhile isDigit = rest := by
  rw [List.dropWhile_append_of_pos h, dropWhile_of_head? hr]

theorem point_notMem_front {negative : Bool} (h : AllDigits text) : '.' ∉ minus negative ++ text :=
  fun hmem => by
  rcases List.mem_append.mp hmem with hmem | hmem
  · cases negative <;> simp [minus] at hmem
  · exact h.notMem (c := '.') rfl hmem

theorem getLast?_front {negative : Bool} (h : AllDigits text) :
    (minus negative ++ text).getLast? ≠ some '.' := fun hlast =>
  h.point_notMem_front (List.mem_of_getLast? hlast)

end AllDigits

/-! ## Reading -/

def pointNumber (whole fraction : List Char) : ℚ :=
  digitsValue (whole ++ fraction) / 10 ^ fraction.length

section
variable {whole fraction power : List Char} (hne : whole ≠ []) (hw : AllDigits whole)
include hne hw

theorem readDecimal_whole : readDecimal whole = some ⟨digitsValue whole, 0⟩ := by
  have htake := List.takeWhile_eq_self_iff.mpr hw
  have hdrop := List.dropWhile_eq_nil_iff.mpr hw
  simp [readDecimal, htake, hdrop, hne]

theorem readDecimal_point (hf : AllDigits fraction) :
    readDecimal (whole ++ '.' :: fraction) =
      some ⟨digitsValue (whole ++ fraction), -(fraction.length : ℤ)⟩ := by
  have hpoint : ∀ c ∈ ('.' :: fraction).head?, isDigit c = false := by
    rintro c ⟨⟩
    rfl
  have htake := List.takeWhile_eq_self_iff.mpr hf
  have hdrop := List.dropWhile_eq_nil_iff.mpr hf
  simp [readDecimal, hw.takeWhile_append hpoint, hw.dropWhile_append hpoint, htake, hdrop, hne]

theorem readDecimal_exponent :
    readDecimal (whole ++ 'e' :: power) =
      (readExponent power).map fun e => ⟨digitsValue whole, e⟩ := by
  have hmark : ∀ c ∈ ('e' :: power).head?, isDigit c = false := by
    rintro c ⟨⟩
    rfl
  simp [readDecimal, hw.takeWhile_append hmark, hw.dropWhile_append hmark, hne]

theorem textNumber?_minus (negative : Bool) (rest : List Char) :
    textNumber? (minus negative ++ whole ++ rest) = (readDecimal (whole ++ rest)).map fun d =>
      if negative then -d.number else d.number := by
  obtain ⟨c, digits, rfl⟩ := List.exists_cons_of_ne_nil hne
  cases negative with
  | true => rfl
  | false =>
    have hc : c ≠ '-' := by
      rintro rfl
      exact absurd (hw '-' List.mem_cons_self) (by decide)
    show textNumber? (c :: (digits ++ rest)) = _
    unfold textNumber?
    split
    · next heq => exact absurd (List.cons.inj heq).1 hc
    · rfl

theorem textNumber?_point {negative : Bool} (hf : AllDigits fraction) :
    textNumber? (minus negative ++ whole ++ '.' :: fraction) =
      some (if negative then -pointNumber whole fraction else pointNumber whole fraction) := by
  have hnumber : (Decimal.mk (digitsValue (whole ++ fraction)) (-(fraction.length : ℤ))).number =
      pointNumber whole fraction := by
    rw [Decimal.number, pointNumber, zpow_neg, zpow_natCast, div_eq_mul_inv]
  rw [textNumber?_minus hne hw, readDecimal_point hne hw hf, Option.map_some, hnumber]

theorem textNumber?_bare_point {negative : Bool} :
    textNumber? (minus negative ++ whole ++ ['.']) = textNumber? (minus negative ++ whole) := by
  have hplain := textNumber?_minus hne hw negative []
  have hnil : AllDigits [] := nofun
  have hread := readDecimal_point hne hw hnil
  rw [List.append_nil, List.append_nil, readDecimal_whole hne hw] at hplain
  rw [List.append_nil] at hread
  rw [textNumber?_minus hne hw, hread, hplain]
  rfl

end

/-! ## Whole numbers and powers of ten -/

theorem allDigits_toDigits (n : ℕ) : AllDigits (Nat.toDigits 10 n) := fun c hc =>
  (isDigit_eq c).trans (Nat.isDigit_of_mem_toDigits (by decide) le_rfl hc)

theorem digitsValue_toDigits (n : ℕ) : digitsValue (Nat.toDigits 10 n) = n :=
  digitsValue_decimalText 0 n

theorem textNumber?_toDigits (n : ℕ) : textNumber? (Nat.toDigits 10 n) = some (n : ℚ) := by
  have hread := readDecimal_whole Nat.toDigits_ne_nil (allDigits_toDigits n)
  have h := textNumber?_minus Nat.toDigits_ne_nil (allDigits_toDigits n) false []
  rw [List.append_nil, List.append_nil, hread, digitsValue_toDigits] at h
  simpa [minus, Decimal.number] using h

def powerText (k : ℤ) : List Char :=
  if k < 0 then '-' :: Nat.toDigits 10 k.natAbs else Nat.toDigits 10 k.natAbs

theorem powerText_eq (k : ℤ) :
    powerText k = minus (decide (k < 0)) ++ Nat.toDigits 10 k.natAbs := by
  unfold powerText minus
  split
  · next h => simp [h]
  · next h => simp [h]

theorem readExponent_powerText (k : ℤ) : readExponent (powerText k) = some k := by
  have hdigits := allDigits_toDigits k.natAbs
  have hread : Nat.toDigits 10 k.natAbs ≠ [] ∧ (Nat.toDigits 10 k.natAbs).all isDigit = true :=
    ⟨Nat.toDigits_ne_nil, List.all_eq_true.mpr hdigits⟩
  rcases lt_or_ge k 0 with hneg | hnonneg
  · rw [powerText, if_pos hneg, readExponent]
    rw [if_pos hread, digitsValue_toDigits, if_pos rfl]
    congr 1
    omega
  · rw [powerText, if_neg hnonneg.not_gt]
    unfold readExponent
    dsimp only
    split
    · next heq => exact absurd (heq ▸ List.mem_cons_self) (hdigits.notMem (c := '-') rfl)
    · next heq => exact absurd (heq ▸ List.mem_cons_self) (hdigits.notMem (c := '+') rfl)
    · dsimp only
      rw [if_pos hread, digitsValue_toDigits, if_neg Bool.false_ne_true]
      congr 1
      omega

/-! ## Decimals at the end -/

open Label (trimDecimals)

section
variable {before kept : List Char}

theorem trimDecimals_point (hb : before.getLast? ≠ some '.') (hk : '.' ∉ kept)
    (hlast : kept.getLast? ≠ some '0') (zeros : ℕ) :
    trimDecimals (before ++ '.' :: (kept ++ List.replicate zeros '0')) =
      before ++ if kept = [] then [] else '.' :: kept := by
  have hreverse : (before ++ '.' :: (kept ++ List.replicate zeros '0')).reverse =
      List.replicate zeros '0' ++ (kept.reverse ++ '.' :: before.reverse) := by simp
  have hzeros : ∀ c ∈ List.replicate zeros '0', (c == '0') = true := fun c hc => by
    rw [List.eq_of_mem_replicate hc]
    rfl
  rw [trimDecimals, if_pos (by simp), hreverse, List.dropWhile_append_of_pos hzeros]
  rcases List.eq_nil_or_concat kept with rfl | ⟨init, c, rfl⟩
  · have hpoint : ∀ c ∈ before.reverse.head?, (c == '.') = false := by
      intro c hc
      rw [List.head?_reverse] at hc
      exact beq_eq_false_iff_ne.mpr fun heq => hb (heq ▸ hc)
    rw [if_pos rfl, List.reverse_nil, List.nil_append, List.dropWhile_cons_of_neg (by decide),
      List.dropWhile_cons_of_pos (by rfl), dropWhile_of_head? hpoint]
    simp
  · rw [List.concat_eq_append] at hk hlast ⊢
    rw [List.getLast?_concat] at hlast
    have hc : c ≠ '.' := by
      rintro rfl
      exact hk (by simp)
    rw [List.reverse_append, List.reverse_singleton, List.singleton_append, List.cons_append,
      List.dropWhile_cons_of_neg (by simpa using hlast),
      List.dropWhile_cons_of_neg (by simpa using hc)]
    simp

end

theorem exists_kept (fraction : List Char) :
    ∃ kept zeros, fraction = kept ++ List.replicate zeros '0' ∧ kept.getLast? ≠ some '0' := by
  induction fraction using List.reverseRecOn with
  | nil => exact ⟨[], 0, rfl, nofun⟩
  | append_singleton fraction c ih =>
    by_cases hc : c = '0'
    · obtain ⟨kept, zeros, rfl, hlast⟩ := ih
      refine ⟨kept, zeros + 1, ?_, hlast⟩
      rw [hc, List.replicate_succ', List.append_assoc]
    · exact ⟨fraction ++ [c], 0, by simp, by simpa using hc⟩

theorem digitsValue_append (a b : List Char) :
    digitsValue (a ++ b) = digitsValue a * 10 ^ b.length + digitsValue b := by
  rw [digitsValue_eq, digitsValue_eq, digitsValue_eq, Nat.ofDigitChars_append,
    Nat.ofDigitChars_eq_ofDigitChars_zero, Nat.mul_comm]

theorem pointNumber_zeros (whole kept : List Char) (zeros : ℕ) :
    pointNumber whole (kept ++ List.replicate zeros '0') = pointNumber whole kept := by
  have hzeros : digitsValue (List.replicate zeros '0') = 0 := by
    rw [digitsValue_eq, Nat.ofDigitChars_replicate_zero, Nat.mul_zero]
  rw [pointNumber, pointNumber, ← List.append_assoc, digitsValue_append, hzeros, List.length_append,
    List.length_replicate, Nat.add_zero, Nat.cast_mul, Nat.cast_pow, Nat.cast_ofNat, pow_add]
  exact mul_div_mul_right _ _ (by positivity)

/-- Decimals as they are written: none, or up to some number of them, the last one not zero. -/
def Trimmed (places : ℕ) (decimals : List Char) : Prop :=
  decimals = [] ∨ ∃ kept, decimals = '.' :: kept ∧ kept ≠ [] ∧ AllDigits kept ∧
    kept.getLast? ≠ some '0' ∧ kept.length ≤ places

/-- Trimming takes the decimals off a text to those that count, and leaves its number as it is. -/
theorem exists_trimmed (negative : Bool) {whole fraction : List Char} (hne : whole ≠ [])
    (hw : AllDigits whole) (hf : AllDigits fraction) :
    ∃ decimals, Trimmed fraction.length decimals ∧
      trimDecimals (minus negative ++ whole ++ '.' :: fraction) =
        minus negative ++ whole ++ decimals ∧
      textNumber? (minus negative ++ whole ++ decimals) =
        textNumber? (minus negative ++ whole ++ '.' :: fraction) := by
  obtain ⟨kept, zeros, rfl, hlast⟩ := exists_kept fraction
  have hk : AllDigits kept := fun c hc => hf c (List.mem_append_left _ hc)
  refine ⟨if kept = [] then [] else '.' :: kept, ?_,
    trimDecimals_point hw.getLast?_front (hk.notMem rfl) hlast zeros, ?_⟩
  · split
    · exact .inl rfl
    · next hkept => exact .inr ⟨kept, rfl, hkept, hk, hlast, by simp⟩
  · have hnumber : textNumber? (minus negative ++ whole ++ if kept = [] then [] else '.' :: kept) =
        textNumber? (minus negative ++ whole ++ '.' :: kept) := by
      split
      · next hkept => rw [List.append_nil, hkept, textNumber?_bare_point hne hw]
      · rfl
    rw [hnumber, textNumber?_point hne hw hk, textNumber?_point hne hw hf, pointNumber_zeros]

end TimingCharts
