import TimingCharts.Proofs.DecimalTexts

/-!
# Trimmed decimals

Trimming takes off a text all that its number can do without. What is left ends with a decimal that
is not zero, if it has decimals, and a text that breaks off before that decimal denotes less. Main
statement: `trimDecimals_shortest`.
-/

namespace TimingCharts

open Label (trimDecimals)

/-! ## What trimming leaves -/

theorem trimDecimals_prefix (text : List Char) : trimDecimals text <+: text := by
  rw [trimDecimals]
  split
  · have hpoint := List.dropWhile_suffix (l := text.reverse.dropWhile (· == '0')) (· == '.')
    have h := hpoint.trans (List.dropWhile_suffix (· == '0'))
    rw [← List.reverse_prefix, List.reverse_reverse] at h
    exact h
  · exact List.prefix_rfl

section
variable {negative : Bool} {whole decimals : List Char} {places : ℕ} (hw : AllDigits whole)
include hw

theorem getLast?_trimmed (ht : Trimmed places decimals) :
    (minus negative ++ whole ++ decimals).getLast? ≠ some '.' ∧
      ('.' ∈ minus negative ++ whole ++ decimals →
        (minus negative ++ whole ++ decimals).getLast? ≠ some '0') := by
  obtain rfl | ⟨kept, rfl, hkept, hk, hlast, -⟩ := ht
  · rw [List.append_nil]
    exact ⟨hw.getLast?_front, fun h => absurd h hw.point_notMem_front⟩
  · rw [List.append_cons, List.getLast?_append_of_ne_nil _ hkept]
    exact ⟨fun h => hk.notMem (c := '.') rfl (List.mem_of_getLast? h), fun _ => hlast⟩

theorem trimDecimals_trimmed (ht : Trimmed places decimals) :
    trimDecimals (minus negative ++ whole ++ decimals) = minus negative ++ whole ++ decimals := by
  obtain rfl | ⟨kept, rfl, hkept, hk, hlast, -⟩ := ht
  · rw [List.append_nil, trimDecimals, if_neg hw.point_notMem_front]
  · have hfront : (minus negative ++ whole).getLast? ≠ some '.' := hw.getLast?_front
    have h := trimDecimals_point hfront (hk.notMem rfl) hlast 0
    rwa [List.replicate_zero, List.append_nil, if_neg hkept] at h

end

/-! ## Decimals that count -/

theorem digitValue_pos {c : Char} (hc : isDigit c = true) (hzero : c ≠ '0') : 0 < digitValue c := by
  have hle : '0'.toNat ≤ c.toNat := by
    rw [isDigit, Bool.and_eq_true, decide_eq_true_eq] at hc
    exact hc.1
  have hne : c.toNat ≠ '0'.toNat := fun heq => hzero (Char.toNat_inj.mp heq)
  rw [digitValue]
  omega

theorem digitsValue_pos {digits : List Char} (hne : digits ≠ []) (hd : AllDigits digits)
    (hlast : digits.getLast? ≠ some '0') : 0 < digitsValue digits := by
  obtain ⟨init, c, rfl⟩ := (List.eq_nil_or_concat digits).resolve_left hne
  rw [List.concat_eq_append] at hd hlast ⊢
  rw [List.getLast?_concat, ne_eq, Option.some.injEq] at hlast
  have hc := digitValue_pos (hd c (by simp)) hlast
  have hsingle : digitsValue [c] = digitValue c := Nat.zero_add _
  rw [digitsValue_append, hsingle]
  omega

theorem pointNumber_lt (whole fraction : List Char) {further : List Char} (hne : further ≠ [])
    (hd : AllDigits further) (hlast : further.getLast? ≠ some '0') :
    pointNumber whole fraction < pointNumber whole (fraction ++ further) := by
  have hpos : (0 : ℚ) < digitsValue further := by exact_mod_cast digitsValue_pos hne hd hlast
  have hvalue : digitsValue (whole ++ (fraction ++ further)) =
      digitsValue (whole ++ fraction) * 10 ^ further.length + digitsValue further := by
    rw [← List.append_assoc, digitsValue_append]
  rw [pointNumber, pointNumber, hvalue, List.length_append, pow_add, mul_comm (10 ^ _), ← div_div]
  apply div_lt_div_of_pos_right _ (by positivity)
  rw [lt_div_iff₀ (by positivity)]
  push_cast
  linarith

section
variable {negative : Bool} {whole : List Char} (hne : whole ≠ []) (hw : AllDigits whole)
include hne hw

/-- Decimals that are broken off before one that counts denote another number. -/
theorem eq_of_textNumber?_eq {kept short : List Char} (hk : AllDigits kept)
    (hlast : kept.getLast? ≠ some '0') (hshort : short <+: kept)
    (heq : textNumber? (minus negative ++ whole ++ '.' :: short) =
      textNumber? (minus negative ++ whole ++ '.' :: kept)) : short = kept := by
  obtain ⟨further, rfl⟩ := hshort
  rcases eq_or_ne further [] with rfl | hfurther
  · rw [List.append_nil]
  · have hd : AllDigits further := fun c hc => hk c (List.mem_append_right _ hc)
    have hs : AllDigits short := fun c hc => hk c (List.mem_append_left _ hc)
    rw [List.getLast?_append_of_ne_nil _ hfurther] at hlast
    have hlt := pointNumber_lt whole short hfurther hd hlast
    rw [textNumber?_point hne hw hs, textNumber?_point hne hw hk, Option.some.injEq] at heq
    cases negative with
    | true => exact absurd (neg_inj.mp heq) hlt.ne
    | false => exact absurd heq hlt.ne

theorem trimmed_prefix {places : ℕ} {decimals fraction rest : List Char}
    (ht : Trimmed places decimals) (hdecimals : decimals <+: '.' :: fraction)
    (hrest : rest <+: '.' :: fraction)
    (heq : textNumber? (minus negative ++ whole ++ rest) =
      textNumber? (minus negative ++ whole ++ decimals)) : decimals <+: rest := by
  obtain rfl | ⟨kept, rfl, hkept, hk, hlast, -⟩ := ht
  · exact List.nil_prefix
  rcases List.prefix_or_prefix_of_prefix hdecimals hrest with h | h
  · exact h
  -- the text breaks off at the point, or behind it
  cases rest with
  | nil =>
    rw [List.append_nil, ← textNumber?_bare_point hne hw] at heq
    exact absurd (eq_of_textNumber?_eq hne hw hk hlast List.nil_prefix heq).symm hkept
  | cons c short =>
    obtain ⟨rfl, hshort⟩ := List.cons_prefix_cons.mp h
    rw [eq_of_textNumber?_eq hne hw hk hlast hshort heq]

end

/-- Trimming keeps the number of a text with a point. It leaves neither a point nor a zero behind a
point at the end, and of the parts of the text with the same number that begin with all its whole
digits it leaves the shortest. A text without a point is left as it is, and so is what trimming has
left. -/
theorem trimDecimals_shortest :
    (∀ (negative : Bool) (whole fraction : List Char), whole ≠ [] → AllDigits whole →
      AllDigits fraction →
      let front := minus negative ++ whole
      let text := front ++ '.' :: fraction
      let trimmed := trimDecimals text
      (∃ q, textNumber? text = some q ∧ textNumber? trimmed = some q) ∧
      trimmed.getLast? ≠ some '.' ∧ ('.' ∈ trimmed → trimmed.getLast? ≠ some '0') ∧
      front <+: trimmed ∧ trimmed <+: text ∧
      (∀ part, front <+: part → part <+: text → textNumber? part = textNumber? text →
        trimmed.length ≤ part.length) ∧
      trimDecimals trimmed = trimmed) ∧
    ∀ text, '.' ∉ text →
      trimDecimals text = text ∧ trimDecimals (trimDecimals text) = trimDecimals text := by
  constructor
  · intro negative whole fraction hne hw hf front text trimmed
    obtain ⟨decimals, ht, htrimmed, hnumber⟩ := exists_trimmed negative hne hw hf
    have hprefix : trimmed <+: text := trimDecimals_prefix text
    rw [show trimmed = front ++ decimals from htrimmed] at hprefix ⊢
    have hdecimals := (List.prefix_append_right_inj front).mp hprefix
    obtain ⟨hpoint, hzero⟩ : (front ++ decimals).getLast? ≠ some '.' ∧ _ := getLast?_trimmed hw ht
    refine ⟨⟨_, textNumber?_point hne hw hf, ?_⟩, hpoint, hzero, List.prefix_append _ _, hprefix,
      ?_, trimDecimals_trimmed hw ht⟩
    · rw [hnumber, textNumber?_point hne hw hf]
    · rintro part ⟨rest, rfl⟩ hpart heq
      have hrest := (List.prefix_append_right_inj front).mp hpart
      have h := trimmed_prefix hne hw ht hdecimals hrest (heq.trans hnumber.symm)
      exact ((List.prefix_append_right_inj front).mpr h).length_le
  · intro text h
    have hself : trimDecimals text = text := if_neg h
    exact ⟨hself, congrArg trimDecimals hself⟩

theorem trimDecimals_shortest_inner_zeros :
    let front := ['-', '1', '0', '0']
    let text := ['-', '1', '0', '0', '.', '5', '0', '2', '0', '0']
    let trimmed := ['-', '1', '0', '0', '.', '5', '0', '2']
    let plain := ['1', '0', '0']
    trimDecimals text = trimmed ∧
      (∃ q, textNumber? text = some q ∧ textNumber? trimmed = some q) ∧
      (∀ part, front <+: part → part <+: text → textNumber? part = textNumber? text →
        trimmed.length ≤ part.length) ∧
      trimDecimals trimmed = trimmed ∧ '.' ∉ plain ∧ trimDecimals plain = plain := by
  intro front text trimmed plain
  have htrimmed : trimDecimals text = trimmed := by decide
  have hplain : '.' ∉ plain := by decide
  have h := trimDecimals_shortest.1 true ['1', '0', '0'] ['5', '0', '2', '0', '0'] (by decide)
    (allDigits_toDigits 100) (allDigits_toDigits 50200)
  obtain ⟨hnumber, -, -, -, -, hshortest, htwice⟩ := h
  rw [show trimDecimals (minus true ++ _ ++ _) = trimmed from htrimmed] at hnumber hshortest htwice
  exact ⟨htrimmed, hnumber, hshortest, htwice, hplain,
    (trimDecimals_shortest.2 plain hplain).1⟩

-- with two points there is more to trim afterwards
example : trimDecimals "1.0.".toList = "1.0".toList ∧ trimDecimals "1.0".toList = "1".toList := by
  decide

end TimingCharts
