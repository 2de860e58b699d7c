import TimingCharts.Layout
import TimingCharts.Proofs.Decoding

/-!
# The texts of numbers

Decimal digits, with zeros in front of them or not, are read as the number they write. No text
that is read as a number has white space in it, so trimming leaves it as it is.
-/

namespace TimingCharts

def decimalText (zeros n : Nat) : List Char := List.replicate zeros '0' ++ Nat.toDigits 10 n

theorem isDigit_eq (c : Char) : isDigit c = c.isDigit := by
  simp [isDigit, Char.isDigit, Char.le_def]

theorem isDigit_of_mem_decimalText {zeros n : Nat} {c : Char} (h : c ∈ decimalText zeros n) :
    isDigit c = true := by
  rw [isDigit_eq]
  rcases List.mem_append.1 h with h | h
  · rw [List.eq_of_mem_replicate h]
    rfl
  · exact Nat.isDigit_of_mem_toDigits (by omega) (by omega) h

theorem digitsValue_eq (digits : List Char) : digitsValue digits = Nat.ofDigitChars 10 digits 0 := by
  rw [digitsValue, Nat.ofDigitChars_eq_foldl]
  congr 1
  funext n c
  rw [digitValue, Nat.mul_comm]

theorem digitsValue_decimalText (zeros n : Nat) : digitsValue (decimalText zeros n) = n := by
  rw [digitsValue_eq, decimalText, Nat.ofDigitChars_append, Nat.ofDigitChars_replicate_zero,
    Nat.mul_zero, Nat.ofDigitChars_ten_toDigits]

theorem readWord_of_digits {limit : Nat} {digits : List Char} (hne : digits ≠ [])
    (hd : ∀ c ∈ digits, isDigit c = true) (hl : digitsValue digits < limit) :
    readWord limit digits = some (digitsValue digits) := by
  have sign : ∀ rest, digits ≠ '+' :: rest := by
    rintro rest rfl
    exact absurd (hd '+' List.mem_cons_self) (by decide)
  unfold readWord
  dsimp only
  split
  · rename_i rest
    exact absurd rfl (sign rest)
  · exact if_pos ⟨hne, List.all_eq_true.2 hd, hl⟩

theorem readWord_decimalText {limit n : Nat} (zeros : Nat) (h : n < limit) :
    readWord limit (decimalText zeros n) = some n := by
  have hne : decimalText zeros n ≠ [] := by
    simp [decimalText, Nat.toDigits_ne_nil]
  have hv := digitsValue_decimalText zeros n
  rw [readWord_of_digits hne (fun _ => isDigit_of_mem_decimalText) (by rwa [hv]), hv]

theorem readUInt64_decimalText (zeros : Nat) (n : UInt64) :
    readUInt64 (decimalText zeros n.toNat) = some n := by
  rw [readUInt64, readWord_decimalText zeros n.toNat_lt, Option.map_some, UInt64.ofNat_toNat]

theorem readThreads_decimalText (zeros : Nat) {n : UInt32} (h : n ≠ 0) :
    readThreads (decimalText zeros n.toNat) = some n := by
  rw [readThreads, readUInt32, readWord_decimalText zeros n.toNat_lt, Option.map_some,
    UInt32.ofNat_toNat, Option.filter_some_pos (by simpa using h)]

/-! ## White space -/

open Text (isBlank)

theorem trim_of_not_blank {text : List Char} (h : ∀ c ∈ text, isBlank c = false) :
    Text.trim text = text :=
  Text.trimBy_eq_self_iff.2
    ⟨fun c hc => h c (List.mem_of_head? hc), fun c hc => h c (List.mem_of_getLast? hc)⟩

theorem not_blank_of_isDigit {c : Char} (h : isDigit c = true) : isBlank c = false := by
  have hc : 48 ≤ c.toNat ∧ c.toNat ≤ 57 := by
    simpa [isDigit, Char.le_def, UInt32.le_iff_toNat_le] using h
  simp [isBlank]
  omega

theorem trim_decimalText (zeros n : Nat) :
    Text.trim (decimalText zeros n) = decimalText zeros n :=
  trim_of_not_blank fun _ h => not_blank_of_isDigit (isDigit_of_mem_decimalText h)

theorem not_blank_of_toLower {c : Char} (h : isBlank c.toLower = false) : isBlank c = false := by
  by_cases hc : c.toLower = c
  · rwa [hc] at h
  · -- a letter
    have hu : 65 ≤ c.toNat ∧ c.toNat ≤ 90 := by
      by_contra hu
      apply hc
      unfold Char.toLower
      exact dif_neg fun hv => hu (by simpa [UInt32.le_iff_toNat_le] using hv)
    simp [isBlank]
    omega

theorem not_blank_of_word {text word : List Char} (h : text.map Char.toLower = word)
    (hw : word.any isBlank = false) : ∀ c ∈ text, isBlank c = false := by
  intro c hc
  apply not_blank_of_toLower
  rw [List.any_eq_false] at hw
  simpa using hw _ (h ▸ List.mem_map_of_mem hc)

theorem not_blank_of_readExponent {text : List Char} {e : Int} (h : readExponent text = some e) :
    ∀ c ∈ text, isBlank c = false := by
  unfold readExponent at h
  have digits {ds : List Char} (h : ds ≠ [] ∧ ds.all isDigit = true) :
      ∀ c ∈ ds, isBlank c = false :=
    fun c hc => not_blank_of_isDigit (List.all_eq_true.1 h.2 c hc)
  split at h
  rename_i negative ds heq
  split at h
  · rename_i hd
    split at heq
    · cases heq
      exact List.forall_mem_cons.2 ⟨by decide, digits hd⟩
    · cases heq
      exact List.forall_mem_cons.2 ⟨by decide, digits hd⟩
    · cases heq
      exact digits hd
  · cases h

theorem not_blank_of_takeWhile {text : List Char}
    (h : ∀ c ∈ text.dropWhile isDigit, isBlank c = false) : ∀ c ∈ text, isBlank c = false := by
  intro c hc
  rw [← text.takeWhile_append_dropWhile (p := isDigit)] at hc
  rcases List.mem_append.1 hc with hc | hc
  · exact not_blank_of_isDigit (List.mem_takeWhile_imp hc)
  · exact h c hc

theorem not_blank_of_afterDigits {rest : List Char} {f : Int → Decimal} {whole d : Decimal}
    (h : (match rest with
      | [] => some whole
      | c :: rest => if c = 'e' ∨ c = 'E' then (readExponent rest).map f else none) = some d) :
    ∀ c ∈ rest, isBlank c = false := by
  cases rest with
  | nil => simp
  | cons c rest =>
    dsimp only at h
    split at h
    · rename_i hc
      obtain ⟨e, he, -⟩ := Option.map_eq_some_iff.1 h
      refine List.forall_mem_cons.2 ⟨?_, not_blank_of_readExponent he⟩
      rcases hc with rfl | rfl <;> decide
    · cases h

theorem not_blank_of_readDecimal {text : List Char} {d : Decimal} (h : readDecimal text = some d) :
    ∀ c ∈ text, isBlank c = false := by
  apply not_blank_of_takeWhile
  unfold readDecimal at h
  dsimp only at h
  -- whether a point follows the first digits
  split at h
  · rename_i rest hdot
    rw [hdot]
    split at h
    · cases h
    · exact List.forall_mem_cons.2
        ⟨by decide, not_blank_of_takeWhile (not_blank_of_afterDigits h)⟩
  · split at h
    · cases h
    · exact not_blank_of_afterDigits h

theorem not_blank_of_readMagnitude {text : List Char} {x : Float}
    (h : readMagnitude text = some x) : ∀ c ∈ text, isBlank c = false := by
  unfold readMagnitude at h
  dsimp only at h
  split at h
  · rename_i hw
    rcases hw with hw | hw
    · exact not_blank_of_word hw (by decide)
    · exact not_blank_of_word hw (by decide)
  · split at h
    · rename_i hw
      exact not_blank_of_word hw (by decide)
    · obtain ⟨d, hd, -⟩ := Option.map_eq_some_iff.1 h
      exact not_blank_of_readDecimal hd

theorem not_blank_of_readFloat {text : List Char} {x : Float} (h : readFloat text = some x) :
    ∀ c ∈ text, isBlank c = false := by
  unfold readFloat at h
  split at h
  · obtain ⟨y, hy, -⟩ := Option.map_eq_some_iff.1 h
    exact List.forall_mem_cons.2 ⟨by decide, not_blank_of_readMagnitude hy⟩
  · exact List.forall_mem_cons.2 ⟨by decide, not_blank_of_readMagnitude h⟩
  · exact not_blank_of_readMagnitude h

end TimingCharts
