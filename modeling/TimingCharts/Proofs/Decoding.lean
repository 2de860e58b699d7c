import Mathlib.Data.List.Basic
import Mathlib.Data.List.Induction
import Mathlib.Data.List.TakeWhile
import TimingCharts.Text.Blank
import TimingCharts.Text.Utf8

/-!
# Texts and their bytes

`encode` writes each character as its bytes, and `decode` reads exactly these back
(`decode_eq_ok_iff`). A byte below 0x80 occurs in an encoded text only as a character by itself,
so separators and blanks can be looked for among the bytes. Texts have the same order by their
characters as by their bytes.
-/

namespace TimingCharts.Text

def encode (text : List Char) : List UInt8 := text.flatMap String.utf8EncodeChar

theorem encode_cons (c : Char) (text : List Char) :
    encode (c :: text) = String.utf8EncodeChar c ++ encode text := by
  rw [encode, List.flatMap_cons, encode]

theorem encode_append (left right : List Char) :
    encode (left ++ right) = encode left ++ encode right := by
  rw [encode, List.flatMap_append, encode, encode]

theorem encode_singleton (c : Char) : encode [c] = String.utf8EncodeChar c := by
  rw [encode_cons, encode, List.flatMap_nil, List.append_nil]

theorem toNat_byte {n : Nat} (h : n < 256) : (UInt8.ofNat n).toNat = n :=
  UInt8.toNat_ofNat_of_lt' h

/-! ## Decoding -/

section
variable (offset : Nat) {a b c d : UInt8} (rest : List UInt8)

theorem isTail_iff : isTail b = true ↔ 0x80 ≤ b.toNat ∧ b.toNat ≤ 0xBF := by
  simp [isTail, UInt8.le_iff_toNat_le]

theorem isSecondOfThree_iff : isSecondOfThree a b = true ↔ isTail b = true ∧
    (a.toNat ≠ 0xE0 ∨ 0xA0 ≤ b.toNat) ∧ (a.toNat ≠ 0xED ∨ b.toNat ≤ 0x9F) := by
  simp [isSecondOfThree, UInt8.le_iff_toNat_le, ← UInt8.toNat_inj, and_assoc]

theorem isSecondOfFour_iff : isSecondOfFour a b = true ↔ isTail b = true ∧
    (a.toNat ≠ 0xF0 ∨ 0x90 ≤ b.toNat) ∧ (a.toNat ≠ 0xF4 ∨ b.toNat ≤ 0x8F) := by
  simp [isSecondOfFour, UInt8.le_iff_toNat_le, ← UInt8.toNat_inj, and_assoc]

theorem decodeFrom_one (ha : a.toNat < 0x80) :
    decodeFrom offset (a :: rest) =
      return Char.ofNat a.toNat :: (← decodeFrom (offset + 1) rest) := by
  have h : a < 0x80 := UInt8.lt_iff_toNat_lt.2 ha
  rw [decodeFrom.eq_def offset]
  exact if_pos h

theorem decodeFrom_two (ha : 0xC2 ≤ a.toNat ∧ a.toNat ≤ 0xDF) (hb : isTail b = true) :
    decodeFrom offset (a :: b :: rest) =
      return Char.ofNat (a.toNat % 32 * 64 + tailBits b) :: (← decodeFrom (offset + 2) rest) := by
  have h1 : ¬ a < 0x80 := by rw [UInt8.lt_iff_toNat_lt]; simp; omega
  have h2 : (0xC2 ≤ a && a ≤ 0xDF) = true := by simpa [UInt8.le_iff_toNat_le] using ha
  rw [decodeFrom, if_neg h1, if_pos h2]
  simp only [hb, if_true]

theorem decodeFrom_three (ha : 0xE0 ≤ a.toNat ∧ a.toNat ≤ 0xEF)
    (hb : isSecondOfThree a b = true) (hc : isTail c = true) :
    decodeFrom offset (a :: b :: c :: rest) =
      return Char.ofNat (a.toNat % 16 * 4096 + tailBits b * 64 + tailBits c) ::
        (← decodeFrom (offset + 3) rest) := by
  have h1 : ¬ a < 0x80 := by rw [UInt8.lt_iff_toNat_lt]; simp; omega
  have h2 : ¬ (0xC2 ≤ a && a ≤ 0xDF) = true := by simp [UInt8.le_iff_toNat_le]; omega
  have h3 : (0xE0 ≤ a && a ≤ 0xEF) = true := by simpa [UInt8.le_iff_toNat_le] using ha
  rw [decodeFrom, if_neg h1, if_neg h2, if_pos h3]
  simp only [hb, hc, Bool.and_self, if_true]

theorem decodeFrom_four (ha : 0xF0 ≤ a.toNat ∧ a.toNat ≤ 0xF4)
    (hb : isSecondOfFour a b = true) (hc : isTail c = true) (hd : isTail d = true) :
    decodeFrom offset (a :: b :: c :: d :: rest) =
      return Char.ofNat
          (a.toNat % 8 * 262144 + tailBits b * 4096 + tailBits c * 64 + tailBits d) ::
        (← decodeFrom (offset + 4) rest) := by
  have h1 : ¬ a < 0x80 := by rw [UInt8.lt_iff_toNat_lt]; simp; omega
  have h2 : ¬ (0xC2 ≤ a && a ≤ 0xDF) = true := by simp [UInt8.le_iff_toNat_le]; omega
  have h3 : ¬ (0xE0 ≤ a && a ≤ 0xEF) = true := by simp [UInt8.le_iff_toNat_le]; omega
  have h4 : (0xF0 ≤ a && a ≤ 0xF4) = true := by simpa [UInt8.le_iff_toNat_le] using ha
  rw [decodeFrom, if_neg h1, if_neg h2, if_neg h3, if_pos h4]
  simp only [hb, hc, hd, Bool.and_self, if_true]

end

theorem toNat_range (c : Char) : c.toNat < 0xD800 ∨ 0xDFFF < c.toNat ∧ c.toNat < 0x110000 := by
  simpa [UInt32.isValidChar, Nat.isValidChar] using c.valid

theorem decodeFrom_char (offset : Nat) (c : Char) (rest : List UInt8) :
    decodeFrom offset (String.utf8EncodeChar c ++ rest) =
      return c :: (← decodeFrom (offset + (String.utf8EncodeChar c).length) rest) := by
  have hr := toNat_range c
  have hc : ∀ {n}, n = c.toNat → Char.ofNat n = c := by
    rintro _ rfl
    exact Char.ofNat_toNat c
  unfold String.utf8EncodeChar
  rw [show c.val.toNat = c.toNat from rfl]
  generalize c.toNat = n at hr hc
  -- the last byte is the same whenever there are more than one
  have last : (UInt8.ofNat (n % 64 + 0x80)).toNat = n % 64 + 0x80 := toNat_byte (by omega)
  have tail (k : Nat) : (UInt8.ofNat (n / k % 64 + 0x80)).toNat = n / k % 64 + 0x80 :=
    toNat_byte (by omega)
  dsimp only
  split
  · rename_i h
    have ha : (UInt8.ofNat n).toNat = n := toNat_byte (by omega)
    rw [List.singleton_append, decodeFrom_one _ _ (by omega), hc ha]
    rfl
  · split
    · have ha : (UInt8.ofNat (n / 64 % 32 + 0xC0)).toNat = n / 64 % 32 + 0xC0 :=
        toNat_byte (by omega)
      rw [List.cons_append, List.singleton_append, decodeFrom_two _ _ (by omega), hc]
      · rfl
      · rw [tailBits, ha, last]
        omega
      · rw [isTail_iff, last]
        omega
    · split
      · have ha : (UInt8.ofNat (n / 4096 % 16 + 0xE0)).toNat = n / 4096 % 16 + 0xE0 :=
          toNat_byte (by omega)
        rw [List.cons_append, List.cons_append, List.singleton_append,
          decodeFrom_three _ _ (by omega), hc]
        · rfl
        · rw [tailBits, tailBits, ha, tail, last]
          omega
        · rw [isSecondOfThree_iff, isTail_iff, ha, tail]
          omega
        · rw [isTail_iff, last]
          omega
      · have ha : (UInt8.ofNat (n / 262144 % 8 + 0xF0)).toNat = n / 262144 % 8 + 0xF0 :=
          toNat_byte (by omega)
        rw [List.cons_append, List.cons_append, List.cons_append, List.singleton_append,
          decodeFrom_four _ _ (by omega), hc]
        · rfl
        · rw [tailBits, tailBits, tailBits, ha, tail, tail, last]
          omega
        · rw [isSecondOfFour_iff, isTail_iff, ha, tail]
          omega
        · rw [isTail_iff, tail]
          omega
        · rw [isTail_iff, last]
          omega

theorem decodeFrom_encode (offset : Nat) (text : List Char) :
    decodeFrom offset (encode text) = .ok text := by
  induction text generalizing offset with
  | nil => rfl
  | cons c text ih =>
    rw [encode, List.flatMap_cons, decodeFrom_char, ← encode, ih]
    rfl

theorem decode_encode (text : List Char) : decode (encode text) = .ok text :=
  decodeFrom_encode 0 text

/-! ## Only texts are decoded -/

theorem toNat_ofNat {n : Nat} (h : n < 0xD800 ∨ 0xDFFF < n ∧ n < 0x110000) :
    (Char.ofNat n).toNat = n := by
  have hv : n.isValidChar := h
  rw [Char.ofNat, dif_pos hv]
  exact UInt32.toNat_ofNatLT ..

theorem byte_eq {a : UInt8} {n : Nat} (h : n = a.toNat) : UInt8.ofNat n = a := by
  rw [h, UInt8.ofNat_toNat]

theorem utf8EncodeChar_of_ascii {c : Char} (h : c.toNat < 0x80) :
    String.utf8EncodeChar c = [UInt8.ofNat c.toNat] := by
  unfold String.utf8EncodeChar
  rw [show c.val.toNat = c.toNat from rfl]
  exact if_pos (by omega)

section
variable {a b c d : UInt8}

theorem utf8EncodeChar_one (ha : a.toNat < 0x80) :
    String.utf8EncodeChar (Char.ofNat a.toNat) = [a] := by
  have hc : (Char.ofNat a.toNat).toNat = a.toNat := toNat_ofNat (by omega)
  rw [utf8EncodeChar_of_ascii (by omega), hc, byte_eq rfl]

theorem utf8EncodeChar_two (ha : 0xC2 ≤ a.toNat ∧ a.toNat ≤ 0xDF) (hb : isTail b = true) :
    String.utf8EncodeChar (Char.ofNat (a.toNat % 32 * 64 + tailBits b)) = [a, b] := by
  rw [isTail_iff] at hb
  have hc := toNat_ofNat (n := a.toNat % 32 * 64 + tailBits b) (by unfold tailBits; omega)
  unfold String.utf8EncodeChar
  rw [show (Char.ofNat (a.toNat % 32 * 64 + tailBits b)).val.toNat = _ from hc]
  unfold tailBits
  dsimp only
  rw [if_neg (by omega), if_pos (by omega), byte_eq (a := a) (by omega), byte_eq (a := b) (by omega)]

theorem utf8EncodeChar_three (ha : 0xE0 ≤ a.toNat ∧ a.toNat ≤ 0xEF)
    (hb : isSecondOfThree a b = true) (hc : isTail c = true) :
    String.utf8EncodeChar (Char.ofNat (a.toNat % 16 * 4096 + tailBits b * 64 + tailBits c)) =
      [a, b, c] := by
  rw [isSecondOfThree_iff, isTail_iff] at hb
  rw [isTail_iff] at hc
  have hn := toNat_ofNat (n := a.toNat % 16 * 4096 + tailBits b * 64 + tailBits c)
    (by unfold tailBits; omega)
  unfold String.utf8EncodeChar
  rw [show (Char.ofNat (a.toNat % 16 * 4096 + tailBits b * 64 + tailBits c)).val.toNat = _ from hn]
  unfold tailBits
  dsimp only
  rw [if_neg (by omega), if_neg (by omega), if_pos (by omega), byte_eq (a := a) (by omega),
    byte_eq (a := b) (by omega), byte_eq (a := c) (by omega)]

theorem utf8EncodeChar_four (ha : 0xF0 ≤ a.toNat ∧ a.toNat ≤ 0xF4)
    (hb : isSecondOfFour a b = true) (hc : isTail c = true) (hd : isTail d = true) :
    String.utf8EncodeChar (Char.ofNat
      (a.toNat % 8 * 262144 + tailBits b * 4096 + tailBits c * 64 + tailBits d)) = [a, b, c, d] := by
  rw [isSecondOfFour_iff, isTail_iff] at hb
  rw [isTail_iff] at hc hd
  have hn := toNat_ofNat
    (n := a.toNat % 8 * 262144 + tailBits b * 4096 + tailBits c * 64 + tailBits d)
    (by unfold tailBits; omega)
  unfold String.utf8EncodeChar
  rw [show (Char.ofNat
    (a.toNat % 8 * 262144 + tailBits b * 4096 + tailBits c * 64 + tailBits d)).val.toNat = _ from hn]
  unfold tailBits
  dsimp only
  rw [if_neg (by omega), if_neg (by omega), if_neg (by omega), byte_eq (a := a) (by omega),
    byte_eq (a := b) (by omega), byte_eq (a := c) (by omega), byte_eq (a := d) (by omega)]

end

theorem eq_encode_cons {offset : Nat} {rest bytes : List UInt8} {c : Char} {text : List Char}
    (hc : String.utf8EncodeChar c = bytes)
    (ih : ∀ {text}, decodeFrom offset rest = .ok text → rest = encode text)
    (h : (do return c :: (← decodeFrom offset rest)) = Except.ok text) :
    bytes ++ rest = encode text := by
  cases hr : decodeFrom offset rest with
  | error byte =>
    rw [hr] at h
    cases h
  | ok text =>
    rw [hr] at h
    cases h
    rw [encode_cons, hc, ← ih hr]

theorem eq_encode_of_decodeFrom {offset : Nat} {bytes : List UInt8} {text : List Char}
    (h : decodeFrom offset bytes = .ok text) : bytes = encode text := by
  fun_induction decodeFrom offset bytes generalizing text with
  | case1 => cases h; rfl
  | case2 offset a rest ha ih =>
    exact eq_encode_cons (utf8EncodeChar_one (UInt8.lt_iff_toNat_lt.1 ha)) ih h
  | case3 offset a _ ha b rest hb ih =>
    simp only [Bool.and_eq_true, decide_eq_true_eq, UInt8.le_iff_toNat_le] at ha
    exact eq_encode_cons (utf8EncodeChar_two ha hb) ih h
  | case6 offset a _ _ ha b c rest hb ih =>
    simp only [Bool.and_eq_true, decide_eq_true_eq, UInt8.le_iff_toNat_le] at ha hb
    exact eq_encode_cons (utf8EncodeChar_three ha hb.1 hb.2) ih h
  | case9 offset a _ _ _ ha b c d rest hb ih =>
    simp only [Bool.and_eq_true, decide_eq_true_eq, UInt8.le_iff_toNat_le] at ha hb
    exact eq_encode_cons (utf8EncodeChar_four ha hb.1.1 hb.1.2 hb.2) ih h
  | _ => cases h

theorem decode_eq_ok_iff {bytes : List UInt8} {text : List Char} :
    decode bytes = .ok text ↔ bytes = encode text :=
  ⟨eq_encode_of_decodeFrom, fun h => h ▸ decode_encode text⟩

/-! ## Bytes that are characters -/

theorem le_of_mem_utf8EncodeChar {c : Char} (h : 0x80 ≤ c.toNat) :
    ∀ b ∈ String.utf8EncodeChar c, 0x80 ≤ b.toNat := by
  have high {n k : Nat} (hn : n + k < 256) (hk : 0x80 ≤ k) :
      0x80 ≤ (UInt8.ofNat (n + k)).toNat := by
    rw [toNat_byte hn]
    omega
  unfold String.utf8EncodeChar
  rw [show c.val.toNat = c.toNat from rfl]
  dsimp only
  rw [if_neg (by omega)]
  split
  · simp only [List.forall_mem_cons]
    exact ⟨high (by omega) (by omega), high (by omega) (by omega), by simp⟩
  · split
    · simp only [List.forall_mem_cons]
      exact ⟨high (by omega) (by omega), high (by omega) (by omega), high (by omega) (by omega),
        by simp⟩
    · simp only [List.forall_mem_cons]
      exact ⟨high (by omega) (by omega), high (by omega) (by omega), high (by omega) (by omega),
        high (by omega) (by omega), by simp⟩

theorem utf8EncodeChar_of_mem {c : Char} {b : UInt8} (hb : b ∈ String.utf8EncodeChar c)
    (h : b.toNat < 0x80) : c.toNat = b.toNat ∧ String.utf8EncodeChar c = [b] := by
  by_cases hc : c.toNat < 0x80
  · rw [utf8EncodeChar_of_ascii hc, List.mem_singleton] at hb
    rw [utf8EncodeChar_of_ascii hc, hb, toNat_byte (by omega)]
    exact ⟨rfl, rfl⟩
  · have := le_of_mem_utf8EncodeChar (Nat.le_of_not_lt hc) b hb
    omega

theorem exists_of_mem_encode {text : List Char} {b : UInt8} (hb : b ∈ encode text)
    (h : b.toNat < 0x80) : ∃ c ∈ text, c.toNat = b.toNat := by
  obtain ⟨c, hc, hbc⟩ := List.mem_flatMap.1 hb
  exact ⟨c, hc, (utf8EncodeChar_of_mem hbc h).1⟩

theorem head?_encode {text : List Char} {b : UInt8} (hb : (encode text).head? = some b)
    (h : b.toNat < 0x80) : ∃ c, text.head? = some c ∧ c.toNat = b.toNat := by
  cases text with
  | nil => cases hb
  | cons c text =>
    obtain ⟨a, rest, hc⟩ := List.exists_cons_of_ne_nil (String.utf8EncodeChar_ne_nil (c := c))
    rw [encode_cons, hc, List.cons_append, List.head?_cons, Option.some.injEq] at hb
    exact ⟨c, rfl, (utf8EncodeChar_of_mem (by rw [hc, hb]; exact List.mem_cons_self) h).1⟩

theorem getLast?_encode {text : List Char} {b : UInt8} (hb : (encode text).getLast? = some b)
    (h : b.toNat < 0x80) : ∃ c, text.getLast? = some c ∧ c.toNat = b.toNat := by
  rcases text.eq_nil_or_concat' with rfl | ⟨text, c, rfl⟩
  · cases hb
  · rw [encode_append, encode_singleton,
      List.getLast?_append_of_ne_nil _ String.utf8EncodeChar_ne_nil] at hb
    exact ⟨c, List.getLast?_concat, (utf8EncodeChar_of_mem (List.mem_of_getLast? hb) h).1⟩

def asciiText (bytes : List UInt8) : List Char := bytes.map fun b => Char.ofNat b.toNat

theorem encode_asciiText {bytes : List UInt8} (h : ∀ b ∈ bytes, b.toNat < 0x80) :
    encode (asciiText bytes) = bytes := by
  induction bytes with
  | nil => rfl
  | cons b bytes ih =>
    obtain ⟨hb, hbs⟩ := List.forall_mem_cons.1 h
    rw [asciiText, List.map_cons, encode_cons, utf8EncodeChar_one hb, ← asciiText, ih hbs]
    rfl

theorem exists_encode_of_cons {text : List Char} {b : UInt8} {bytes : List UInt8}
    (hb : b.toNat < 0x80) (h : b :: bytes = encode text) : ∃ text', bytes = encode text' := by
  cases text with
  | nil => cases h
  | cons c text =>
    obtain ⟨b', more, hc⟩ := List.exists_cons_of_ne_nil (String.utf8EncodeChar_ne_nil (c := c))
    rw [encode_cons] at h
    have hm : b ∈ String.utf8EncodeChar c := by
      rw [hc, List.cons_append] at h
      rw [hc, (List.cons_eq_cons.1 h).1]
      exact List.mem_cons_self
    rw [(utf8EncodeChar_of_mem hm hb).2] at h
    exact ⟨text, (List.cons_eq_cons.1 h).2⟩

theorem exists_encode_of_snoc {text : List Char} {b : UInt8} {bytes : List UInt8}
    (hb : b.toNat < 0x80) (h : bytes ++ [b] = encode text) : ∃ text', bytes = encode text' := by
  rcases text.eq_nil_or_concat' with rfl | ⟨text, c, rfl⟩
  · exact absurd h (by simp [encode])
  · rw [encode_append, encode_singleton] at h
    have hm : b ∈ String.utf8EncodeChar c := by
      have hlast := congrArg List.getLast? h
      rw [List.getLast?_append_of_ne_nil _ String.utf8EncodeChar_ne_nil, List.getLast?_concat] at hlast
      exact List.mem_of_getLast? hlast.symm
    rw [(utf8EncodeChar_of_mem hm hb).2] at h
    exact ⟨text, List.append_inj_left' h rfl⟩

section
variable {left right : List UInt8} (hl : ∀ b ∈ left, b.toNat < 0x80)
  (hr : ∀ b ∈ right, b.toNat < 0x80)

include hl in
theorem exists_encode_of_append {bytes : List UInt8} {text : List Char}
    (h : left ++ bytes = encode text) : ∃ text', bytes = encode text' := by
  induction left generalizing text with
  | nil => exact ⟨text, h⟩
  | cons b left ih =>
    obtain ⟨hb, hbs⟩ := List.forall_mem_cons.1 hl
    obtain ⟨text, h⟩ := exists_encode_of_cons hb h
    exact ih hbs h

include hr in
theorem exists_encode_of_append_right {bytes : List UInt8} {text : List Char}
    (h : bytes ++ right = encode text) : ∃ text', bytes = encode text' := by
  induction right using List.reverseRecOn generalizing text with
  | nil => exact ⟨text, by rw [← h, List.append_nil]⟩
  | append_singleton right b ih =>
    obtain ⟨hrs, hb⟩ := List.forall_mem_append.1 hr
    rw [← List.append_assoc] at h
    obtain ⟨text, h⟩ := exists_encode_of_snoc (hb b (List.mem_singleton_self b)) h
    exact ih hrs h

include hl hr in
theorem toOption_decode_padded (bytes : List UInt8) :
    (decode (left ++ bytes ++ right)).toOption =
      (decode bytes).toOption.map fun text => asciiText left ++ text ++ asciiText right := by
  cases h : decode bytes with
  | ok text =>
    have padded : left ++ bytes ++ right = encode (asciiText left ++ text ++ asciiText right) := by
      rw [encode_append, encode_append, encode_asciiText hl, encode_asciiText hr,
        ← decode_eq_ok_iff.1 h]
    rw [decode_eq_ok_iff.2 padded]
    rfl
  | error byte =>
    cases h' : decode (left ++ bytes ++ right) with
    | error byte' => rfl
    | ok text =>
      obtain ⟨text, ht⟩ := exists_encode_of_append_right hr (decode_eq_ok_iff.1 h')
      obtain ⟨text, ht⟩ := exists_encode_of_append hl ht
      rw [decode_eq_ok_iff.2 ht] at h
      cases h

end

/-! ## The order of texts -/

theorem utf8EncodeChar_lt {c d : Char} (h : c < d) (xs ys : List UInt8) :
    String.utf8EncodeChar c ++ xs < String.utf8EncodeChar d ++ ys := by
  have hlt : c.val.toNat < d.val.toNat := h
  have hmost : d.val.toNat < 0x110000 := by
    have := toNat_range d
    unfold Char.toNat at this
    omega
  unfold String.utf8EncodeChar
  generalize c.val.toNat = m at *
  generalize d.val.toNat = n at *
  -- the bytes are the digits to the base 64, and the first of them also tells their number
  have hdigit : m / 262144 < n / 262144 ∨ m / 262144 = n / 262144 := by omega
  dsimp only
  rcases hdigit with hdigit | hdigit <;> split_ifs <;>
    simp (disch := omega) only [List.cons_append, List.nil_append, List.cons_lt_cons_iff,
      UInt8.lt_iff_toNat_lt, ← UInt8.toNat_inj, toNat_byte] <;>
    omega

theorem encode_lt_of_lt {a b : List Char} (h : a < b) : encode a < encode b := by
  induction h with
  | @nil c rest =>
    obtain ⟨byte, bytes, hc⟩ := List.exists_cons_of_ne_nil (String.utf8EncodeChar_ne_nil (c := c))
    rw [encode_cons, hc]
    exact List.nil_lt_cons _ _
  | rel h =>
    rw [encode_cons, encode_cons]
    exact utf8EncodeChar_lt h _ _
  | cons h ih =>
    rw [encode_cons, encode_cons]
    exact List.append_left_lt ih

/-- Texts are in order by their characters just when they are by their bytes. -/
theorem encode_lt_encode {a b : List Char} : encode a < encode b ↔ a < b := by
  constructor
  · intro h
    apply Classical.byContradiction
    intro hn
    rcases List.le_iff_lt_or_eq.mp (List.not_lt.mp hn) with hba | rfl
    · exact List.lt_asymm h (encode_lt_of_lt hba)
    · exact List.lt_irrefl _ h
  · exact encode_lt_of_lt

/-! ## Trimming -/

section
variable {α : Type} {drop : α → Bool} {items : List α}

theorem trimBy_eq_self_iff : trimBy drop items = items ↔
    (∀ x, items.head? = some x → drop x = false) ∧
      ∀ x, items.getLast? = some x → drop x = false := by
  constructor
  · intro h
    have front : items.dropWhile drop = items := by
      refine (List.dropWhile_suffix drop).eq_of_length (Nat.le_antisymm ?_ ?_)
      · exact (List.dropWhile_suffix drop).length_le
      · calc items.length = (trimBy drop items).length := by rw [h]
          _ ≤ (items.dropWhile drop).length := by
            rw [trimBy, List.length_reverse]
            exact (List.dropWhile_suffix drop).length_le.trans_eq List.length_reverse
    rw [trimBy, front] at h
    constructor
    · intro x hx
      have := List.head?_dropWhile_not drop items
      rwa [front, hx] at this
    · intro x hx
      have := List.head?_dropWhile_not drop items.reverse
      rw [List.reverse_eq_iff.1 h, List.head?_reverse, hx] at this
      exact this
  · rintro ⟨first, last⟩
    have front : items.dropWhile drop = items := by
      cases items with
      | nil => rfl
      | cons x items => rw [List.dropWhile_cons, first x rfl]; rfl
    have back : items.reverse.dropWhile drop = items.reverse := by
      rw [← List.head?_reverse] at last
      cases h : items.reverse with
      | nil => rfl
      | cons x items => rw [List.dropWhile_cons, last x (by rw [h]; rfl)]; rfl
    rw [trimBy, front, back, List.reverse_reverse]

theorem trimBy_padding {left right : List α} (hl : ∀ x ∈ left, drop x = true)
    (hr : ∀ x ∈ right, drop x = true) (items : List α) :
    trimBy drop (left ++ items ++ right) = trimBy drop items := by
  rw [trimBy, trimBy, List.append_assoc, List.dropWhile_append_of_pos hl, List.dropWhile_append]
  split
  · next h =>
    rw [List.dropWhile_eq_nil_iff.2 hr, List.isEmpty_iff.1 h]
  · rw [List.reverse_append, List.dropWhile_append_of_pos (by simpa using hr)]

theorem exists_trimBy (drop : α → Bool) (items : List α) :
    ∃ left right, items = left ++ trimBy drop items ++ right ∧ (∀ x ∈ left, drop x = true) ∧
      ∀ x ∈ right, drop x = true := by
  refine ⟨items.takeWhile drop, ((items.dropWhile drop).reverse.takeWhile drop).reverse, ?_, ?_, ?_⟩
  · rw [trimBy, List.append_assoc, ← List.reverse_append, List.takeWhile_append_dropWhile,
      List.reverse_reverse, List.takeWhile_append_dropWhile]
  · exact fun x hx => List.mem_takeWhile_imp hx
  · intro x hx
    exact List.mem_takeWhile_imp (List.mem_reverse.1 hx)

theorem trimBy_append {left right : List α} (hl : ∀ x ∈ left, drop x = true)
    (hr : ∀ x ∈ right, drop x = true) (h : trimBy drop items = items) :
    trimBy drop (left ++ items ++ right) = items := by
  rw [trimBy_padding hl hr, h]

end

end TimingCharts.Text
