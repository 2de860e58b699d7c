import Mathlib
import TimingCharts.Proofs.NumberTexts
import TimingCharts.Toml.Document

/-!
# Tokens of written settings

Words and quoted texts are given back by the scanner as they were written. Each is found whatever
comes after it, as long as that does not start with a character that could still belong to it.
-/

namespace TimingCharts.Toml

/-- A text that does not go on with a character of some kind. -/
def Stops (kind : Char → Bool) (rest : List Char) : Prop := ∀ c ∈ rest.head?, kind c = false

section
variable {c : Char} {rest rest' : List Char} {t : Token}

theorem stops_cons {kind : Char → Bool} (h : kind c = false) : Stops kind (c :: rest) := by
  rintro d ⟨⟩
  exact h

theorem span_of_stops {kind : Char → Bool} (stops : Stops kind rest) :
    rest.takeWhile kind = [] ∧ rest.dropWhile kind = rest := by
  cases rest with
  | nil => exact ⟨rfl, rfl⟩
  | cons c rest =>
    have hc := stops c rfl
    simp [hc]

theorem scan_nil (fuel : Nat) : scan fuel [] = some [] := by
  cases fuel <;> rfl

theorem scan_cons (h : nextToken c rest = some (t, rest')) (fuel : Nat) :
    scan (fuel + 1) (c :: rest) = (scan fuel rest').map (t :: ·) := by
  rw [scan, h]
  dsimp only [Option.bind_eq_bind, Option.bind_some]
  cases scan fuel rest' <;> rfl

theorem scan_symbol (h : Token.ofChar? c = some t) (fuel : Nat) (rest : List Char) :
    scan (fuel + 1) (c :: rest) = (scan fuel rest).map (t :: ·) := by
  refine scan_cons ?_ fuel
  rw [nextToken, h]

theorem scan_space (stops : Stops isBlankChar rest) (fuel : Nat) :
    scan (fuel + 1) (' ' :: rest) = (scan fuel rest).map (.blank [' '] :: ·) := by
  obtain ⟨htake, hdrop⟩ := span_of_stops stops
  refine scan_cons ?_ fuel
  simp only [nextToken, Token.ofChar?, htake, hdrop]
  rfl

/-! ## Words -/

theorem ne_of_bare {d : Char} (h : isBareChar c = true) (hd : isBareChar d = false) : c ≠ d := by
  rintro rfl
  rw [h] at hd
  cases hd

theorem ofChar_of_bare (h : isBareChar c = true) : Token.ofChar? c = none := by
  unfold Token.ofChar?
  split
  case h_11 => rfl
  all_goals exact absurd rfl (ne_of_bare h (by decide))

theorem blank_of_bare (h : isBareChar c = true) : isBlankChar c = false := by
  simp [isBlankChar, ne_of_bare h (d := ' ') (by decide), ne_of_bare h (d := '\t') (by decide)]

theorem scan_word {word : List Char} (filled : word ≠ [])
    (bare : ∀ c ∈ word, isBareChar c = true) (stops : Stops isBareChar rest) (fuel : Nat) :
    scan (fuel + 1) (word ++ rest) = (scan fuel rest).map (.bare word :: ·) := by
  cases word with
  | nil => exact absurd rfl filled
  | cons c word =>
    have hc := bare c List.mem_cons_self
    have hword : ∀ d ∈ word, isBareChar d = true := fun d hd => bare d (List.mem_cons_of_mem _ hd)
    obtain ⟨htake, hdrop⟩ := span_of_stops stops
    have hcomment : c ≠ '#' := ne_of_bare hc (by decide)
    have htoken : nextToken c (word ++ rest) = some (.bare (c :: word), rest) := by
      rw [nextToken, ofChar_of_bare hc]
      dsimp only
      rw [if_neg (by simp [blank_of_bare hc]), if_neg hcomment, if_pos hc,
        List.takeWhile_append_of_pos hword, List.dropWhile_append_of_pos hword, htake, hdrop,
        List.append_nil]
    exact scan_cons htoken fuel

/-! ## Quoted texts -/

def shortEscape? : Char → Option Char
  | '"' => some '"'
  | '\\' => some '\\'
  | '\x08' => some 'b'
  | '\t' => some 't'
  | '\n' => some 'n'
  | '\x0c' => some 'f'
  | '\r' => some 'r'
  | _ => none

def hexText : Nat → Nat → List Char
  | 0, _ => []
  | width + 1, n => hexText width (n / 16) ++ [Nat.digitChar (n % 16)]

/-- How a character can be written between quotes: as itself, unless it is a quote, a backslash or
a control character, or as an escape. -/
inductive WritesChar : Char → List Char → Prop
  | plain {c : Char} (visible : ' ' ≤ c ∧ c ≠ '\x7f') (quote : c ≠ '"') (backslash : c ≠ '\\') :
      WritesChar c [c]
  | letter {c e : Char} (h : shortEscape? c = some e) : WritesChar c ['\\', e]
  | four {c : Char} (h : c.toNat < 16 ^ 4) : WritesChar c ('\\' :: 'u' :: hexText 4 c.toNat)
  | eight (c : Char) : WritesChar c ('\\' :: 'U' :: hexText 8 c.toNat)

theorem unescape_letter {e : Char} (h : shortEscape? c = some e) (rest : List Char) :
    unescape (e :: rest) = some (c, rest) := by
  unfold shortEscape? at h
  split at h
  case h_8 => cases h
  all_goals
    cases h
    rfl

theorem hexValue_digitChar {n : Nat} (h : n < 16) : hexValue? (Nat.digitChar n) = some n := by
  have all : ∀ n < 16, hexValue? (Nat.digitChar n) = some n := by decide
  exact all n h

theorem mapM_hexText (width n : Nat) : ∃ values, (hexText width n).mapM hexValue? = some values ∧
    values.foldl (fun n d => n * 16 + d) 0 = n % 16 ^ width := by
  induction width generalizing n with
  | zero => exact ⟨[], rfl, by rw [Nat.pow_zero, Nat.mod_one]; rfl⟩
  | succ width ih =>
    obtain ⟨values, hvalues, hfold⟩ := ih (n / 16)
    refine ⟨values ++ [n % 16], ?_, ?_⟩
    · rw [hexText, List.mapM_append, hvalues]
      simp [hexValue_digitChar (Nat.mod_lt n (by decide : 0 < 16))]
    · rw [List.foldl_append, hfold, List.foldl_cons, List.foldl_nil, Nat.pow_succ', Nat.mod_mul]
      omega

theorem charOfHex_hexText {width : Nat} (h : c.toNat < 16 ^ width) :
    charOfHex? (hexText width c.toNat) = some c := by
  obtain ⟨values, hvalues, hfold⟩ := mapM_hexText width c.toNat
  have hvalid : c.toNat.isValidChar := c.valid
  rw [charOfHex?, hvalues]
  simp only [Option.bind_eq_bind, Option.bind_some, hfold, Nat.mod_eq_of_lt h, if_pos hvalid]
  rw [Char.ofNat_toNat]

theorem unescape_four (h : c.toNat < 16 ^ 4) (rest : List Char) :
    unescape ('u' :: hexText 4 c.toNat ++ rest) = some (c, rest) := by
  have hchar := charOfHex_hexText h
  simp only [hexText, List.nil_append, List.cons_append] at hchar ⊢
  rw [unescape, hchar]
  rfl

theorem unescape_eight (c : Char) (rest : List Char) :
    unescape ('U' :: hexText 8 c.toNat ++ rest) = some (c, rest) := by
  have hsmall : c.toNat < 16 ^ 8 := by
    have hvalid : c.toNat.isValidChar := c.valid
    unfold Nat.isValidChar at hvalid
    omega
  have hchar := charOfHex_hexText hsmall
  simp only [hexText, List.nil_append, List.cons_append] at hchar ⊢
  rw [unescape, hchar]
  rfl

def WritesText (text written : List Char) : Prop :=
  ∃ pieces, List.Forall₂ WritesChar text pieces ∧ written = '"' :: pieces.flatten ++ ['"']

theorem quotedLine_piece {piece : List Char} (h : WritesChar c piece) (rest : List Char) :
    quotedLine .basic (piece ++ rest) =
      (quotedLine .basic rest).map fun (text, rest) => (c :: text, rest) := by
  have escape {written : List Char} (hc : unescape written = some (c, rest)) :
      quotedLine .basic ('\\' :: written) =
        (quotedLine .basic rest).map fun (text, rest) => (c :: text, rest) := by
    rw [quotedLine, if_neg (by decide), if_pos ⟨rfl, rfl⟩]
    split
    · rename_i hd
      rw [hc] at hd
      cases hd
      rfl
    · rename_i hd
      rw [hc] at hd
      cases hd
  cases h with
  | plain visible quote backslash =>
    have htext : isTextChar c = true := by simp [isTextChar, isCommentChar, visible]
    have hmark : c ≠ Quote.basic.mark := quote
    rw [List.cons_append, List.nil_append, quotedLine, if_neg hmark,
      if_neg (fun h => backslash h.2), if_pos htext]
  | letter h => exact escape (unescape_letter h rest)
  | four h => exact escape (unescape_four h rest)
  | eight => exact escape (unescape_eight c rest)

theorem quotedLine_pieces {text : List Char} {pieces : List (List Char)}
    (h : List.Forall₂ WritesChar text pieces) (rest : List Char) :
    quotedLine .basic (pieces.flatten ++ '"' :: rest) = some (text, rest) := by
  induction h with
  | nil =>
    rw [List.flatten_nil, List.nil_append, quotedLine]
    rfl
  | cons hc _ ih =>
    rw [List.flatten_cons, List.append_assoc, quotedLine_piece hc, ih]
    rfl

theorem head?_piece {piece : List Char} (h : WritesChar c piece) :
    ∃ d tail, piece = d :: tail ∧ d ≠ '"' := by
  cases h with
  | plain _ quote => exact ⟨_, _, rfl, quote⟩
  | letter | four | eight => exact ⟨_, _, rfl, by decide⟩

theorem quotedText_cons (h : c ≠ '"') (rest : List Char) :
    quotedText .basic (c :: rest) =
      (quotedLine .basic (c :: rest)).map fun (text, rest) => (.text text false, rest) := by
  have hmark : c ≠ Quote.basic.mark := h
  cases rest with
  | nil => rfl
  | cons d rest =>
    unfold quotedText
    dsimp only
    rw [if_neg (fun h => hmark h.1), if_neg hmark]

theorem scan_text {text written : List Char} (h : WritesText text written)
    (stops : Stops (· == '"') rest) (fuel : Nat) :
    scan (fuel + 1) (written ++ rest) = (scan fuel rest).map (.text text false :: ·) := by
  obtain ⟨pieces, hpieces, rfl⟩ := h
  have hline := quotedLine_pieces hpieces rest
  rw [List.append_assoc, List.cons_append]
  refine scan_cons ?_ fuel
  change quotedText .basic (pieces.flatten ++ '"' :: rest) = _
  cases hpieces with
  | nil =>
    -- a third quote would open a text over several lines
    cases rest with
    | nil =>
      change (quotedLine .basic ['"']).map _ = _
      rw [show quotedLine .basic ['"'] = some ([], []) from hline]
      rfl
    | cons d rest =>
      have hd : ¬('"' = Quote.basic.mark ∧ d = Quote.basic.mark) := fun h =>
        absurd (stops d rfl) (by simp [h.2, Quote.mark])
      change quotedText .basic ('"' :: d :: rest) = _
      unfold quotedText
      dsimp only
      rw [if_neg hd, if_pos (by decide)]
  | cons hc _ =>
    obtain ⟨d, tail, rfl, hd⟩ := head?_piece hc
    rw [List.flatten_cons, List.cons_append, List.cons_append] at hline ⊢
    rw [quotedText_cons hd, hline]
    rfl

end

end TimingCharts.Toml
