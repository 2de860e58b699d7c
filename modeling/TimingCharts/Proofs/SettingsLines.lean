import TimingCharts.Proofs.SettingsTokens

/-!
# Lines of written settings

A line heads a section or gives a key a value. A written line is its tokens in front of any other
text (`Spells`), and these are the line in front of any other tokens (`Reads`), so the lines of a
text are read one after the other (`parse?_eq`). A line that starts with a key and an equals sign
gives that key a value, whatever the value is, if it is read at all (`exists_of_parse?`).
-/

namespace TimingCharts.Toml

/-! ## Whole numbers -/

theorem eq_zero_of_head?_toDigits (n : Nat) (h : (Nat.toDigits 10 n).head? = some '0') : n = 0 := by
  induction n using Nat.strong_induction_on with
  | _ n ih =>
    by_cases hn : n < 10
    · rw [Nat.toDigits_of_lt_base hn, List.head?_cons, Option.some.injEq] at h
      exact Nat.digitChar_eq_zero.mp h
    · rw [Nat.toDigits_of_base_le (by decide) (by omega),
        List.head?_append_of_ne_nil _ Nat.toDigits_ne_nil] at h
      have := ih (n / 10) (by omega) h
      omega

theorem digitOf_of_isDigit {c : Char} (h : c.isDigit = true) :
    digitOf? 10 c = some (c.toNat - '0'.toNat) := by
  have hrange : 48 ≤ c.toNat ∧ c.toNat ≤ 57 := by
    simpa [Char.isDigit, UInt32.le_iff_toNat_le] using h
  have hvalue : hexValue? c = some (c.toNat - 48) := by
    unfold hexValue?
    exact if_pos (by simpa [Char.le_def, UInt32.le_iff_toNat_le] using hrange)
  rw [digitOf?, hvalue]
  exact Option.filter_some_pos (by simp; omega)

theorem foldl_digits {digits : List Char} (h : ∀ c ∈ digits, c.isDigit = true) (m : Nat) :
    digits.foldl (fun (n : Int) c => n * (10 : Nat) + ((digitOf? 10 c).getD 0 : Nat)) m =
      Nat.ofDigitChars 10 digits m := by
  induction digits generalizing m with
  | nil => rfl
  | cons c digits ih =>
    have hdigits : ∀ d ∈ digits, d.isDigit = true := fun d hd => h d (List.mem_cons_of_mem _ hd)
    rw [List.foldl_cons, digitOf_of_isDigit (h c List.mem_cons_self), Nat.ofDigitChars_cons,
      ← ih hdigits]
    congr 1
    rw [Option.getD_some, Int.mul_comm]
    push_cast
    rfl

section
variable (n : Nat)

theorem isDigit_of_mem {c : Char} (h : c ∈ Nat.toDigits 10 n) : c.isDigit = true :=
  Nat.isDigit_of_mem_toDigits (by decide) le_rfl h

theorem isNumeral_toDigits : isNumeral false (Nat.toDigits 10 n) = true := by
  have underscore : '_' ∉ Nat.toDigits 10 n := Nat.underscore_not_in_toDigits
  have first : (Nat.toDigits 10 n).head? ≠ some '_' := fun h => underscore (List.mem_of_head? h)
  have last : (Nat.toDigits 10 n).getLast? ≠ some '_' := fun h =>
    underscore (List.mem_of_getLast? h)
  have pairs : ∀ p ∈ List.zip (Nat.toDigits 10 n) (Nat.toDigits 10 n).tail, p.1 ≠ '_' :=
    fun p hp h => underscore (h ▸ (List.of_mem_zip hp).1)
  have zeros : (Nat.toDigits 10 n).head? ≠ some '0' ∨ (Nat.toDigits 10 n).length = 1 := by
    by_cases h : (Nat.toDigits 10 n).head? = some '0'
    · right
      rw [eq_zero_of_head?_toDigits n h]
      rfl
    · exact .inl h
  have alone : (List.zip (Nat.toDigits 10 n) (Nat.toDigits 10 n).tail).any
      (fun p => p.1 == '_' && p.2 == '_') = false :=
    List.any_eq_false.mpr fun p hp => by simp [pairs p hp]
  simp [isNumeral, Nat.toDigits_ne_nil, first, last, alone, zeros]

theorem numeral_toDigits : numeral 10 false (Nat.toDigits 10 n) = some (Nat.toDigits 10 n, []) := by
  have run : ∀ c ∈ Nat.toDigits 10 n, (c == '_' || (digitOf? 10 c).isSome) = true := by
    intro c hc
    rw [digitOf_of_isDigit (isDigit_of_mem n hc)]
    simp
  have plain : (Nat.toDigits 10 n).filter (· != '_') = Nat.toDigits 10 n := by
    refine List.filter_eq_self.mpr fun c hc => ?_
    rw [bne_iff_ne]
    rintro rfl
    exact absurd (isDigit_of_mem n hc) (by decide)
  unfold numeral
  dsimp only
  rw [List.takeWhile_eq_self_iff.mpr run, List.dropWhile_eq_nil_iff.mpr run,
    if_pos (isNumeral_toDigits n), plain]

theorem integer_toDigits (h : n < 2 ^ 63) : integer 10 (Nat.toDigits 10 n) = some (n : Int) := by
  have sign : splitSign (Nat.toDigits 10 n) = (false, Nat.toDigits 10 n) := by
    unfold splitSign
    split
    · rename_i rest hrest
      have := isDigit_of_mem n (hrest ▸ List.mem_cons_self : '-' ∈ Nat.toDigits 10 n)
      cases this
    · rfl
  have value := foldl_digits (fun _ => isDigit_of_mem n) 0
  rw [Nat.ofDigitChars_ten_toDigits, Int.natCast_zero] at value
  have range : Int64.minValue.toInt ≤ (n : Int) ∧ (n : Int) ≤ Int64.maxValue.toInt := by
    constructor
    · exact Int.le_trans (by decide : Int64.minValue.toInt ≤ 0) (Int.natCast_nonneg n)
    · have hmax : Int64.maxValue.toInt = 2 ^ 63 - 1 := by decide
      omega
  unfold integer
  rw [if_pos rfl, sign]
  dsimp only
  rw [show ((10 : Nat) != 10) = false from rfl, numeral_toDigits]
  simp only [Option.bind_eq_bind, Option.bind_some, Bool.false_eq_true, if_false, value]
  exact if_pos ⟨trivial, range⟩

variable {n}

theorem notMem_toDigits {c : Char} (h : c.isDigit = false) : c ∉ Nat.toDigits 10 n := by
  intro hc
  rw [isDigit_of_mem n hc] at h
  cases h

theorem toDigits_ne {word : List Char} {c : Char} (hc : c ∈ word) (h : c.isDigit = false) :
    Nat.toDigits 10 n ≠ word := by
  rintro rfl
  exact notMem_toDigits h hc

theorem number_toDigits (h : n < 2 ^ 63) (ts : List Token) :
    number (Nat.toDigits 10 n) (.newline :: ts) = some (.integer n, .newline :: ts) := by
  unfold number
  dsimp only
  -- the word has no letter, so it has no other base and no exponent and is no named number
  split
  · rename_i hword
    exact absurd hword (toDigits_ne (c := 'x') (by simp) (by decide))
  · rename_i hword
    exact absurd hword (toDigits_ne (c := 'o') (by simp) (by decide))
  · rename_i hword
    exact absurd hword (toDigits_ne (c := 'b') (by simp) (by decide))
  · rw [if_neg (not_or.mpr ⟨notMem_toDigits (by decide), notMem_toDigits (by decide)⟩)]
    rw [if_neg (toDigits_ne (c := 'i') (by decide) (by decide)),
      if_neg (toDigits_ne (c := '-') (by decide) (by decide)),
      if_neg (not_or.mpr ⟨toDigits_ne (c := 'n') (by decide) (by decide),
        toDigits_ne (c := '-') (by decide) (by decide)⟩), integer_toDigits n h]
    rfl

theorem wordValue_toDigits (h : n < 2 ^ 63) (ts : List Token) :
    wordValue (Nat.toDigits 10 n) (.newline :: ts) = some (.integer n, .newline :: ts) := by
  have first : (Nat.toDigits 10 n).head?.any (fun c => c == '-' || c.isDigit) = true := by
    obtain ⟨c, rest, hword⟩ := List.exists_cons_of_ne_nil (Nat.toDigits_ne_nil (n := n) (b := 10))
    have hc := isDigit_of_mem n (hword ▸ List.mem_cons_self : c ∈ Nat.toDigits 10 n)
    simp [hword, hc]
  have date : isDateWord (Nat.toDigits 10 n) = false := by
    have minus : '-' ∉ (Nat.toDigits 10 n).tail := fun h =>
      notMem_toDigits (by decide) (List.mem_of_mem_tail h)
    have upper : 'T' ∉ Nat.toDigits 10 n := notMem_toDigits (by decide)
    have lower : 't' ∉ Nat.toDigits 10 n := notMem_toDigits (by decide)
    simp [isDateWord, minus, upper, lower]
  unfold wordValue
  rw [if_neg (toDigits_ne (c := 't') (by decide) (by decide)),
    if_neg (toDigits_ne (c := 'f') (by decide) (by decide)), if_pos (.inr (.inr first)),
    if_neg (by simp [date])]
  exact number_toDigits h ts

end

/-! ## Keys and values -/

def goesOn (c : Char) : Bool := isBareChar c || c == '"'

theorem Stops.bare {rest : List Char} (h : Stops goesOn rest) : Stops isBareChar rest :=
  fun c hc => (Bool.or_eq_false_iff.mp (h c hc)).1

theorem Stops.quote {rest : List Char} (h : Stops goesOn rest) : Stops (· == '"') rest :=
  fun c hc => (Bool.or_eq_false_iff.mp (h c hc)).2

structure SpellsToken (text : List Char) (t : Token) : Prop where
  start : ∃ c rest, text = c :: rest ∧ isBlankChar c = false
  returns : '\r' ∉ text
  gap : isGap t = false
  scan {rest : List Char} (stops : Stops goesOn rest) (fuel : Nat) :
    scan (fuel + 1) (text ++ rest) = (Toml.scan fuel rest).map (t :: ·)

theorem spellsToken_word {word : List Char} (filled : word ≠ [])
    (bare : ∀ c ∈ word, isBareChar c = true) : SpellsToken word (.bare word) where
  start := by
    obtain ⟨c, rest, rfl⟩ := List.exists_cons_of_ne_nil filled
    exact ⟨c, rest, rfl, blank_of_bare (bare c List.mem_cons_self)⟩
  returns h := absurd (bare _ h) (by decide)
  gap := rfl
  scan stops := scan_word filled bare stops.bare

theorem notMem_piece {c : Char} {piece : List Char} (h : WritesChar c piece) : '\r' ∉ piece := by
  have digits (width n : Nat) : '\r' ∉ hexText width n := by
    induction width generalizing n with
    | zero => exact List.not_mem_nil
    | succ width ih =>
      have hdigit : ∀ d < 16, Nat.digitChar d ≠ '\r' := by decide
      rw [hexText, List.mem_append, List.mem_singleton]
      exact not_or.mpr ⟨ih _, (hdigit _ (Nat.mod_lt n (by decide))).symm⟩
  cases h with
  | plain visible =>
    rw [List.mem_singleton]
    rintro rfl
    exact absurd visible.1 (by decide)
  | @letter e h =>
    unfold shortEscape? at h
    split at h
    case h_8 => cases h
    all_goals
      cases h
      decide
  | four | eight => simp [digits]

theorem spellsToken_text {text written : List Char} (h : WritesText text written) :
    SpellsToken written (.text text false) where
  start := by
    obtain ⟨pieces, -, rfl⟩ := h
    exact ⟨_, _, rfl, rfl⟩
  returns := by
    obtain ⟨pieces, hpieces, rfl⟩ := h
    have inside : '\r' ∉ pieces.flatten := by
      induction hpieces with
      | nil => exact List.not_mem_nil
      | cons hc _ ih =>
        rw [List.flatten_cons, List.mem_append]
        exact not_or.mpr ⟨notMem_piece hc, ih⟩
    simp [inside]
  gap := rfl
  scan stops := scan_text h stops.quote

inductive WritesKey (key : String) : List Char → Prop
  | bare (filled : key.toList ≠ []) (bare : ∀ c ∈ key.toList, isBareChar c = true) :
      WritesKey key key.toList
  | quoted {text : List Char} (h : WritesText key.toList text) : WritesKey key text

theorem WritesKey.token {key : String} {text : List Char} (h : WritesKey key text) :
    ∃ t, SpellsToken text t ∧ t.key? = some key := by
  cases h with
  | bare filled bare =>
    exact ⟨_, spellsToken_word filled bare, congrArg some String.ofList_toList⟩
  | quoted h => exact ⟨_, spellsToken_text h, congrArg some String.ofList_toList⟩

/-- How a value that a setting can have is written: a text between quotes, `true` or `false`, or a
number in decimal. -/
inductive WritesValue : Value → List Char → Prop
  | string {text : String} {written : List Char} (h : WritesText text.toList written) :
      WritesValue (.string text) written
  | boolean (b : Bool) : WritesValue (.boolean b) (toString b).toList
  | integer {n : Nat} (h : n < 2 ^ 63) : WritesValue (.integer n) (Nat.toDigits 10 n)

theorem WritesValue.token {v : Value} {text : List Char} (h : WritesValue v text) :
    ∃ t, SpellsToken text t ∧
      ∀ fuel ts, value (fuel + 1) (t :: .newline :: ts) = some (v, .newline :: ts) := by
  cases h with
  | string h =>
    refine ⟨_, spellsToken_text h, fun fuel ts => ?_⟩
    rw [value, String.ofList_toList]
  | boolean b =>
    refine ⟨_, spellsToken_word ?_ (List.all_eq_true.mp ?_), fun fuel ts => ?_⟩
    · cases b <;> decide
    · cases b <;> decide
    · rw [value]
      cases b with
      | true => exact if_pos rfl
      | false => exact (if_neg (by decide)).trans (if_pos rfl)
  | integer h =>
    refine ⟨_, spellsToken_word Nat.toDigits_ne_nil fun c hc => ?_, fun fuel ts => ?_⟩
    · simp [isBareChar, Char.isAlphanum, isDigit_of_mem _ hc]
    · rw [value]
      exact wordValue_toDigits h ts

/-! ## Lines as tokens -/

/-- A text that has its tokens in front of any other text. -/
structure Spells (text : List Char) (ts : List Token) : Prop where
  returns : '\r' ∉ text
  length_le : ts.length ≤ text.length
  scan (fuel : Nat) (rest : List Char) :
    scan (ts.length + fuel) (text ++ rest) = (Toml.scan fuel rest).map (ts ++ ·)

theorem spells_nil : Spells [] [] where
  returns := List.not_mem_nil
  length_le := le_rfl
  scan fuel rest := by simp

theorem Spells.append {text text' : List Char} {ts ts' : List Token} (h : Spells text ts)
    (h' : Spells text' ts') : Spells (text ++ text') (ts ++ ts') where
  returns := by
    rw [List.mem_append]
    exact not_or.mpr ⟨h.returns, h'.returns⟩
  length_le := by
    have hl := h.length_le
    have hl' := h'.length_le
    simp only [List.length_append]
    omega
  scan fuel rest := by
    rw [List.length_append, Nat.add_assoc, List.append_assoc, h.scan, h'.scan, Option.map_map]
    congr 1
    funext us
    simp

theorem spells_newline : Spells ['\n'] [.newline] where
  returns := by decide
  length_le := le_rfl
  scan fuel rest := by
    rw [List.length_singleton, Nat.add_comm]
    exact scan_symbol rfl fuel rest

section
variable {text : List Char} {t : Token} (h : SpellsToken text t)
include h

theorem SpellsToken.length_pos : 0 < text.length := by
  obtain ⟨c, rest, rfl, -⟩ := h.start
  simp

theorem SpellsToken.bracketed :
    Spells ('[' :: (text ++ [']'])) [.leftBracket, t, .rightBracket] where
  returns := by simp [h.returns]
  length_le := by
    have := h.length_pos
    simp
    omega
  scan fuel rest := by
    have stops : Stops goesOn (']' :: rest) := stops_cons (by decide)
    rw [List.cons_append, List.append_assoc, Nat.add_comm]
    change Toml.scan (fuel + 2 + 1) ('[' :: (text ++ ']' :: rest)) = _
    rw [scan_symbol rfl, h.scan stops, scan_symbol rfl]
    simp [Option.map_map, Function.comp_def]

theorem SpellsToken.assigned : Spells (text ++ [' ', '=']) [t, .blank [' '], .equals] where
  returns := by simp [h.returns]
  length_le := by
    have := h.length_pos
    simp
    omega
  scan fuel rest := by
    have stops : Stops goesOn (' ' :: '=' :: rest) := stops_cons (by decide)
    rw [List.append_assoc, Nat.add_comm]
    change Toml.scan (fuel + 2 + 1) (text ++ ' ' :: '=' :: rest) = _
    rw [h.scan stops, scan_space (stops_cons (by decide)), scan_symbol rfl]
    simp [Option.map_map, Function.comp_def]

theorem SpellsToken.ended : Spells (' ' :: (text ++ ['\n'])) [.blank [' '], t, .newline] where
  returns := by simp [h.returns]
  length_le := by
    have := h.length_pos
    simp
    omega
  scan fuel rest := by
    have stops : Stops goesOn ('\n' :: rest) := stops_cons (by decide)
    have start : Stops isBlankChar (text ++ '\n' :: rest) := by
      obtain ⟨c, rest, rfl, hc⟩ := h.start
      exact stops_cons hc
    rw [List.cons_append, List.append_assoc, Nat.add_comm]
    change Toml.scan (fuel + 2 + 1) (' ' :: (text ++ '\n' :: rest)) = _
    rw [scan_space start, h.scan stops, scan_symbol rfl]
    simp [Option.map_map, Function.comp_def]

end

section
variable {t : Token} {key : String} (h : t.key? = some key)
include h

theorem eq_of_key : t = .bare key.toList ∨ t = .text key.toList false := by
  unfold Token.key? at h
  split at h
  · cases h
    exact .inl (congrArg _ String.toList_ofList.symm)
  · cases h
    exact .inr (congrArg (Token.text · false) String.toList_ofList.symm)
  · cases h

theorem keyPath_cons (ts : List Token) :
    keyPath true (t :: ts) = (keyPath false ts).map fun (keys, ts) => (key :: keys, ts) := by
  have hkey := h
  rcases eq_of_key h with rfl | rfl
  all_goals
    rw [keyPath, if_pos rfl, hkey]
    · cases keyPath false ts <;> rfl
    · exact fun _ => nofun

theorem line_bracketed (ts : List Token) :
    line (.leftBracket :: t :: .rightBracket :: ts) =
      (endOfLine ts).map fun ts => (.header [key] false, ts) := by
  have hline : line (.leftBracket :: t :: .rightBracket :: ts) =
      headerLine false (t :: .rightBracket :: ts) := by
    rcases eq_of_key h with rfl | rfl <;> rfl
  rw [hline, headerLine, keyPath_cons h]
  change (do return (Line.header [key] false, ← endOfLine ts) : Option _) = _
  cases endOfLine ts <;> rfl

theorem line_assigned (ts : List Token) :
    line (t :: .blank [' '] :: .equals :: ts) = do
      let (v, rest) ← value (dropBlank ts).length (dropBlank ts)
      return (.entry [key] v, ← endOfLine rest) := by
  have head : assignmentHead (t :: .blank [' '] :: .equals :: ts) = some ([key], dropBlank ts) := by
    rw [assignmentHead, keyPath_cons h]
    rfl
  have hline : line (t :: .blank [' '] :: .equals :: ts) = do
      let (path, rest) ← assignmentHead (t :: .blank [' '] :: .equals :: ts)
      let (v, rest) ← value rest.length rest
      return (.entry path v, ← endOfLine rest) := by
    rcases eq_of_key h with rfl | rfl <;> rfl
  rw [hline, head]
  rfl

end

/-! ## Lines -/

inductive WritesLine : Line → List Char → Prop
  | header {name : String} {text : List Char} (h : WritesKey name text) :
      WritesLine (.header [name] false) ('[' :: text ++ "]\n".toList)
  | entry {key : String} {v : Value} {text text' : List Char} (hk : WritesKey key text)
      (hv : WritesValue v text') :
      WritesLine (.entry [key] v) (text ++ " = ".toList ++ text' ++ ['\n'])

def WritesLines (ls : List Line) (text : List Char) : Prop :=
  ∃ pieces, List.Forall₂ WritesLine ls pieces ∧ text = pieces.flatten

theorem WritesLines.append {ls ls' : List Line} {text text' : List Char} (h : WritesLines ls text)
    (h' : WritesLines ls' text') : WritesLines (ls ++ ls') (text ++ text') := by
  obtain ⟨pieces, hpieces, rfl⟩ := h
  obtain ⟨pieces', hpieces', rfl⟩ := h'
  exact ⟨_, List.rel_append hpieces hpieces', List.flatten_append.symm⟩

structure Reads (ts : List Token) (ls : List Line) : Prop where
  length_le : ls.length ≤ ts.length
  lines (fuel : Nat) (more : List Token) :
    lines (ls.length + fuel) (ts ++ more) = (Toml.lines fuel more).map (ls ++ ·)

theorem reads_nil : Reads [] [] where
  length_le := le_rfl
  lines fuel more := by simp

theorem Reads.append {ts ts' : List Token} {ls ls' : List Line} (h : Reads ts ls)
    (h' : Reads ts' ls') : Reads (ts ++ ts') (ls ++ ls') where
  length_le := by
    have hl := h.length_le
    have hl' := h'.length_le
    simp only [List.length_append]
    omega
  lines fuel more := by
    rw [List.length_append, Nat.add_assoc, List.append_assoc, h.lines, h'.lines, Option.map_map]
    congr 1
    funext ms
    simp

theorem lines_nil (fuel : Nat) : lines fuel [] = some [] := by
  cases fuel <;> rfl

theorem lines_cons {t : Token} (gap : isGap t = false) (fuel : Nat) (ts : List Token) :
    lines (fuel + 1) (t :: ts) = do
      let (l, more) ← line (t :: ts)
      return l :: (← lines fuel more) := by
  have hgap : (t :: ts).dropWhile isGap = t :: ts := List.dropWhile_cons_of_neg (by simp [gap])
  conv_lhs => unfold lines
  rw [hgap]

theorem reads_line {t : Token} {ts : List Token} {l : Line} (gap : isGap t = false)
    (h : ∀ more, line (t :: ts ++ more) = some (l, more)) : Reads (t :: ts) [l] where
  length_le := by simp
  lines fuel more := by
    rw [List.length_singleton, Nat.add_comm, List.cons_append, lines_cons gap, ← List.cons_append, h]
    dsimp only [Option.bind_eq_bind, Option.bind_some]
    cases Toml.lines fuel more <;> rfl

theorem WritesLine.tokens {l : Line} {text : List Char} (h : WritesLine l text) :
    ∃ ts, Spells text ts ∧ Reads ts [l] := by
  cases h with
  | header h =>
    obtain ⟨t, ht, hkey⟩ := h.token
    have spells := ht.bracketed.append spells_newline
    refine ⟨_, by simpa using spells, reads_line rfl fun more => ?_⟩
    exact line_bracketed hkey (.newline :: more)
  | entry hk hv =>
    obtain ⟨t, ht, hkey⟩ := hk.token
    obtain ⟨t', ht', hvalue⟩ := hv.token
    have spells := ht.assigned.append ht'.ended
    refine ⟨_, by simpa using spells, reads_line ht.gap fun more => ?_⟩
    have hrest := hvalue (more.length + 1) more
    change line (t :: .blank [' '] :: .equals :: .blank [' '] :: t' :: .newline :: more) = _
    rw [line_assigned hkey]
    change (do
      let (v, rest) ← value (more.length + 2) (t' :: .newline :: more)
      return (Line.entry [_] v, ← endOfLine rest) : Option _) = _
    rw [hrest]
    rfl

theorem WritesLines.tokens {ls : List Line} {text : List Char} (h : WritesLines ls text) :
    ∃ ts, Spells text ts ∧ Reads ts ls := by
  obtain ⟨pieces, hpieces, rfl⟩ := h
  induction hpieces with
  | nil => exact ⟨[], spells_nil, reads_nil⟩
  | cons hl _ ih =>
    obtain ⟨ts, hspells, hreads⟩ := hl.tokens
    obtain ⟨ts', hspells', hreads'⟩ := ih
    exact ⟨ts ++ ts', hspells.append hspells', hreads.append hreads'⟩

/-! ## Whole texts -/

theorem foldLineEnds_append {text : List Char} (h : '\r' ∉ text) (rest : List Char) :
    foldLineEnds (text ++ rest) = text ++ foldLineEnds rest := by
  induction text with
  | nil => rfl
  | cons c text ih =>
    rw [List.mem_cons, not_or] at h
    rw [List.cons_append, foldLineEnds, ih h.2]
    · rfl
    · rintro tail rfl
      exact absurd rfl h.1

section
variable {text : List Char} {ts : List Token} (h : Spells text ts)
include h

theorem no_mark_of_spells (rest : List Char) : text ≠ '\ufeff' :: rest := by
  rintro rfl
  have hscan := h.scan 0 []
  rw [List.append_nil, Nat.add_zero] at hscan
  cases ts with
  | nil => cases hscan
  | cons t ts =>
    rw [List.length_cons, Toml.scan] at hscan
    cases hscan

theorem tokens_append (filled : text ≠ []) (rest : List Char) :
    ∃ fuel, tokens (text ++ rest) = (Toml.scan fuel (foldLineEnds rest)).map (ts ++ ·) := by
  have hbody : tokens (text ++ rest) =
      scan (foldLineEnds (text ++ rest)).length (foldLineEnds (text ++ rest)) := by
    obtain ⟨c, text, rfl⟩ := List.exists_cons_of_ne_nil filled
    have hmark : c ≠ '\ufeff' := fun hc => no_mark_of_spells h text (hc ▸ rfl)
    unfold tokens
    split
    · rename_i hc
      exact absurd (List.cons.inj hc).1 hmark
    · rfl
  -- each token has at least one character, so the tokens of the text leave enough fuel
  rw [hbody, foldLineEnds_append h.returns]
  refine ⟨text.length + (foldLineEnds rest).length - ts.length, ?_⟩
  rw [← h.scan, List.length_append]
  congr 1
  have := h.length_le
  omega

end

theorem parse?_eq {ls : List Line} {text : List Char} (h : WritesLines ls text) :
    Document.parse? text = ls.foldlM Document.addLine {} := by
  obtain ⟨ts, hspells, hreads⟩ := h.tokens
  have htokens : tokens text = some ts := by
    by_cases filled : text = []
    · have := hspells.length_le
      rw [filled, List.length_nil, Nat.le_zero, List.length_eq_zero_iff] at this
      rw [filled, this]
      rfl
    · obtain ⟨fuel, hscan⟩ := tokens_append hspells filled []
      rw [List.append_nil] at hscan
      rw [hscan, foldLineEnds, scan_nil]
      simp
  have hlines : lines ts.length ts = some ls := by
    have hl := hreads.lines (ts.length - ls.length) []
    rw [List.append_nil, Nat.add_sub_cancel' hreads.length_le] at hl
    rw [hl, lines_nil]
    simp
  rw [Document.parse?, htokens]
  dsimp only [Option.bind_eq_bind, Option.bind_some]
  rw [hlines]
  rfl

/-- A text that starts a line of some kind, however the line goes on. -/
def Opens (text : List Char) (kind : Line → Prop) : Prop :=
  ∃ t ts, Spells text (t :: ts) ∧ isGap t = false ∧
    ∀ more l more', line (t :: ts ++ more) = some (l, more') → kind l

theorem WritesKey.opens_entry {key : String} {text : List Char} (h : WritesKey key text) :
    Opens (text ++ " =".toList) fun l => ∃ v, l = .entry [key] v := by
  obtain ⟨t, ht, hkey⟩ := h.token
  refine ⟨t, _, ht.assigned, ht.gap, fun more l more' hl => ?_⟩
  change line (t :: .blank [' '] :: .equals :: more) = _ at hl
  rw [line_assigned hkey, Option.bind_eq_bind, Option.bind_eq_some_iff] at hl
  obtain ⟨⟨v, rest⟩, -, hend⟩ := hl
  dsimp only at hend
  rw [Option.bind_eq_bind, Option.bind_eq_some_iff] at hend
  obtain ⟨_, -, ⟨⟩⟩ := hend
  exact ⟨v, rfl⟩

theorem WritesKey.opens_header {name : String} {text : List Char} (h : WritesKey name text) :
    Opens ('[' :: text ++ [']']) fun l => l = .header [name] false := by
  obtain ⟨t, ht, hkey⟩ := h.token
  refine ⟨.leftBracket, _, ht.bracketed, rfl, fun more l more' hl => ?_⟩
  rw [List.cons_append, List.cons_append, List.cons_append, List.nil_append,
    line_bracketed hkey, Option.map_eq_some_iff] at hl
  obtain ⟨_, _, ⟨⟩⟩ := hl
  rfl

/-- What follows a text that was written does not change how its lines are read. -/
theorem exists_of_parse? {ls : List Line} {text text' : List Char} {kind : Line → Prop}
    (h : WritesLines ls text) (h' : Opens text' kind) {rest : List Char} {doc : Document}
    (hdoc : Document.parse? (text ++ (text' ++ rest)) = some doc) :
    ∃ l ls', kind l ∧ (ls ++ l :: ls').foldlM Document.addLine {} = some doc := by
  obtain ⟨ts, hspells, hreads⟩ := h.tokens
  obtain ⟨t, ts', hspells', hgap, hkind⟩ := h'
  have filled : text ++ text' ≠ [] := by
    rintro hnil
    have := hspells'.length_le
    rw [(List.append_eq_nil_iff.mp hnil).2] at this
    cases this
  obtain ⟨fuel, htokens⟩ := tokens_append (hspells.append hspells') filled rest
  rw [List.append_assoc] at htokens
  obtain ⟨us, hus, hlines⟩ := Option.bind_eq_some_iff.mp hdoc
  obtain ⟨ms, hms, hfold⟩ := Option.bind_eq_some_iff.mp hlines
  rw [htokens, Option.map_eq_some_iff] at hus
  obtain ⟨vs, -, rfl⟩ := hus
  -- one line is left to read after those of the text
  have hfuel : (ts ++ t :: ts' ++ vs).length =
      ls.length + ((ts.length - ls.length) + ts'.length + vs.length + 1) := by
    have := hreads.length_le
    simp only [List.length_append, List.length_cons]
    omega
  rw [hfuel, List.append_assoc, hreads.lines, List.cons_append, lines_cons hgap,
    Option.map_eq_some_iff] at hms
  obtain ⟨ms, hms, rfl⟩ := hms
  obtain ⟨⟨l, more⟩, hline, hmore⟩ := Option.bind_eq_some_iff.mp hms
  obtain ⟨ls', -, ⟨⟩⟩ := Option.bind_eq_some_iff.mp hmore
  exact ⟨l, ls', hkind vs l more hline, hfold⟩

end TimingCharts.Toml
