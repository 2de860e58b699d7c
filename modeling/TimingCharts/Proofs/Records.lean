import TimingCharts.Delimited
import TimingCharts.Proofs.Decoding

/-!
# Written records

`WritesLines lines text` says that `text` writes down `lines`, each a list of fields: a field
stands raw, between spaces, or in quotes that double its own. The machine that splits a text
into records finds these fields again, with at most the spaces around them
(`records_written`).
-/

namespace TimingCharts.Delimited

open Text (encode encode_append)

/-! ## The machine without its counters -/

/-- The fields of the records that a machine finds. What it has counted plays no part. -/
def scan (stage : Stage) (fields : List (List UInt8)) (field bytes : List UInt8) :
    List (List (List UInt8)) :=
  (Scanner.run { stage, fields, field } bytes).map Record.fields

def Scanner.Similar (s t : Scanner) : Prop :=
  s.stage = t.stage ∧ s.fields = t.fields ∧ s.field = t.field

namespace Scanner

variable {s t : Scanner}

theorem Similar.outside (h : s.Similar t) (b : UInt8) {s' t' : Scanner} (h' : s'.Similar t') :
    (s.outside b s').1.Similar (t.outside b t').1 ∧
      (s.outside b s').2.map Record.fields = (t.outside b t').2.map Record.fields := by
  obtain ⟨hs, hfs, hf⟩ := h
  unfold Scanner.outside
  split
  · refine ⟨⟨rfl, ?_, rfl⟩, rfl⟩
    simp only [endField, hfs, hf]
  · split
    · refine ⟨⟨rfl, rfl, rfl⟩, ?_⟩
      simp only [record, Option.map_some, hfs, hf]
    · exact ⟨h', rfl⟩

theorem Similar.push (h : s.Similar t) (b : UInt8) (stage : Stage) :
    (s.push b stage).Similar (t.push b stage) := by
  refine ⟨rfl, h.2.1, ?_⟩
  simp only [Scanner.push, h.2.2]

theorem Similar.step (h : s.Similar t) (b : UInt8) :
    (s.step b).1.Similar (t.step b).1 ∧
      (s.step b).2.map Record.fields = (t.step b).2.map Record.fields := by
  have hc : (s.count b).Similar (t.count b) := h
  have turn (stage : Stage) :
      Similar { s.count b with stage } { t.count b with stage } := ⟨rfl, h.2⟩
  unfold Scanner.step
  dsimp only
  rw [← hc.1]
  generalize s.count b = s at hc turn
  generalize t.count b = t at hc turn
  have opened : Similar (if b = quote then { s with stage := .quoted } else s.push b .plain)
      (if b = quote then { t with stage := .quoted } else t.push b .plain) := by
    split
    · exact turn .quoted
    · exact hc.push b .plain
  cases s.stage with
  | between =>
    dsimp only
    split
    · exact ⟨hc, rfl⟩
    · exact hc.outside b opened
  | opening => exact hc.outside b opened
  | plain => exact hc.outside b (hc.push b .plain)
  | quoted =>
    refine ⟨?_, rfl⟩
    dsimp only
    split
    · exact turn .closing
    · exact hc.push b .quoted
  | closing =>
    dsimp only
    split
    · exact ⟨hc.push b .quoted, rfl⟩
    · exact hc.outside b (hc.push b .plain)

theorem Similar.run (h : s.Similar t) (bytes : List UInt8) :
    (s.run bytes).map Record.fields = (t.run bytes).map Record.fields := by
  induction bytes generalizing s t with
  | nil =>
    rw [Scanner.run, Scanner.run, h.1]
    split
    · rfl
    · simp only [record, List.map_cons, List.map_nil, h.2.1, h.2.2]
  | cons b bytes ih =>
    obtain ⟨hs, hr⟩ := h.step b
    rw [Scanner.run, Scanner.run]
    generalize s.step b = p at hs hr
    generalize t.step b = q at hs hr
    obtain ⟨s, r⟩ := p
    obtain ⟨t, r'⟩ := q
    cases r with
    | none =>
      cases r' with
      | none => exact ih hs
      | some _ => cases hr
    | some _ =>
      cases r' with
      | none => cases hr
      | some _ =>
        simp only [List.map_cons, ih hs, Option.some.inj hr]

end Scanner

section
variable {stage : Stage} {fields : List (List UInt8)} {field : List UInt8} {b : UInt8}
  {rest : List UInt8}

theorem map_fields_run (s : Scanner) (bytes : List UInt8) :
    (s.run bytes).map Record.fields = scan s.stage s.fields s.field bytes := by
  have h : s.Similar { stage := s.stage, fields := s.fields, field := s.field } :=
    ⟨rfl, rfl, rfl⟩
  exact h.run bytes

theorem scan_cons :
    scan stage fields field (b :: rest) =
      match Scanner.step { stage, fields, field } b with
      | (s, some r) => r.fields :: scan s.stage s.fields s.field rest
      | (s, none) => scan s.stage s.fields s.field rest := by
  rw [scan, Scanner.run]
  rcases Scanner.step { stage, fields, field } b with ⟨s, _ | r⟩
  · exact map_fields_run s rest
  · exact congrArg (r.fields :: ·) (map_fields_run s rest)

theorem scan_nil (h : stage ≠ .between) : scan stage fields field [] = [fields ++ [field]] := by
  rw [scan, Scanner.run, if_neg h]
  rfl

theorem scan_comma (h : stage ≠ .quoted) :
    scan stage fields field (comma :: rest) = scan .opening (fields ++ [field]) [] rest := by
  rw [scan_cons]
  cases stage with
  | quoted => exact absurd rfl h
  | _ => rfl

theorem ne_comma_of_terminator (h : isTerminator b = true) : b ≠ comma := by
  rintro rfl
  cases h

theorem ne_quote_of_terminator (h : isTerminator b = true) : b ≠ quote := by
  rintro rfl
  cases h

theorem scan_terminator (h : isTerminator b = true) (hq : stage ≠ .quoted)
    (hb : stage ≠ .between) :
    scan stage fields field (b :: rest) = (fields ++ [field]) :: scan .between [] [] rest := by
  rw [scan_cons]
  cases stage with
  | between => exact absurd rfl hb
  | quoted => exact absurd rfl hq
  | _ =>
    simp [Scanner.step, Scanner.count, Scanner.outside, Scanner.endRecord, Scanner.record,
      ne_comma_of_terminator h, ne_quote_of_terminator h, h]

theorem scan_blank (h : isTerminator b = true) :
    scan .between fields field (b :: rest) = scan .between fields field rest := by
  rw [scan_cons]
  simp [Scanner.step, Scanner.count, h]

/-- A byte without a meaning of its own. -/
def Plain (b : UInt8) : Prop := b ≠ comma ∧ b ≠ quote ∧ isTerminator b = false

theorem scan_plain (h : Plain b) (hq : stage = .between ∨ stage = .opening ∨ stage = .plain) :
    scan stage fields field (b :: rest) = scan .plain fields (field ++ [b]) rest := by
  rw [scan_cons]
  rcases hq with rfl | rfl | rfl <;>
    simp [Scanner.step, Scanner.count, Scanner.outside, Scanner.push, h.1, h.2.1, h.2.2]

theorem scan_quote (h : stage = .between ∨ stage = .opening) :
    scan stage fields field (quote :: rest) = scan .quoted fields field rest := by
  rw [scan_cons]
  rcases h with rfl | rfl <;> rfl

theorem scan_inner (h : b ≠ quote) :
    scan .quoted fields field (b :: rest) = scan .quoted fields (field ++ [b]) rest := by
  rw [scan_cons]
  simp [Scanner.step, Scanner.count, Scanner.push, h]

theorem scan_close :
    scan .quoted fields field (quote :: rest) = scan .closing fields field rest := by
  rw [scan_cons]
  rfl

theorem scan_reopen :
    scan .closing fields field (quote :: rest) = scan .quoted fields (field ++ [quote]) rest := by
  rw [scan_cons]
  rfl

end

/-! ## Written texts -/

def isSpecial (c : Char) : Bool := c == ',' || c == '"' || c == '\r' || c == '\n'

def spaces (n : Nat) : List Char := List.replicate n ' '

def doubled (text : List Char) : List Char :=
  text.flatMap fun c => if c = '"' then ['"', '"'] else [c]

inductive WritesField (content : List Char) : List Char → Prop
  | raw (before after : Nat) (plain : content.any isSpecial = false) :
      WritesField content (spaces before ++ content ++ spaces after)
  | quoted : WritesField content ('"' :: doubled content ++ ['"'])

inductive WritesFields : List (List Char) → List Char → Prop
  | one {content written : List Char} (field : WritesField content written) :
      WritesFields [content] written
  | more {content written : List Char} {contents : List (List Char)} {rest : List Char}
      (field : WritesField content written) (others : WritesFields contents rest) :
      WritesFields (content :: contents) (written ++ ',' :: rest)

inductive LineEnd where
  | lf
  | crlf
  | cr

def LineEnd.text : LineEnd → List Char
  | .lf => ['\n']
  | .crlf => ['\r', '\n']
  | .cr => ['\r']

/-- Lines of fields, each with any number of blank lines below it. The last may lack its end. -/
inductive WritesLines : List (List (List Char)) → List Char → Prop
  | none : WritesLines [] []
  | last {contents : List (List Char)} {written : List Char}
      (fields : WritesFields contents written) : WritesLines [contents] written
  | line {contents : List (List Char)} {written : List Char} {lines : List (List (List Char))}
      {rest : List Char} (fields : WritesFields contents written) (ending : LineEnd)
      (blanks : List LineEnd) (others : WritesLines lines rest) :
      WritesLines (contents :: lines)
        (written ++ ending.text ++ blanks.flatMap LineEnd.text ++ rest)

/-! ## Reading them -/

def Padded (content : List Char) (field : List UInt8) : Prop :=
  ∃ before after, field = encode (spaces before ++ content ++ spaces after)

theorem padded_self (content : List Char) : Padded content (encode content) :=
  ⟨0, 0, by simp [spaces]⟩

section
variable {fields : List (List UInt8)} {field bytes rest : List UInt8}

theorem scan_plain_bytes (h : ∀ b ∈ bytes, Plain b) :
    scan .plain fields field (bytes ++ rest) = scan .plain fields (field ++ bytes) rest := by
  induction bytes generalizing field with
  | nil => rw [List.nil_append, List.append_nil]
  | cons b bytes ih =>
    obtain ⟨hb, hbs⟩ := List.forall_mem_cons.1 h
    rw [List.cons_append, scan_plain hb (by simp), ih hbs, List.append_assoc]
    rfl

theorem scan_inner_bytes (h : ∀ b ∈ bytes, b ≠ quote) :
    scan .quoted fields field (bytes ++ rest) = scan .quoted fields (field ++ bytes) rest := by
  induction bytes generalizing field with
  | nil => rw [List.nil_append, List.append_nil]
  | cons b bytes ih =>
    obtain ⟨hb, hbs⟩ := List.forall_mem_cons.1 h
    rw [List.cons_append, scan_inner hb, ih hbs, List.append_assoc]
    rfl

theorem plain_of_mem_encode {text : List Char} (h : text.any isSpecial = false) :
    ∀ b ∈ encode text, Plain b := by
  rw [List.any_eq_false] at h
  intro b hb
  have hne (c : Char) (hc : isSpecial c = true) (hn : c.toNat < 0x80) : b ≠ UInt8.ofNat c.toNat := by
    rintro rfl
    have hbyte : (UInt8.ofNat c.toNat).toNat = c.toNat := Text.toNat_byte (by omega)
    obtain ⟨d, hd, he⟩ := Text.exists_of_mem_encode hb (by omega)
    rw [hbyte] at he
    exact h d hd (Char.toNat_inj.1 he ▸ hc)
  refine ⟨hne ',' rfl (by decide), hne '"' rfl (by decide), ?_⟩
  have hcr : b ≠ carriageReturn := hne '\r' rfl (by decide)
  have hlf : b ≠ lineFeed := hne '\n' rfl (by decide)
  simp [isTerminator, hcr, hlf]

theorem scan_doubled (text : List Char) :
    scan .quoted fields field (encode (doubled text) ++ rest) =
      scan .quoted fields (field ++ encode text) rest := by
  induction text generalizing field with
  | nil =>
    rw [show encode [] = [] from rfl, List.append_nil]
    rfl
  | cons c text ih =>
    rw [doubled, List.flatMap_cons, ← doubled, encode_append, List.append_assoc]
    by_cases hc : c = '"'
    · have hq : encode ['"', '"'] = [quote, quote] := by decide
      rw [if_pos hc, hq, List.cons_append, List.singleton_append, scan_close, scan_reopen, ih, hc,
        List.append_assoc]
      rfl
    · have inner : ∀ b ∈ encode [c], b ≠ quote := by
        rintro b hb rfl
        obtain ⟨d, hd, he⟩ := Text.exists_of_mem_encode hb (by decide)
        exact hc (List.mem_singleton.1 hd ▸ Char.toNat_inj.1 he)
      rw [if_neg hc, scan_inner_bytes inner, ih, List.append_assoc, ← encode_append]
      rfl

end

theorem scan_field {stage : Stage} (hs : stage = .between ∨ stage = .opening)
    {content written : List Char} (h : WritesField content written) :
    ∃ field stage', Padded content field ∧ stage' ≠ .quoted ∧
      (stage = .opening → stage' ≠ .between) ∧
      ∀ fields rest, scan stage fields [] (encode written ++ rest) = scan stage' fields field rest := by
  cases h with
  | raw before after plain =>
    have hsp (n : Nat) : (spaces n).any isSpecial = false := by
      rw [List.any_eq_false]
      intro c hc
      rw [List.eq_of_mem_replicate hc]
      decide
    have hp : ∀ b ∈ encode (spaces before ++ content ++ spaces after), Plain b := by
      apply plain_of_mem_encode
      rw [List.any_append, List.any_append, hsp, plain, hsp]
      rfl
    have hpad : Padded content (encode (spaces before ++ content ++ spaces after)) :=
      ⟨before, after, rfl⟩
    revert hp hpad
    generalize encode (spaces before ++ content ++ spaces after) = bytes
    intro hp hpad
    cases bytes with
    | nil =>
      refine ⟨[], stage, hpad, ?_, ?_, fun _ _ => rfl⟩
      · rcases hs with rfl | rfl <;> simp
      · rintro rfl
        simp
    | cons b bytes =>
      obtain ⟨hb, hbs⟩ := List.forall_mem_cons.1 hp
      refine ⟨b :: bytes, .plain, hpad, by simp, by simp, fun fields rest => ?_⟩
      rw [List.cons_append, scan_plain hb (hs.imp id Or.inl), scan_plain_bytes hbs]
      rfl
  | quoted =>
    refine ⟨encode content, .closing, padded_self content, by simp, by simp, fun fields rest => ?_⟩
    rw [show '"' :: doubled content ++ ['"'] = ['"'] ++ (doubled content ++ ['"']) from rfl,
      encode_append, encode_append, show encode ['"'] = [quote] by decide, List.append_assoc,
      List.append_assoc, List.singleton_append, scan_quote hs, scan_doubled,
      List.singleton_append, scan_close]
    rfl

theorem scan_fields {contents : List (List Char)} {written : List Char}
    (h : WritesFields contents written) :
    ∃ done field stage, List.Forall₂ Padded contents (done ++ [field]) ∧ stage ≠ .quoted ∧
      stage ≠ .between ∧ ∀ fields rest,
        scan .opening fields [] (encode written ++ rest) = scan stage (fields ++ done) field rest := by
  induction h with
  | one h =>
    obtain ⟨field, stage, hp, hq, hb, hscan⟩ := scan_field (.inr rfl) h
    refine ⟨[], field, stage, .cons hp .nil, hq, hb rfl, fun fields rest => ?_⟩
    rw [hscan, List.append_nil]
  | more h _ ih =>
    obtain ⟨first, stage, hp, hq, -, hscan⟩ := scan_field (.inr rfl) h
    obtain ⟨done, field, stage', hps, hq', hb', hscan'⟩ := ih
    refine ⟨first :: done, field, stage', .cons hp hps, hq', hb', fun fields rest => ?_⟩
    rw [encode_append, Text.encode_cons, show String.utf8EncodeChar ',' = [comma] by decide,
      List.append_assoc, List.append_assoc, hscan, List.singleton_append, scan_comma hq, hscan',
      List.append_assoc]
    rfl

theorem scan_line {contents : List (List Char)} {written : List Char}
    (h : WritesFields contents written) (two : 2 ≤ contents.length) :
    ∃ done field stage, List.Forall₂ Padded contents (done ++ [field]) ∧ stage ≠ .quoted ∧
      stage ≠ .between ∧ ∀ rest,
        scan .between [] [] (encode written ++ rest) = scan stage done field rest := by
  cases h with
  | one h => simp at two
  | more h hs =>
    obtain ⟨first, stage, hp, hq, -, hscan⟩ := scan_field (.inl rfl) h
    obtain ⟨done, field, stage', hps, hq', hb', hscan'⟩ := scan_fields hs
    refine ⟨first :: done, field, stage', .cons hp hps, hq', hb', fun rest => ?_⟩
    rw [encode_append, Text.encode_cons, show String.utf8EncodeChar ',' = [comma] by decide,
      List.append_assoc, List.append_assoc, hscan, List.singleton_append, scan_comma hq, hscan']
    rfl

theorem scan_blanks (blanks : List LineEnd) {rest : List UInt8} :
    scan .between [] [] (encode (blanks.flatMap LineEnd.text) ++ rest) =
      scan .between [] [] rest := by
  induction blanks with
  | nil => rfl
  | cons blank blanks ih =>
    rw [List.flatMap_cons, encode_append, List.append_assoc, ← ih]
    cases blank with
    | lf => exact scan_blank rfl
    | crlf => exact (scan_blank rfl).trans (scan_blank rfl)
    | cr => exact scan_blank rfl

theorem scan_ending (ending : LineEnd) {stage : Stage} (hq : stage ≠ .quoted)
    (hb : stage ≠ .between) {fields : List (List UInt8)} {field rest : List UInt8} :
    scan stage fields field (encode ending.text ++ rest) =
      (fields ++ [field]) :: scan .between [] [] rest := by
  cases ending with
  | lf => exact scan_terminator rfl hq hb
  | crlf =>
    refine (scan_terminator rfl hq hb).trans ?_
    exact congrArg _ (scan_blank rfl)
  | cr => exact scan_terminator rfl hq hb

theorem scan_lines {lines : List (List (List Char))} {text : List Char}
    (h : WritesLines lines text) (two : ∀ contents ∈ lines, 2 ≤ contents.length) :
    List.Forall₂ (List.Forall₂ Padded) lines (scan .between [] [] (encode text)) := by
  induction h with
  | none => exact .nil
  | last h =>
    obtain ⟨done, field, stage, hp, -, hb, hscan⟩ := scan_line h (two _ List.mem_cons_self)
    have := hscan []
    rw [List.append_nil, scan_nil hb] at this
    rw [this]
    exact .cons hp .nil
  | line h ending blanks _ ih =>
    obtain ⟨two, twos⟩ := List.forall_mem_cons.1 two
    obtain ⟨done, field, stage, hp, hq, hb, hscan⟩ := scan_line h two
    rw [encode_append, encode_append, encode_append, List.append_assoc, List.append_assoc, hscan,
      scan_ending ending hq hb, scan_blanks]
    exact .cons hp (ih twos)

/-! ## The byte order mark -/

def byteOrderMark : Char := '\uFEFF'

theorem records_encode {text : List Char} (h : text.head? ≠ some byteOrderMark) :
    records (encode text) = Scanner.run {} (encode text) := by
  unfold records
  split
  · rename_i rest heq
    have hd := Text.decode_encode text
    rw [heq, Text.decode, Text.decodeFrom_three _ _ (by decide) (by decide) (by decide)] at hd
    cases hr : Text.decodeFrom (0 + 3) rest with
    | error byte =>
      rw [hr] at hd
      cases hd
    | ok text' =>
      rw [hr] at hd
      cases hd
      exact absurd rfl h
  · rfl

theorem head?_writesField {content written rest : List Char} (h : WritesField content written)
    (hc : content.head? ≠ some byteOrderMark) (hr : rest.head? ≠ some byteOrderMark) :
    (written ++ rest).head? ≠ some byteOrderMark := by
  cases h with
  | raw before after plain =>
    cases before with
    | succ before => simp [spaces, List.replicate_succ, byteOrderMark]
    | zero =>
      cases content with
      | cons c content => simpa [spaces] using hc
      | nil =>
        cases after with
        | succ after => simp [spaces, List.replicate_succ, byteOrderMark]
        | zero => simpa [spaces] using hr
  | quoted => simp [byteOrderMark]

theorem head?_writesFields {contents : List (List Char)} {written rest : List Char}
    (h : WritesFields contents written)
    (hc : ∀ content ∈ contents, content.head? ≠ some byteOrderMark)
    (hr : rest.head? ≠ some byteOrderMark) : (written ++ rest).head? ≠ some byteOrderMark := by
  cases h with
  | one h => exact head?_writesField h (hc _ List.mem_cons_self) hr
  | more h _ =>
    rw [List.append_assoc]
    exact head?_writesField h (hc _ List.mem_cons_self) (by simp [byteOrderMark])

/-- The records of a written text are its lines, up to spaces around the fields. -/
theorem records_written {header : List (List Char)} {lines : List (List (List Char))}
    {text : List Char} (h : WritesLines (header :: lines) text)
    (two : ∀ contents ∈ header :: lines, 2 ≤ contents.length)
    (unmarked : ∀ content ∈ header, content.head? ≠ some byteOrderMark) :
    List.Forall₂ (List.Forall₂ Padded) (header :: lines)
      ((records (encode text)).map Record.fields) := by
  have first : text.head? ≠ some byteOrderMark := by
    cases h with
    | last h =>
      rw [← List.append_nil text]
      exact head?_writesFields h unmarked (by simp)
    | line h ending blanks _ =>
      rw [List.append_assoc, List.append_assoc]
      refine head?_writesFields h unmarked ?_
      cases ending <;> simp [LineEnd.text, byteOrderMark]
  rw [records_encode first, map_fields_run]
  exact scan_lines h two

end TimingCharts.Delimited
