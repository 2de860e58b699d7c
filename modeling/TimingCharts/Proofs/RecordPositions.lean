import TimingCharts.Proofs.FaultyFiles

/-!
# Where records stand

A run of the machine splits wherever the text does: `run_append`. Behind each record it starts
anew, so that a record is the first of the text that follows its position (`exists_split`). The
line of a position is counted there, and not where the record begins: line ends in between are
skipped, and the line that is reported for a bad cell is too low by their number
(`invalidValue_line`).
-/

namespace TimingCharts.Delimited

namespace Scanner

/-! ## Splitting a run -/

def after (s : Scanner) : List UInt8 → Scanner
  | [] => s
  | b :: rest => (s.step b).1.after rest

def found (s : Scanner) : List UInt8 → List Record
  | [] => []
  | b :: rest => (s.step b).2.toList ++ (s.step b).1.found rest

theorem run_cons (s : Scanner) (b : UInt8) (rest : List UInt8) :
    s.run (b :: rest) = (s.step b).2.toList ++ (s.step b).1.run rest := by
  rw [run]
  rcases s.step b with ⟨s', _ | record⟩ <;> rfl

theorem run_append (s : Scanner) (front rest : List UInt8) :
    s.run (front ++ rest) = s.found front ++ (s.after front).run rest := by
  induction front generalizing s with
  | nil => rfl
  | cons b front ih => rw [List.cons_append, run_cons, ih, found, after, List.append_assoc]

theorem after_append (s : Scanner) (front rest : List UInt8) :
    s.after (front ++ rest) = (s.after front).after rest := by
  induction front generalizing s with
  | nil => rfl
  | cons b front ih => exact ih _

/-! ## What a byte does -/

def start (p : Position) : Scanner := { position := p, line := p.line, byte := p.byte }

structure Continues (s : Scanner) (b : UInt8) (t : Scanner) : Prop where
  position : t.position = s.position
  line : t.line = (s.count b).line
  between : t.stage = .between → s.stage = .between ∧ t.fields = s.fields ∧ t.field = s.field

/-- A byte ends a record, and the machine starts anew behind it, or goes on with the record. -/
theorem step_cases (s : Scanner) (b : UInt8) :
    (∃ t, s.step b = (t, none) ∧ Continues s b t) ∨
      s.stage ≠ .between ∧ isTerminator b = true ∧
        s.step b = (start ⟨s.position.record + 1, (s.count b).line, s.byte + 1⟩,
          some (s.count b).record) := by
  have turn {stage : Stage} (h : stage ≠ .between) : Continues s b { s.count b with stage } :=
    ⟨rfl, rfl, fun h' => absurd h' h⟩
  have push {stage : Stage} (h : stage ≠ .between) : Continues s b ((s.count b).push b stage) :=
    ⟨rfl, rfl, fun h' => absurd h' h⟩
  have outside {t : Scanner} (ht : Continues s b t)
      (hs : isTerminator b = true → s.stage ≠ .between) :
      (∃ t', (s.count b).outside b t = (t', none) ∧ Continues s b t') ∨
        s.stage ≠ .between ∧ isTerminator b = true ∧ (s.count b).outside b t =
          (start ⟨s.position.record + 1, (s.count b).line, s.byte + 1⟩,
            some (s.count b).record) := by
    unfold Scanner.outside
    split
    · exact .inl ⟨_, rfl, rfl, rfl, fun h => nomatch h⟩
    · split
      · next hb => exact .inr ⟨hs hb, hb, rfl⟩
      · exact .inl ⟨t, rfl, ht⟩
  have opened : Continues s b (if b = quote then { s.count b with stage := .quoted }
      else (s.count b).push b .plain) := by
    split
    · exact turn (by decide)
    · exact push (by decide)
  have hc : (s.count b).stage = s.stage := rfl
  unfold step
  dsimp only
  rw [hc]
  cases hs : s.stage with
  | between =>
    rw [hs] at outside
    dsimp only
    split
    · exact .inl ⟨_, rfl, rfl, rfl, fun _ => ⟨hs, rfl, rfl⟩⟩
    · next hb => exact outside opened fun h => absurd h hb
  | opening =>
    rw [hs] at outside
    exact outside opened fun _ => by decide
  | plain =>
    rw [hs] at outside
    exact outside (push (by decide)) fun _ => by decide
  | quoted =>
    refine .inl ⟨_, rfl, ?_⟩
    split
    · exact turn (by decide)
    · exact push (by decide)
  | closing =>
    dsimp only
    split
    · exact .inl ⟨_, rfl, push (by decide)⟩
    · rw [hs] at outside
      exact outside (push (by decide)) fun _ => by decide

theorem line_count (s : Scanner) (b : UInt8) :
    (s.count b).line = s.line + [b].count lineFeed := by
  unfold count
  by_cases h : b = lineFeed <;> simp [h]

theorem line_after (s : Scanner) (bytes : List UInt8) :
    (s.after bytes).line = s.line + bytes.count lineFeed := by
  induction bytes generalizing s with
  | nil => rfl
  | cons b bytes ih =>
    have first : (s.step b).1.line = (s.count b).line := by
      rcases s.step_cases b with ⟨t, ht, h⟩ | ⟨-, -, h⟩
      · rw [ht]
        exact h.line
      · rw [h]
        rfl
    rw [after, ih, first, line_count, Nat.add_assoc, ← List.count_append, List.singleton_append]

/-! ## A record and the text before it -/

/-- A record is the one that the machine reads already, or the text splits at its position: the
records before it end in the first part, and it is the first of the second. -/
theorem exists_split {s : Scanner} {bytes : List UInt8} {earlier later : List Record}
    {record : Record} (h : s.run bytes = earlier ++ record :: later) :
    earlier = [] ∧ record.position = s.position ∨
      ∃ front b rest, bytes = front ++ [b] ++ rest ∧ (s.after front).stage ≠ .between ∧
        isTerminator b = true ∧ s.found (front ++ [b]) = earlier ∧
        s.after (front ++ [b]) = start record.position ∧
        (start record.position).run rest = record :: later := by
  induction bytes generalizing s earlier with
  | nil =>
    left
    rw [run] at h
    split at h
    · simp at h
    · obtain ⟨rfl, h⟩ | ⟨_, rfl, h⟩ := List.append_eq_cons_iff.mp h.symm
      · cases h
        exact ⟨rfl, rfl⟩
      · simp at h
  | cons a bytes ih =>
    rw [run_cons] at h
    rcases s.step_cases a with ⟨t, ht, hc⟩ | ⟨hs, ha, ht⟩
    · rw [ht] at h
      rcases ih h with ⟨he, hp⟩ | ⟨front, b, rest, rfl, ho, hb, hf, hafter, hr⟩
      · exact .inl ⟨he, hp.trans hc.position⟩
      · refine .inr ⟨a :: front, b, rest, rfl, ?_, hb, ?_, ?_, hr⟩
        · rwa [after, ht]
        · rw [List.cons_append, found, ht]
          exact hf
        · rwa [List.cons_append, after, ht]
    · rw [ht] at h
      obtain ⟨rfl, h'⟩ | ⟨earlier', rfl, h'⟩ := List.append_eq_cons_iff.mp h.symm
      · cases h'
        exact .inl ⟨rfl, rfl⟩
      · rcases ih h' with ⟨rfl, hp⟩ | ⟨front, b, rest, rfl, ho, hb, hf, hafter, hr⟩
        · refine .inr ⟨[], a, bytes, rfl, hs, ha, ?_, ?_, ?_⟩
          · rw [List.nil_append, found, ht]
            rfl
          · rw [List.nil_append, after, ht, hp]
            rfl
          · rw [hp]
            exact h'
        · refine .inr ⟨a :: front, b, rest, rfl, ?_, hb, ?_, ?_, hr⟩
          · rwa [after, ht]
          · rw [List.cons_append, found, ht]
            exact congrArg _ hf
          · rwa [List.cons_append, after, ht]

end Scanner

/-! ## Lines -/

/-- The line on which a text goes on after `front`, counted from one. A line ends at a line feed,
whether or not a carriage return stands before it. -/
def lineAfter (front : List UInt8) : Nat := 1 + front.count lineFeed

theorem lineAfter_append (front rest : List UInt8) :
    lineAfter (front ++ rest) = lineAfter front + rest.count lineFeed := by
  unfold lineAfter
  rw [List.count_append]
  omega

/-! ## The front of a text -/

def mark : List UInt8 := [0xEF, 0xBB, 0xBF]

/-- The machine that reads a text, and what it reads of it: all but a byte order mark. -/
def opening : List UInt8 → Scanner × List UInt8
  | 0xEF :: 0xBB :: 0xBF :: rest => ({ byte := 3 }, rest)
  | bytes => ({}, bytes)

def stateAfter (bytes : List UInt8) : Scanner := (opening bytes).1.after (opening bytes).2

theorem opening_unmarked {bytes : List UInt8} (h : ¬ mark <+: bytes) :
    opening bytes = ({}, bytes) := by
  unfold opening
  split
  · exact absurd ⟨_, rfl⟩ h
  · rfl

theorem records_eq (bytes : List UInt8) :
    records bytes = (opening bytes).1.run (opening bytes).2 := by
  by_cases h : mark <+: bytes
  · obtain ⟨rest, rfl⟩ := h
    rfl
  · rw [opening_unmarked h]
    unfold records
    split
    · exact absurd ⟨_, rfl⟩ h
    · rfl

theorem exists_lead (bytes : List UInt8) :
    ∃ lead, bytes = lead ++ (opening bytes).2 ∧ lineAfter lead = (opening bytes).1.line ∧
      ∀ front, front <+: (opening bytes).2 →
        opening (lead ++ front) = ((opening bytes).1, front) := by
  by_cases h : mark <+: bytes
  · obtain ⟨rest, rfl⟩ := h
    exact ⟨mark, rfl, rfl, fun front _ => rfl⟩
  · rw [opening_unmarked h]
    exact ⟨[], rfl, rfl, fun front hf => opening_unmarked fun hm => h (hm.trans hf)⟩

/-! ## Where a record stands -/

theorem scan_skip {skipped rest : List UInt8} (h : ∀ b ∈ skipped, isTerminator b = true) :
    scan .between [] [] (skipped ++ rest) = scan .between [] [] rest := by
  induction skipped with
  | nil => rfl
  | cons b skipped ih =>
    obtain ⟨hb, hbs⟩ := List.forall_mem_cons.mp h
    rw [List.cons_append, scan_blank hb, ih hbs]

/-- Where a record stands that is not the first: `before` goes up to the byte that ended the one
before it, `skipped` are the line ends that follow, and the record begins with `rest`. -/
structure Stands (bytes before skipped rest : List UInt8) (record : Record) : Prop where
  text : bytes = before ++ skipped ++ rest
  ended : ∃ front b, before = front ++ [b] ∧ (stateAfter front).stage ≠ .between ∧
    isTerminator b = true
  blank : ∀ b ∈ skipped, isTerminator b = true
  begins : ∃ b tail, rest = b :: tail ∧ isTerminator b = false
  records : ∃ later, records bytes = records before ++ record :: later ∧
    (Scanner.run {} rest).map Record.fields = (record :: later).map Record.fields

theorem exists_stands {bytes : List UInt8} {earlier later : List Record} {record : Record}
    (h : records bytes = earlier ++ record :: later) (he : earlier ≠ []) :
    ∃ before skipped rest, Stands bytes before skipped rest record ∧
      record.position.line = lineAfter before := by
  rw [records_eq] at h
  obtain ⟨lead, hlead, hline, hcut⟩ := exists_lead bytes
  rcases Scanner.exists_split h with ⟨rfl, -⟩ | ⟨front, b, rest, htext, ho, hb, hf, ha, hr⟩
  · exact absurd rfl he
  -- the line ends that the machine skips before the record
  obtain ⟨skipped, tail, hrest, hblank, hbegins⟩ : ∃ skipped tail, rest = skipped ++ tail ∧
      (∀ b ∈ skipped, isTerminator b = true) ∧ ∀ b ∈ tail.head?, isTerminator b = false := by
    refine ⟨rest.takeWhile isTerminator, rest.dropWhile isTerminator,
      List.takeWhile_append_dropWhile.symm, fun b hb => List.mem_takeWhile_imp hb, ?_⟩
    intro b hb
    have := List.head?_dropWhile_not isTerminator rest
    rw [Option.mem_def.mp hb] at this
    simpa using this
  have hfields : (Scanner.run {} tail).map Record.fields = (record :: later).map Record.fields := by
    rw [← hr, hrest, map_fields_run, map_fields_run]
    exact (scan_skip hblank).symm
  have hopen := hcut (front ++ [b]) ⟨rest, htext.symm⟩
  refine ⟨lead ++ (front ++ [b]), skipped, tail, ⟨?_, ?_, hblank, ?_, later, ?_, hfields⟩, ?_⟩
  · rw [List.append_assoc, List.append_assoc, ← hrest, ← htext]
    exact hlead
  · refine ⟨lead ++ front, b, (List.append_assoc ..).symm, ?_, hb⟩
    rw [stateAfter, hcut front ⟨[b] ++ rest, by rw [htext, List.append_assoc]⟩]
    exact ho
  · cases tail with
    | nil => simp [Scanner.run] at hfields
    | cons c tail => exact ⟨c, tail, rfl, hbegins c rfl⟩
  · have hbefore : records (lead ++ (front ++ [b])) = earlier := by
      rw [records_eq, hopen, ← List.append_nil (front ++ [b]), Scanner.run_append,
        List.append_nil, hf, ha]
      exact List.append_nil _
    rw [hbefore, records_eq, h]
  · have := Scanner.line_after (opening bytes).1 (front ++ [b])
    rw [ha, ← hline, ← lineAfter_append] at this
    exact this

end TimingCharts.Delimited

namespace TimingCharts.Table

open Delimited (Stands lineAfter lineFeed)

theorem line_of_faultOf {layout : Layout String} {headers : List String} {record : Delimited.Record}
    {line : Nat} {column value : String}
    (h : faultOf layout headers record = some (.invalidValue line column value)) :
    line = record.position.line := by
  unfold faultOf at h
  split at h
  · cases h
  · split at h
    · cases h
    · obtain ⟨cell, -, h⟩ := Option.map_eq_some_iff.mp h
      cases h
      rfl

theorem exists_record_of_invalidValue {source : Path} {layout : Layout String} {bytes : List UInt8}
    {line : Nat} {column value : String}
    (h : ofBytes source layout bytes = .error (.invalidValue line column value)) :
    ∃ headers header good record later, headerRow (Delimited.records bytes) = .ok headers ∧
      Delimited.records bytes = header :: good ++ record :: later ∧
      faultOf layout headers record = some (.invalidValue line column value) := by
  rw [ofBytes_eq_error] at h
  cases readable : headerRow (Delimited.records bytes) with
  | error fault =>
    obtain ⟨cause, rfl⟩ := unreadable_of_headerRow readable
    rw [samplesOf_of_unreadable readable] at h
    cases h
  | ok headers =>
    cases missing : layout.names.find? (· ∉ headers) with
    | some name =>
      rw [samplesOf_of_missing readable missing] at h
      cases h
    | none =>
      have found : ∀ name ∈ layout.names, name ∈ headers := by simpa using missing
      cases fault : (Delimited.records bytes).tail.findSome? (faultOf layout headers) with
      | none =>
        obtain ⟨rows, -, hs⟩ := samplesOf_of_sound readable found fault
        rw [hs] at h
        split at h <;> cases h
      | some f =>
        rw [samplesOf_of_fault readable found fault] at h
        cases h
        obtain ⟨good, record, later, htail, hf, -⟩ := List.findSome?_eq_some_iff.mp fault
        cases hr : Delimited.records bytes with
        | nil => simp [hr] at htail
        | cons header body =>
          rw [hr, List.tail_cons] at htail
          exact ⟨headers, header, good, record, later, rfl, by rw [htail]; rfl, hf⟩

/-- The line that is reported for a bad cell is the one on which the record before the bad one
ends. The bad record begins on that line only if no line feed was skipped between the two. -/
theorem invalidValue_line {source : Path} {layout : Layout String} {bytes : List UInt8}
    {line : Nat} {column value : String}
    (h : ofBytes source layout bytes = .error (.invalidValue line column value)) :
    ∃ headers record before skipped rest,
      headerRow (Delimited.records bytes) = .ok headers ∧
      faultOf layout headers record = some (.invalidValue line column value) ∧
      Stands bytes before skipped rest record ∧ line = lineAfter before ∧
      lineAfter (before ++ skipped) = line + skipped.count lineFeed ∧
      (line = lineAfter (before ++ skipped) ↔ lineFeed ∉ skipped) := by
  obtain ⟨headers, header, good, record, later, readable, hrecords, hfault⟩ :=
    exists_record_of_invalidValue h
  obtain ⟨before, skipped, rest, hstands, hline⟩ := Delimited.exists_stands hrecords (by simp)
  have hline : line = lineAfter before := (line_of_faultOf hfault).trans hline
  have hskipped : lineAfter (before ++ skipped) = line + skipped.count lineFeed := by
    rw [Delimited.lineAfter_append, hline]
  refine ⟨headers, record, before, skipped, rest, readable, hfault, hstands, hline, hskipped, ?_⟩
  rw [hskipped, ← List.count_eq_zero]
  omega

theorem invalidValue_line_third :
    let bytes := Text.encode "n,method,time\n10,recursive,0.5\nten,recursive,0.5\n".toList
    ofBytes ⟨"results.csv"⟩ (.long "n" "method" "time" none) bytes =
        .error (.invalidValue 3 "n" "ten") ∧
      ∃ record before skipped rest, Stands bytes before skipped rest record ∧
        3 = lineAfter before ∧ (3 = lineAfter (before ++ skipped) ↔ lineFeed ∉ skipped) := by
  intro bytes
  have h : ofBytes ⟨"results.csv"⟩ (.long "n" "method" "time" none) bytes =
      .error (.invalidValue 3 "n" "ten") := errorOf_eq_some.mp (by decide +kernel)
  obtain ⟨-, record, before, skipped, rest, -, -, hstands, hline, -, hright⟩ := invalidValue_line h
  exact ⟨h, record, before, skipped, rest, hstands, hline, hright⟩

/-- With carriage returns before the line feeds the line is too low: the bad record begins on the
third. -/
theorem invalidValue_line_crlf :
    let before := Text.encode "n,method,time\r\n10,recursive,0.5\r".toList
    let skipped := Text.encode "\n".toList
    let rest := Text.encode "ten,recursive,0.5\r\n".toList
    let record : Delimited.Record :=
      ⟨⟨2, 2, 32⟩, ["ten", "recursive", "0.5"].map fun field => Text.encode field.toList⟩
    ofBytes ⟨"results.csv"⟩ (.long "n" "method" "time" none) (before ++ skipped ++ rest) =
        .error (.invalidValue 2 "n" "ten") ∧
      faultOf (.long "n" "method" "time" none) ["n", "method", "time"] record =
        some (.invalidValue 2 "n" "ten") ∧
      Stands (before ++ skipped ++ rest) before skipped rest record ∧
      lineAfter (before ++ skipped) = 3 := by
  intro before skipped rest record
  refine ⟨errorOf_eq_some.mp (by decide +kernel), by decide +kernel,
    ⟨rfl, ?_, by decide +kernel, ?_, [], ?_, ?_⟩, by decide +kernel⟩
  · exact ⟨Text.encode "n,method,time\r\n10,recursive,0.5".toList, 0x0D, by decide +kernel,
      by decide +kernel, by decide⟩
  · exact ⟨0x74, Text.encode "en,recursive,0.5\r\n".toList, by decide +kernel, by decide⟩
  · decide +kernel
  · decide +kernel

end TimingCharts.Table
