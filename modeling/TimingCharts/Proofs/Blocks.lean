import TimingCharts.Proofs.RecordPositions

/-!
# Files in blocks of lines

A text that ends in a line feed outside quotes leaves the machine between records, so what follows
is read as if it stood alone. Hence the samples of a file are those of its blocks, one after the
other, and a fault in one block is the fault of every file that goes on after it:
`ofBytes_blocks`.
-/

namespace TimingCharts.Delimited

namespace Scanner

theorem stage_step {s : Scanner} {b : UInt8} (hb : isTerminator b = true) (hs : s.stage ≠ .quoted) :
    (s.step b).1.stage = .between := by
  have hcomma := ne_comma_of_terminator hb
  have hquote := ne_quote_of_terminator hb
  have hc : (s.count b).stage = s.stage := rfl
  unfold step
  dsimp only
  rw [hc]
  cases h : s.stage with
  | quoted => exact absurd h hs
  | between => simp [hb, hc, h]
  | _ => simp [outside, hcomma, hquote, hb, endRecord]

/-- Between records nothing is left of the record before. -/
def Clean (s : Scanner) : Prop := s.stage = .between → s.Similar {}

theorem Clean.step {s : Scanner} (h : s.Clean) (b : UInt8) : (s.step b).1.Clean := by
  intro hb
  rcases s.step_cases b with ⟨t, ht, hc⟩ | ⟨-, -, ht⟩
  · rw [ht] at hb ⊢
    obtain ⟨hstage, hfields, hfield⟩ := hc.between hb
    obtain ⟨-, hfs, hf⟩ := h hstage
    exact ⟨hb, hfields.trans hfs, hfield.trans hf⟩
  · rw [ht]
    exact ⟨rfl, rfl, rfl⟩

theorem Clean.after {s : Scanner} (h : s.Clean) (bytes : List UInt8) : (s.after bytes).Clean := by
  induction bytes generalizing s with
  | nil => exact h
  | cons b bytes ih => exact ih (h.step b)

theorem Similar.after {s t : Scanner} (h : s.Similar t) (bytes : List UInt8) :
    (s.after bytes).Similar (t.after bytes) := by
  induction bytes generalizing s t with
  | nil => exact h
  | cons b bytes ih => exact ih (h.step b).1

theorem similar_of_lineFeed {s : Scanner} (hs : s.Similar {}) {front : List UInt8}
    (h : (s.after front).stage ≠ .quoted) : (s.after (front ++ [lineFeed])).Similar {} := by
  have clean : s.Clean := fun _ => hs
  apply clean.after
  rw [after_append]
  exact stage_step rfl h

theorem run_of_between {s : Scanner} {bytes : List UInt8} (h : (s.after bytes).stage = .between) :
    s.run bytes = s.found bytes := by
  have := s.run_append bytes []
  rwa [List.append_nil, run, if_pos h, List.append_nil] at this

end Scanner

/-! ## Blocks -/

/-- Complete records: nothing, or a text that ends in a line feed outside quotes. -/
def Block (bytes : List UInt8) : Prop :=
  bytes = [] ∨ ∃ front, bytes = front ++ [lineFeed] ∧ (Scanner.after {} front).stage ≠ .quoted

/-- One record, perhaps behind a byte order mark, that ends in a line feed outside quotes. -/
structure HeaderLine (bytes : List UInt8) : Prop where
  one : ∃ header, records bytes = [header]
  ended : ∃ front, bytes = front ++ [lineFeed] ∧ (stateAfter front).stage ≠ .quoted

theorem opening_terminator (front : List UInt8) {b : UInt8} (hb : isTerminator b = true)
    (more : List UInt8) :
    opening (front ++ b :: more) = ((opening front).1, (opening front).2 ++ b :: more) := by
  by_cases hm : mark <+: front
  · obtain ⟨rest, rfl⟩ := hm
    rfl
  · have hb' : b ∉ mark := by
      intro h
      have : ∀ b ∈ mark, isTerminator b = false := by
        simp [mark, isTerminator, lineFeed, carriageReturn]
      simp [this b h] at hb
    have hm' : ¬ mark <+: front ++ b :: more := by
      intro h
      rw [List.append_cons] at h
      rcases List.prefix_or_prefix_of_prefix h (List.prefix_append ..) with h | h
      · rcases List.prefix_concat_iff.mp h with h | h
        · exact hb' (by simp [h])
        · exact hm h
      · exact hb' (h.subset (by simp))
    rw [opening_unmarked hm, opening_unmarked hm']

theorem opening_similar (bytes : List UInt8) : (opening bytes).1.Similar {} := by
  by_cases hm : mark <+: bytes
  · obtain ⟨rest, rfl⟩ := hm
    exact ⟨rfl, rfl, rfl⟩
  · rw [opening_unmarked hm]
    exact ⟨rfl, rfl, rfl⟩

/-- Below a header line the machine reads a text as it does at the front. -/
theorem HeaderLine.records_append {bytes : List UInt8} (h : HeaderLine bytes) :
    ∃ (header : Record) (s : Scanner), s.Similar {} ∧
      ∀ more, records (bytes ++ more) = header :: s.run more := by
  obtain ⟨⟨header, hone⟩, front, rfl, hq⟩ := h
  have idle := Scanner.similar_of_lineFeed (opening_similar front) hq
  have hrun (more : List UInt8) : records (front ++ [lineFeed] ++ more) =
      (opening front).1.found ((opening front).2 ++ [lineFeed]) ++
        ((opening front).1.after ((opening front).2 ++ [lineFeed])).run more := by
    rw [← Scanner.run_append, List.append_assoc, List.append_assoc, records_eq,
      List.singleton_append, opening_terminator front rfl]
  refine ⟨header, _, idle, fun more => ?_⟩
  have hfound := hrun []
  rw [List.append_nil, hone, Scanner.run, if_pos idle.1, List.append_nil] at hfound
  rw [hrun, ← hfound]
  rfl

theorem Block.similar_after {a : List UInt8} (h : Block a) {s : Scanner} (hs : s.Similar {}) :
    (s.after a).Similar {} := by
  rcases h with rfl | ⟨front, rfl, hq⟩
  · exact hs
  · apply Scanner.similar_of_lineFeed hs
    rwa [(hs.after front).1]

end TimingCharts.Delimited

namespace TimingCharts.Table

/-! ## Records at other positions -/

section
variable {columns : Layout Column} {width : Nat}

theorem texts_go_moved {p : Delimited.Position} {index : Nat} {fields : List (List UInt8)}
    {cells : List String} (h : texts.go p index fields = .ok cells) (q : Delimited.Position) :
    texts.go q index fields = .ok cells := by
  induction fields generalizing index cells with
  | nil => exact h
  | cons field fields ih =>
    rw [texts.go] at h ⊢
    cases hd : Text.decode field with
    | error byte => simp [hd] at h
    | ok text =>
      simp only [hd, bind_eq_ok] at h ⊢
      obtain ⟨rest, hr, h⟩ := h
      exact ⟨rest, ih hr, h⟩

theorem recordSamples_moved {p : Delimited.Position} {fields : List (List UInt8)}
    {row : List (Sample Float)} (h : recordSamples columns width ⟨p, fields⟩ = .ok row)
    (q : Delimited.Position) : recordSamples columns width ⟨q, fields⟩ = .ok row := by
  unfold recordSamples at h ⊢
  by_cases hw : fields.length = width
  · rw [if_neg (not_not.mpr hw), bind_eq_ok] at h ⊢
    obtain ⟨cells, ht, h⟩ := h
    refine ⟨cells, texts_go_moved ht q, ?_⟩
    cases hs : columns.samples cells with
    | error cell => simp [hs] at h
    | ok samples => simpa [hs] using h
  · rw [if_pos hw] at h
    cases h

theorem mapM_recordSamples_moved {records moved : List Delimited.Record}
    {rows : List (List (Sample Float))} (h : records.mapM (recordSamples columns width) = .ok rows)
    (hm : moved.map Delimited.Record.fields = records.map Delimited.Record.fields) :
    moved.mapM (recordSamples columns width) = .ok rows := by
  have anywhere (records : List Delimited.Record) :
      records.mapM (recordSamples columns width) = .ok rows ↔
        List.Forall₂ (fun fields row => recordSamples columns width ⟨{}, fields⟩ = .ok row)
          (records.map Delimited.Record.fields) rows := by
    rw [mapM_eq_ok, List.forall₂_map_left_iff]
    constructor
    · exact fun h => h.imp fun _ _ hr => recordSamples_moved hr _
    · exact fun h => h.imp fun _ _ hr => recordSamples_moved hr _
  rw [anywhere, hm]
  exact (anywhere records).mp h

end

/-! ## Tables -/

section
variable {layout : Layout String} {header : Delimited.Record} {a b : List Delimited.Record}

theorem filled_eq_ok {samples xs : List (Sample Float)} :
    (do if samples.isEmpty then throw .empty
        return samples : Except Fault (List (Sample Float))) = .ok xs ↔ samples = xs ∧ xs ≠ [] := by
  cases samples with
  | nil => simp [bind, Except.bind, throw, throwThe, MonadExceptOf.throw, eq_comm]
  | cons sample samples =>
    simp only [List.isEmpty_cons, Bool.false_eq_true, if_false, pure_eq_ok]
    exact ⟨fun h => ⟨h, h ▸ List.cons_ne_nil _ _⟩, And.left⟩

theorem samplesOf_append {b' : List Delimited.Record} {xs ys : List (Sample Float)}
    (ha : samplesOf layout (header :: a) = .ok xs) (hb : samplesOf layout (header :: b) = .ok ys)
    (hm : b'.map Delimited.Record.fields = b.map Delimited.Record.fields) :
    samplesOf layout (header :: (a ++ b')) = .ok (xs ++ ys) := by
  simp only [samplesOf, bind_eq_ok] at ha hb ⊢
  obtain ⟨headers, hh, columns, hc, rows, hr, ha⟩ := ha
  obtain ⟨headers', hh', columns', hc', rows', hr', hb⟩ := hb
  cases hh.symm.trans hh'
  cases hc.symm.trans hc'
  refine ⟨headers, hh, columns, hc, rows ++ rows', ?_, ?_⟩
  · rw [List.mapM_append, hr, mapM_recordSamples_moved hr' hm]
    rfl
  · obtain ⟨rfl, he⟩ := filled_eq_ok.mp ha
    obtain ⟨rfl, -⟩ := filled_eq_ok.mp hb
    refine filled_eq_ok.mpr ⟨List.flatten_append, ?_⟩
    exact List.append_ne_nil_of_left_ne_nil he _

theorem samplesOf_append_of_error {fault : Fault}
    (h : samplesOf layout (header :: a) = .error fault) (he : fault ≠ .empty) :
    samplesOf layout (header :: (a ++ b)) = .error fault := by
  cases readable : headerRow (header :: a) with
  | error cause =>
    rw [samplesOf_of_unreadable readable] at h
    rw [← h]
    exact samplesOf_of_unreadable readable
  | ok headers =>
    have readable' : headerRow (header :: (a ++ b)) = .ok headers := readable
    cases missing : layout.names.find? (· ∉ headers) with
    | some name =>
      rw [samplesOf_of_missing readable missing] at h
      rw [samplesOf_of_missing readable' missing, h]
    | none =>
      have found : ∀ name ∈ layout.names, name ∈ headers := by simpa using missing
      cases hf : a.findSome? (faultOf layout headers) with
      | some first =>
        rw [samplesOf_of_fault readable found hf] at h
        rw [← h]
        refine samplesOf_of_fault readable' found ?_
        rw [List.tail_cons, List.findSome?_append, hf]
        rfl
      | none =>
        obtain ⟨rows, -, hs⟩ := samplesOf_of_sound readable found hf
        rw [hs] at h
        split at h
        · cases h
          exact absurd rfl he
        · cases h

end

/-- Below one header line the samples of two blocks are those of the first and then those of the
second, and a fault in the first is the fault of both together. -/
theorem ofBytes_blocks (source : Path) (layout : Layout String) {header a : List UInt8}
    (hh : Delimited.HeaderLine header) (ha : Delimited.Block a) :
    (∀ b ta tb, ofBytes source layout (header ++ a) = .ok ta →
      ofBytes source layout (header ++ b) = .ok tb →
      ofBytes source layout (header ++ a ++ b) = .ok ⟨source, ta.samples ++ tb.samples⟩) ∧
    ∀ fault, ofBytes source layout (header ++ a) = .error fault → fault ≠ .empty →
      ∀ b, ofBytes source layout (header ++ a ++ b) = .error fault := by
  obtain ⟨top, s, hs, hrecords⟩ := hh.records_append
  have idle := ha.similar_after hs
  have hrun (b : List UInt8) : Delimited.records (header ++ a ++ b) =
      top :: (s.run a ++ (s.after a).run b) := by
    rw [List.append_assoc, hrecords, Delimited.Scanner.run_append,
      Delimited.Scanner.run_of_between idle.1]
  constructor
  · intro b ta tb hta htb
    replace hta := ofBytes_eq_ok hta
    replace htb := ofBytes_eq_ok htb
    rw [hrecords] at hta htb
    have moved := (idle.run b).trans (hs.run b).symm
    rw [ofBytes, hrun, samplesOf_append hta htb moved]
    rfl
  · intro fault h he b
    rw [ofBytes_eq_error, hrecords] at h
    rw [ofBytes_eq_error, hrun]
    exact samplesOf_append_of_error h he

theorem ofBytes_blocks_quoted :
    let header := Text.encode "\uFEFFn,method,time\n".toList
    let a := Text.encode "1,\"a\nb\",0.5\n\n".toList
    let bad := Text.encode "1,\"a\nb\",half\n\n".toList
    let b := Text.encode "2,c,1.5\r\n3,d,2".toList
    let load := ofBytes ⟨"t.csv"⟩ (.long "n" "method" "time" none)
    Delimited.HeaderLine header ∧ Delimited.Block a ∧ Delimited.Block bad ∧
      (∃ ta tb, load (header ++ a) = .ok ta ∧ load (header ++ b) = .ok tb ∧
        load (header ++ a ++ b) = .ok ⟨⟨"t.csv"⟩, ta.samples ++ tb.samples⟩) ∧
      load (header ++ bad) = .error (.invalidValue 2 "time" "half") ∧
      load (header ++ bad ++ b) = .error (.invalidValue 2 "time" "half") := by
  intro header a bad b load
  have hh : Delimited.HeaderLine header := by
    refine ⟨⟨⟨{}, ["n", "method", "time"].map fun name => Text.encode name.toList⟩, ?_⟩,
      Text.encode "\uFEFFn,method,time".toList, ?_, ?_⟩ <;> decide +kernel
  have ha : Delimited.Block a := by
    refine .inr ⟨Text.encode "1,\"a\nb\",0.5\n".toList, ?_, ?_⟩ <;> decide +kernel
  have hbad : Delimited.Block bad := by
    refine .inr ⟨Text.encode "1,\"a\nb\",half\n".toList, ?_, ?_⟩ <;> decide +kernel
  have hfault : load (header ++ bad) = .error (.invalidValue 2 "time" "half") :=
    errorOf_eq_some.mp (by decide +kernel)
  obtain ⟨ta, hta⟩ : ∃ ta, load (header ++ a) = .ok ta := errorOf_eq_none.mp (by decide +kernel)
  obtain ⟨tb, htb⟩ : ∃ tb, load (header ++ b) = .ok tb := errorOf_eq_none.mp (by decide +kernel)
  refine ⟨hh, ha, hbad, ⟨ta, tb, hta, htb, ?_⟩, hfault, ?_⟩
  · exact (ofBytes_blocks _ _ hh ha).1 b ta tb hta htb
  · exact (ofBytes_blocks _ _ hh hbad).2 _ hfault nofun b

end TimingCharts.Table
