import TimingCharts.Proofs.LoadedTables
import TimingCharts.Proofs.Plans
import TimingCharts.Proofs.SafeRendering

/-!
# Charts of tables with a column for each variant

A file with one timing column for each variant measures every variant at every size it has. So
its chart is complete: all series are there, they share their sizes, and these are the sizes of
the file.
-/

namespace TimingCharts

/-! ## Sizes of a plot -/

namespace Plot

theorem mem_insertSize {size s : UInt64} {l : List UInt64} :
    s ∈ insertSize size l ↔ s = size ∨ s ∈ l := by
  induction l with
  | nil => simp [insertSize]
  | cons a l ih =>
    unfold insertSize
    by_cases hlt : size < a
    · simp [hlt]
    · by_cases heq : size = a
      · simp [heq]
      · simp only [hlt, heq, if_false, List.mem_cons, ih]
        exact or_left_comm

theorem pairwise_insertSize (size : UInt64) {l : List UInt64} (h : l.Pairwise (· < ·)) :
    (insertSize size l).Pairwise (· < ·) := by
  induction l with
  | nil => simp [insertSize]
  | cons a l ih =>
    obtain ⟨ha, hl⟩ := List.pairwise_cons.mp h
    unfold insertSize
    by_cases hlt : size < a
    · rw [if_pos hlt]
      refine List.pairwise_cons.mpr ⟨?_, h⟩
      intro b hb
      rcases List.mem_cons.mp hb with rfl | hb
      · exact hlt
      · exact UInt64.lt_trans hlt (ha b hb)
    · by_cases heq : size = a
      · simpa [heq] using h
      · rw [if_neg hlt, if_neg heq]
        refine List.pairwise_cons.mpr ⟨?_, ih hl⟩
        intro b hb
        rcases mem_insertSize.mp hb with rfl | hb
        · exact UInt64.lt_of_le_of_ne (UInt64.not_lt.mp hlt) (Ne.symm heq)
        · exact ha b hb

theorem foldl_insertSize (l : List UInt64) : ∀ {acc : List UInt64}, acc.Pairwise (· < ·) →
    (l.foldl (fun sizes s => insertSize s sizes) acc).Pairwise (· < ·) ∧
      ∀ s, s ∈ l.foldl (fun sizes s => insertSize s sizes) acc ↔ s ∈ l ∨ s ∈ acc := by
  induction l with
  | nil => intro acc h; simpa using h
  | cons a l ih =>
    intro acc h
    obtain ⟨hp, hm⟩ := ih (pairwise_insertSize a h)
    refine ⟨hp, fun s => ?_⟩
    rw [List.foldl_cons, hm, mem_insertSize, List.mem_cons]
    exact or_left_comm.trans or_assoc.symm

theorem pairwise_sizes (plot : Plot) : plot.sizes.Pairwise (· < ·) :=
  (foldl_insertSize _ List.Pairwise.nil).1

theorem mem_sizes {plot : Plot} {s : UInt64} :
    s ∈ plot.sizes ↔ ∃ p ∈ plot.series, s ∈ p.1.sizes := by
  unfold sizes
  rw [(foldl_insertSize _ List.Pairwise.nil).2]
  simp

end Plot

/-! ## Files -/

namespace Table

def number? (headers : List String) (name : String) (record : Delimited.Record) :
    Option UInt64 := do
  let fields ← (texts record.position (record.fields.map (Text.trimBy isAsciiBlank))).toOption
  readUInt64 (← fields[headers.idxOf name]?).toList

/-- The numbers in a column of a file, one for each record after the header row. -/
def numbers (name : String) (bytes : List UInt8) : List (Option UInt64) :=
  match Delimited.records bytes with
  | [] => []
  | header :: records =>
    match texts header.position header.fields with
    | .ok headers => records.map (number? headers name)
    | .error _ => []

section
variable {size : String} {variants : List String} {threads : Option String}

theorem number?_eq_some {headers : List String} {record : Delimited.Record} {fields : List String}
    {s : UInt64}
    (hf : texts record.position (record.fields.map (Text.trimBy isAsciiBlank)) = .ok fields)
    (hs : (located headers size).readAs readUInt64 fields = .ok s) :
    number? headers size record = some s := by
  rw [readAs_eq_ok, Column.cell, located, List.getD_eq_getElem?_getD] at hs
  unfold number?
  rw [hf]
  cases hc : fields[headers.idxOf size]? with
  | none =>
    -- a cell that is not there is empty, and no number
    rw [hc] at hs
    cases hs
  | some cell =>
    rw [hc] at hs
    simpa [Except.toOption, hc] using hs

theorem readsRow_wide {headers : List String} {record : Delimited.Record}
    {row : List (Sample Float)} (h : ReadsRow (.wide size variants threads) headers record row) :
    ∃ s, number? headers size record = some s ∧ (∀ x ∈ row, x.size = s) ∧
      ∀ v ∈ variants, ∃ x ∈ row, x.variant = v := by
  obtain ⟨fields, hf, hs⟩ := h
  obtain ⟨s, count, hsize, -, hrow⟩ := Layout.samples_wide_eq_ok hs
  refine ⟨s, number?_eq_some hf hsize, ?_, ?_⟩
  · intro x hx
    obtain ⟨v, -, t, -, rfl⟩ := exists_of_mem_forall₂ hrow hx
    rfl
  · intro v hv
    obtain ⟨x, hx, t, -, rfl⟩ := exists_of_mem_forall₂ hrow.flip (List.mem_map_of_mem hv)
    exact ⟨_, hx, rfl⟩

theorem readsRows_wide {headers : List String} {records : List Delimited.Record}
    {rows : List (List (Sample Float))}
    (h : List.Forall₂ (ReadsRow (.wide size variants threads) headers) records rows) :
    ∃ sizes : List UInt64, records.map (number? headers size) = sizes.map some ∧
      ∀ v ∈ variants, ∀ s, (∃ x ∈ rows.flatten, x.variant = v ∧ x.size = s) ↔ s ∈ sizes := by
  induction h with
  | nil => exact ⟨[], rfl, by simp⟩
  | @cons record row records rows hrow _ ih =>
    obtain ⟨s, hs, hsize, hvariants⟩ := readsRow_wide hrow
    obtain ⟨sizes, hsizes, hmem⟩ := ih
    refine ⟨s :: sizes, by simp [hs, hsizes], fun v hv s' => ?_⟩
    rw [List.flatten_cons, List.mem_cons, ← hmem v hv]
    constructor
    · rintro ⟨x, hx, hxv, hxs⟩
      rcases List.mem_append.mp hx with hx | hx
      · exact Or.inl (hxs.symm.trans (hsize x hx))
      · exact Or.inr ⟨x, hx, hxv, hxs⟩
    · rintro (rfl | ⟨x, hx, hxv, hxs⟩)
      · obtain ⟨x, hx, hxv⟩ := hvariants v hv
        exact ⟨x, List.mem_append_left _ hx, hxv, hsize x hx⟩
      · exact ⟨x, List.mem_append_right _ hx, hxv, hxs⟩

theorem loaded_wide {source : Path} {bytes : List UInt8} {table : Table}
    (h : ofBytes source (.wide size variants threads) bytes = .ok table) :
    ∃ sizes : List UInt64, numbers size bytes = sizes.map some ∧ sizes ≠ [] ∧
      ∀ v ∈ variants, ∀ s, (∃ x ∈ table.samples, x.variant = v ∧ x.size = s) ↔ s ∈ sizes := by
  obtain ⟨header, rest, headers, rows, hrecords, hheaders, loaded⟩ :=
    samplesOf_eq_ok (ofBytes_eq_ok h)
  obtain ⟨sizes, hsizes, hmem⟩ := readsRows_wide loaded.read
  rw [loaded.flatten] at hmem
  refine ⟨sizes, ?_, ?_, hmem⟩
  · unfold numbers
    rw [hrecords]
    dsimp only
    rw [hheaders]
    exact hsizes
  · rintro rfl
    -- a file without records has no samples
    have hrest : rest = [] := by simpa using hsizes
    subst hrest
    have hrows : rows = [] := List.forall₂_nil_left_iff.mp loaded.read
    exact loaded.filled (by rw [← loaded.flatten, hrows]; rfl)

end

end Table

/-! ## Plans -/

namespace Benchmark

theorem lines_of_wide {b : Benchmark} (wide : b = .bubbleSort ∨ b = .vectorAddition) :
    ∃ variants threads, b.layout = .wide "Size" variants threads ∧
      ∀ count, (b.lines count).length = 3 ∧
        ∀ line ∈ b.lines count, ∃ v ∈ variants, line.selector = { variant := v } := by
  rcases wide with rfl | rfl
  · refine ⟨_, _, rfl, fun count => ⟨rfl, ?_⟩⟩
    simp [lines]
  · refine ⟨_, _, rfl, fun count => ⟨rfl, ?_⟩⟩
    simp [lines]

theorem Line.mem_rows {line : Line} {v : String} (h : line.selector = { variant := v })
    {samples : List (Sample Float)} {x : Sample Float} :
    x ∈ line.rows samples ↔ x ∈ samples ∧ x.variant = v := by
  unfold rows
  simp [h, Mode.matches, eq_comm]

theorem loaded_of_load {b : Benchmark} {r : Request} {files : Files} {table : Table}
    (h : (b.load r files).1 = .ok table) :
    ∃ content : Content, Table.ofBytes (r.input b) b.layout content.toBytes = .ok table := by
  obtain ⟨content, hc⟩ := read_of_load h
  rw [load_eq, hc] at h
  exact ⟨content, mapError_eq_ok.mp h⟩

theorem render_ne_empty {b : Benchmark} {r : Request} {viewer : Viewer} {files : Files}
    {table : Table} (loaded : (b.load r files).1 = .ok table)
    (filled : (b.plan table).1.series ≠ []) (path : Path) :
    (b.render r viewer files).result ≠ .error (.table path .empty) := by
  have hseries : (b.plot r table).series ≠ [] := filled
  rw [(render_of_loaded viewer loaded).1, (draw_of_series viewer files .standard hseries).2]
  intro h
  split at h <;> cases h

end Benchmark

section
variable {b : Benchmark} (wide : b = .bubbleSort ∨ b = .vectorAddition) {source : Path}
  {bytes : List UInt8} {table : Table} (loaded : Table.ofBytes source b.layout bytes = .ok table)
include wide loaded

theorem sizes_of_wide : ∃ sizes : List UInt64, Table.numbers "Size" bytes = sizes.map some ∧
    sizes ≠ [] ∧ ∀ line ∈ b.lines (b.countText table),
      line.rows table.samples ≠ [] ∧
        (line.drawn (line.rows table.samples)).1.sizes = distinct sizes := by
  obtain ⟨variants, threads, hlayout, hlines⟩ := Benchmark.lines_of_wide wide
  rw [hlayout] at loaded
  obtain ⟨sizes, hnumbers, hfilled, hmem⟩ := Table.loaded_wide loaded
  refine ⟨sizes, hnumbers, hfilled, fun line hl => ?_⟩
  obtain ⟨v, hv, hselector⟩ := (hlines _).2 line hl
  have hsize : ∀ s, s ∈ (line.rows table.samples).map Sample.size ↔ s ∈ sizes := by
    intro s
    rw [← hmem v hv]
    simp [Benchmark.Line.mem_rows hselector, and_assoc]
  constructor
  · intro hnil
    obtain ⟨s, hs⟩ := List.exists_mem_of_ne_nil _ hfilled
    have := (hsize s).mpr hs
    simp [hnil] at this
  · rw [line.sizes_drawn]
    exact distinct_congr hsize

theorem series_of_wide : (b.plan table).1.series ≠ [] := by
  obtain ⟨sizes, -, -, hlines⟩ := sizes_of_wide wide loaded
  obtain ⟨_, _, -, hcount⟩ := Benchmark.lines_of_wide wide
  rw [(Benchmark.plan_of_filled fun line hl => (hlines line hl).1).1]
  intro hnil
  have := (hcount (b.countText table)).1
  simp [List.map_eq_nil_iff.mp hnil] at this

end

/-- The chart of a file with a column for each variant shows all three series, in order and without
a warning. They share their sizes, which are those of the file. -/
theorem wide_charts_complete {b : Benchmark} (wide : b = .bubbleSort ∨ b = .vectorAddition)
    {source : Path} {bytes : List UInt8} {table : Table}
    (loaded : Table.ofBytes source b.layout bytes = .ok table) :
    let plot := (b.plan table).1
    let lines := b.lines (b.countText table)
    lines.length = 3 ∧
      plot.series.map (fun p => (p.1.name, p.2)) = lines.map (fun line => (line.name, line.style)) ∧
      (∀ record ∈ (b.plan table).2, record.level ≠ .warn) ∧
      (∀ p ∈ plot.series, p.1.sizes = plot.sizes) ∧
      plot.sizes.Pairwise (· < ·) ∧
      (∃ sizes : List UInt64, Table.numbers "Size" bytes = sizes.map some ∧
        ∀ s, s ∈ plot.sizes ↔ s ∈ sizes) ∧
      ∀ (r : Request) (viewer : Viewer) (files : Files) (t : Table) (path : Path),
        (b.load r files).1 = .ok t →
          (b.render r viewer files).result ≠ .error (.table path .empty) := by
  intro plot lines
  obtain ⟨_, _, -, hcount⟩ := Benchmark.lines_of_wide wide
  obtain ⟨sizes, hnumbers, -, hlines⟩ := sizes_of_wide wide loaded
  obtain ⟨hseries, note, hnote, hlog⟩ := Benchmark.plan_of_filled fun line hl => (hlines line hl).1
  have hsizes : ∀ p ∈ plot.series, p.1.sizes = distinct sizes := by
    intro p hp
    rw [hseries] at hp
    obtain ⟨line, hl, rfl⟩ := List.mem_map.mp hp
    exact (hlines line hl).2
  have hmem : ∀ s, s ∈ plot.sizes ↔ s ∈ sizes := by
    intro s
    rw [Plot.mem_sizes]
    constructor
    · rintro ⟨p, hp, hs⟩
      rwa [hsizes p hp, mem_distinct] at hs
    · intro hs
      obtain ⟨p, hp⟩ := List.exists_mem_of_ne_nil _ (series_of_wide wide loaded)
      exact ⟨p, hp, by rwa [hsizes p hp, mem_distinct]⟩
  have hplot : plot.sizes = distinct sizes :=
    eq_distinct (plot.pairwise_sizes.imp precedes_iff_lt.mpr) hmem
  refine ⟨(hcount _).1, ?_, ?_, ?_, plot.pairwise_sizes, ⟨sizes, hnumbers, hmem⟩, ?_⟩
  · show (b.plan table).1.series.map _ = _
    rw [hseries, List.map_map]
    rfl
  · intro record hr
    rw [hlog, List.mem_singleton] at hr
    rw [hr, hnote]
    decide
  · intro p hp
    rw [hplot]
    exact hsizes p hp
  · intro r viewer files t path ht
    obtain ⟨content, hc⟩ := Benchmark.loaded_of_load ht
    exact Benchmark.render_ne_empty ht (series_of_wide wide hc) path

def mixedFile : List UInt8 :=
  Text.encode ("Threads,Parallel_Interleaved,note,Size,Sequential,Parallel_Chunked\n" ++
    "8,3,a,20,1,2\n6,3,b,10,1,2\n8,4,c,20,2,2\n").toList

theorem wide_charts_complete_mixed :
    let b := Benchmark.vectorAddition
    ∃ table, Table.ofBytes ⟨"t.csv"⟩ b.layout mixedFile = .ok table ∧
      ((b.plan table).1.series.map fun p => (p.1.name, p.2)) =
        (b.lines (b.countText table)).map (fun line => (line.name, line.style)) ∧
      ∀ s, s ∈ (b.plan table).1.sizes ↔ s = 10 ∨ s = 20 := by
  intro b
  have accepted : (Table.ofBytes ⟨"t.csv"⟩ b.layout mixedFile).isOk = true := by decide +kernel
  have numbers : Table.numbers "Size" mixedFile = [20, 10, 20].map some := by decide +kernel
  cases loaded : Table.ofBytes ⟨"t.csv"⟩ b.layout mixedFile with
  | error fault =>
    rw [loaded] at accepted
    cases accepted
  | ok table =>
    obtain ⟨-, series, -, -, -, ⟨sizes, hsizes, hmem⟩, -⟩ :=
      wide_charts_complete (Or.inr rfl) loaded
    rw [numbers, List.map_inj_right fun _ _ => Option.some.inj] at hsizes
    refine ⟨table, rfl, series, fun s => ?_⟩
    rw [hmem, ← hsizes]
    simp [or_left_comm]

end TimingCharts
