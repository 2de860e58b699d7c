import TimingCharts.Proofs.ChartPoints

/-!
# Plans

Facts about the plan of a chart that do not depend on its points: which series it has, what they
are called, which sizes they reach over, and which thread count its texts show.
-/

namespace TimingCharts

/-! ## Thread counts -/

instance lawfulOrderMaxUInt32 : Std.LawfulOrderMax UInt32 where
  max_le_iff a b c := by
    show (if a ≤ b then b else a) ≤ c ↔ _
    split <;> simp only [UInt32.le_iff_toNat_le] at * <;> omega
  max_eq_or a b := by
    show (if a ≤ b then b else a) = a ∨ (if a ≤ b then b else a) = b
    split <;> simp

namespace Table

variable {table table' : Table}

theorem maxThreads_eq_some (filled : table.samples ≠ [])
    (counted : ∀ x ∈ table.samples, ∃ n, x.threads = some n ∧ n ≠ 0) :
    ∃ most, table.maxThreads = some most ∧ (∃ x ∈ table.samples, x.threads = some most) ∧
      ∀ x ∈ table.samples, ∀ c, x.threads = some c → c ≤ most := by
  cases hm : table.maxThreads with
  | none =>
    -- the first sample has a thread count
    obtain ⟨x, rest, hs⟩ := List.exists_cons_of_ne_nil filled
    obtain ⟨n, hn, -⟩ := counted x (by simp [hs])
    unfold maxThreads at hm
    simp [hs, hn] at hm
  | some most =>
    obtain ⟨hmem, hle⟩ := List.max?_eq_some_iff.mp hm
    obtain ⟨x, hx, ht⟩ := List.mem_filterMap.mp hmem
    refine ⟨most, rfl, ⟨x, hx, ht⟩, ?_⟩
    intro y hy c hc
    exact hle c (List.mem_filterMap.mpr ⟨y, hy, hc⟩)

theorem maxThreads_perm (h : table.samples.Perm table'.samples) :
    table.maxThreads = table'.maxThreads := by
  have hp := h.filterMap Sample.threads
  unfold maxThreads
  cases hm : (table.samples.filterMap Sample.threads).max? with
  | none =>
    rw [List.max?_eq_none_iff.mp hm] at hp
    rw [← hp.nil_eq]
    rfl
  | some most =>
    obtain ⟨hmem, hle⟩ := List.max?_eq_some_iff.mp hm
    symm
    apply List.max?_eq_some_iff.mpr
    refine ⟨hp.mem_iff.mp hmem, ?_⟩
    intro c hc
    exact hle c (hp.mem_iff.mpr hc)

end Table

namespace Benchmark

/-! ## Frames -/

theorem plan_frame (b : Benchmark) (table : Table) :
    (b.plan table).1 =
      { b.frame (b.countText table) with series := (b.plan table).1.series } := by
  obtain ⟨note, -, hplan⟩ := b.plan_eq table
  rw [hplan]

theorem caption_plan (b : Benchmark) (table : Table) :
    (b.plan table).1.caption = (b.frame (b.countText table)).caption := by
  rw [plan_frame]

theorem frame_eq (b : Benchmark) (count count' : String) :
    { b.frame count' with caption := (b.frame count).caption } = b.frame count := by
  cases b <;> rfl

theorem countText_mergeSortThreads {table : Table} {most : UInt32}
    (h : table.maxThreads = some most) :
    mergeSortThreads.countText table = toString most.toNat := by
  simp [countText, threads, h]

theorem countText_vectorAddition (table : Table) : vectorAddition.countText table =
    (table.firstThreads.map fun n => toString n.toNat).getD "?" := by
  unfold countText threads
  cases table.firstThreads <;> rfl

theorem countText_perm {b : Benchmark} (h : b ≠ .vectorAddition) {table table' : Table}
    (perm : table.samples.Perm table'.samples) : b.countText table = b.countText table' := by
  cases b with
  | vectorAddition => exact absurd rfl h
  | mergeSortThreads => simp only [countText, threads, Table.maxThreads_perm perm]
  | bubbleSort => rfl
  | mergeSort => rfl

theorem lines_perm (b : Benchmark) {table table' : Table}
    (perm : table.samples.Perm table'.samples) :
    b.lines (b.countText table) = b.lines (b.countText table') := by
  by_cases h : b = .vectorAddition
  · subst h
    rfl
  · rw [countText_perm h perm]

/-! ## Series -/

theorem Line.sizes_drawn (line : Line) (rows : List (Sample Float)) :
    (line.drawn rows).1.sizes = distinct (rows.map Sample.size) :=
  plottedPoints_sizes rows

theorem plan_series (b : Benchmark) (table : Table) :
    (b.plan table).1.series =
      ((b.lines (b.countText table)).filter fun line => line.rows table.samples ≠ []).map
        fun line => line.drawn (line.rows table.samples) := by
  obtain ⟨note, -, hplan⟩ := b.plan_eq table
  rw [hplan]
  simp only [List.filter_map, Function.comp_def, Line.isEmpty_drawn, ← decide_not]

theorem mem_plan_series (b : Benchmark) (table : Table) (p : Series Float × Style) :
    p ∈ (b.plan table).1.series ↔ ∃ line ∈ b.lines (b.countText table),
      line.rows table.samples ≠ [] ∧ line.drawn (line.rows table.samples) = p := by
  simp [plan_series, and_assoc]

theorem plan_series_sublist (b : Benchmark) (table : Table) :
    ((b.plan table).1.series.map fun p => (p.1.name, p.2)).Sublist
      ((b.lines (b.countText table)).map fun line => (line.name, line.style)) := by
  rw [plan_series, List.map_map]
  exact List.filter_sublist.map _

theorem plan_of_filled {b : Benchmark} {table : Table}
    (h : ∀ line ∈ b.lines (b.countText table), line.rows table.samples ≠ []) :
    (b.plan table).1.series = (b.lines (b.countText table)).map
        (fun line => line.drawn (line.rows table.samples)) ∧
      ∃ note : Log.Record, note.level = .trace ∧ (b.plan table).2 = [note] := by
  constructor
  · rw [plan_series, List.filter_eq_self.mpr]
    intro line hl
    simpa using h line hl
  · obtain ⟨note, hnote, hplan⟩ := b.plan_eq table
    refine ⟨note, hnote, ?_⟩
    have hnone : ((b.lines (b.countText table)).map fun line =>
        line.drawn (line.rows table.samples)).filter (·.1.isEmpty) = [] := by
      apply List.filter_eq_nil_iff.mpr
      intro p hp
      obtain ⟨line, hl, rfl⟩ := List.mem_map.mp hp
      rw [line.isEmpty_drawn]
      simpa using h line hl
    rw [hplan]
    simp only [hnone, List.map_nil]

theorem plan_outline (b : Benchmark) (table : Table) :
    (b.plan table).1.series.map (fun p => (p.1.name, p.2, p.1.sizes)) =
      ((b.lines (b.countText table)).filter fun line => line.rows table.samples ≠ []).map
        fun line =>
          (line.name, line.style, distinct ((line.rows table.samples).map Sample.size)) := by
  rw [plan_series, List.map_map]
  simp only [Function.comp_def, Line.sizes_drawn]
  rfl

end Benchmark

end TimingCharts
