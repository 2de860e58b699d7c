import TimingCharts.Benchmark
import TimingCharts.Proofs.Grouping

/-!
# What a chart shows

A chart is planned by averaging repetitions, selecting the samples of each series and averaging
again by size. `plan_series_eq` says what comes of it in terms of the samples of the file: the
time of a point is the mean, over the thread counts that were measured at its size, of the means
of their samples.
-/

namespace TimingCharts

/-! ## Averages -/

instance : Std.TransOrd Measurement :=
  inferInstanceAs (Std.TransCmp (compareLex (compareOn Measurement.variant)
    (compareLex (compareOn Measurement.threads) (compareOn Measurement.size))))

instance : Std.LawfulEqOrd Measurement where
  eq_of_compare {a b} h := by
    obtain ⟨variant, threads, size⟩ := a
    simp only [compare, Ordering.then_eq_eq] at h
    obtain ⟨hv, ht, hs⟩ := h
    have hv : variant = b.variant := Std.LawfulEqOrd.eq_of_compare hv
    have ht : threads = b.threads := Std.LawfulEqOrd.eq_of_compare ht
    have hs : size = b.size := Std.LawfulEqOrd.eq_of_compare hs
    rw [hv, ht, hs]

theorem precedes_threads (v : String) (s : UInt64) (c c' : Option UInt32) :
    Precedes (⟨v, c, s⟩ : Measurement) ⟨v, c', s⟩ ↔ Precedes c c' := by
  have : compare (⟨v, c, s⟩ : Measurement) ⟨v, c', s⟩ = compare c c' := by
    show (compare v v).then ((compare c c').then (compare s s)) = compare c c'
    rw [Std.ReflOrd.compare_self, Std.ReflOrd.compare_self]
    cases compare c c' <;> rfl
  rw [Precedes, this, Precedes]

theorem precedes_iff_lt {s s' : UInt64} : Precedes s s' ↔ s < s' := by
  show compareOfLessAndEq s s' = .lt ↔ s < s'
  rw [compareOfLessAndEq]
  by_cases h : s < s'
  · simp [h]
  · by_cases h' : s = s' <;> simp [h, h']

section
variable {τ : Type} [Mean τ]

def merged (samples : List (Sample τ)) (m : Measurement) : Sample τ :=
  ⟨m.size, Mean.mean (valuesAt Sample.measurement Sample.time samples m), m.variant, m.threads⟩

theorem measurement_merged (samples : List (Sample τ)) (m : Measurement) :
    (merged samples m).measurement = m := rfl

theorem average_eq (samples : List (Sample τ)) :
    average samples = (distinct (samples.map Sample.measurement)).map (merged samples) := by
  rw [average, group_eq, List.map_map]
  rfl

theorem mem_map_average {β : Type} (f : Measurement → β) (samples : List (Sample τ)) (x : β) :
    x ∈ (average samples).map (f ∘ Sample.measurement) ↔
      x ∈ samples.map (f ∘ Sample.measurement) := by
  simp [average_eq, measurement_merged]

theorem filter_average (p : Measurement → Bool) (samples : List (Sample τ)) :
    (average samples).filter (p ∘ Sample.measurement) =
      average (samples.filter (p ∘ Sample.measurement)) := by
  rw [average_eq, average_eq, List.filter_map]
  have hp : (p ∘ Sample.measurement) ∘ merged samples = p := by
    funext m
    rw [Function.comp, Function.comp, measurement_merged]
  rw [hp, filter_distinct, List.filter_map]
  refine List.map_congr_left fun m hm => ?_
  have hm : p m = true := by
    obtain ⟨s, hs, rfl⟩ := List.mem_map.mp (mem_distinct.mp hm)
    exact (List.mem_filter.mp hs).2
  have hv : valuesAt Sample.measurement Sample.time samples m =
      valuesAt Sample.measurement Sample.time (samples.filter (p ∘ Sample.measurement)) m := by
    rw [valuesAt, valuesAt, List.filter_filter]
    congr 1
    refine List.filter_congr fun s _ => ?_
    by_cases h : s.measurement = m <;> simp [h, hm]
  rw [merged, merged, hv]

theorem average_same {samples : List (Sample τ)} {v : String} {s : UInt64}
    (h : ∀ x ∈ samples, x.variant = v ∧ x.size = s) :
    average samples = (distinct (samples.map Sample.threads)).map fun c =>
      ⟨s, Mean.mean ((samples.filter fun x => x.threads = c).map Sample.time), v, c⟩ := by
  have hm : ∀ x ∈ samples, x.measurement = ⟨v, x.threads, s⟩ := by
    intro x hx
    obtain ⟨rfl, rfl⟩ := h x hx
    rfl
  have hkeys : distinct (samples.map Sample.measurement) =
      (distinct (samples.map Sample.threads)).map fun c => ⟨v, c, s⟩ := by
    refine (eq_distinct (List.pairwise_map.mpr ?_) fun m => ?_).symm
    · exact (distinct_pairwise _).imp fun hc => (precedes_threads v s _ _).mpr hc
    · rw [List.map_congr_left hm]
      simp
  rw [average_eq, hkeys, List.map_map]
  refine List.map_congr_left fun c _ => ?_
  have hv : valuesAt Sample.measurement Sample.time samples ⟨v, c, s⟩ =
      (samples.filter fun x => x.threads = c).map Sample.time := by
    rw [valuesAt]
    congr 1
    refine List.filter_congr fun x hx => ?_
    simp [hm x hx]
  rw [Function.comp, merged, hv]

end

/-! ## Points -/

theorem Selector.matches_iff {τ : Type} (selector : Selector) {v : String}
    (hv : selector.variant = some v) (x : Sample τ) : selector.matches x = true ↔
      x.variant = v ∧ selector.mode.matches x.threads = true := by
  rw [Selector.matches, hv, Option.all_some, Bool.and_eq_true, beq_iff_eq]
  exact and_congr_left' eq_comm

section
variable {τ : Type} [Mean τ]

theorem select_points (name : String) (samples : List (Sample τ)) (selector : Selector) :
    (Series.select name samples selector).points =
      (distinct ((samples.filter selector.matches).map Sample.size)).map fun s =>
        (s, Mean.mean (valuesAt Sample.size Sample.time (samples.filter selector.matches) s)) := by
  rw [Series.select, group_eq, List.map_map]
  rfl

def meansBySize (rows : List (Sample τ)) : List (UInt64 × τ) :=
  (distinct (rows.map Sample.size)).map fun s =>
    (s, Mean.mean ((distinct ((rows.filter (·.size = s)).map Sample.threads)).map fun c =>
      Mean.mean ((rows.filter fun x => x.size = s ∧ x.threads = c).map Sample.time)))

theorem select_average_points (name : String) (samples : List (Sample τ)) {selector : Selector}
    {v : String} (hv : selector.variant = some v) :
    (Series.select name (average samples) selector).points =
      meansBySize (samples.filter selector.matches) := by
  let rows := samples.filter selector.matches
  let chosen : Measurement → Bool := fun m => selector.matches (⟨0, (), m.variant, m.threads⟩)
  have hrows : (average samples).filter selector.matches = average rows :=
    filter_average chosen samples
  have hsizes : distinct ((average rows).map Sample.size) = distinct (rows.map Sample.size) :=
    distinct_congr fun s => mem_map_average Measurement.size rows s
  rw [select_points, hrows, hsizes]
  refine List.map_congr_left fun s _ => ?_
  have hsize : (average rows).filter (fun x => x.size = s) =
      average (rows.filter fun x => x.size = s) :=
    filter_average (fun m => m.size = s) rows
  have hsame : ∀ x ∈ rows.filter (fun x => x.size = s), x.variant = v ∧ x.size = s := by
    intro x hx
    obtain ⟨hx, hs⟩ := List.mem_filter.mp hx
    have := (selector.matches_iff hv x).mp (List.mem_filter.mp hx).2
    exact ⟨this.1, by simpa using hs⟩
  rw [valuesAt, hsize, average_same hsame, List.map_map]
  refine congrArg (fun times => (s, Mean.mean times)) (List.map_congr_left fun c _ => ?_)
  rw [Function.comp, List.filter_filter]
  have hp : (fun x : Sample τ => decide (x.threads = c) && decide (x.size = s)) =
      fun x => decide (x.size = s ∧ x.threads = c) := by
    funext x
    rw [Bool.decide_and, Bool.and_comm]
  rw [hp]

end

/-! ## Plans -/

/-- The samples of a table that belong to a series: those of its variant and mode. -/
def Benchmark.Line.rows (line : Benchmark.Line) (samples : List (Sample Float)) :
    List (Sample Float) :=
  samples.filter fun x => line.selector.variant = some x.variant ∧ line.selector.mode.matches x.threads

def meanTime (rows : List (Sample Float)) (s : UInt64) (c : Option UInt32) : Float :=
  let times := (rows.filter fun x => x.size = s ∧ x.threads = c).map Sample.time
  times.foldl (· + ·) 0 / Float.ofNat times.length

/-- The mean over the thread counts at a size, each counting the same. -/
def plottedTime (rows : List (Sample Float)) (s : UInt64) : Float :=
  let counts := distinct ((rows.filter (·.size = s)).map Sample.threads)
  counts.foldl (fun sum c => sum + meanTime rows s c) 0 / Float.ofNat counts.length

def plottedPoints (rows : List (Sample Float)) : List (UInt64 × Float) :=
  (distinct (rows.map Sample.size)).map fun s => (s, plottedTime rows s)

theorem Benchmark.variant_of_mem_lines {b : Benchmark} {count : String} {line : Benchmark.Line}
    (h : line ∈ b.lines count) : ∃ v, line.selector.variant = some v := by
  cases b <;> simp only [Benchmark.lines, List.mem_cons, List.not_mem_nil, or_false] at h
  case bubbleSort => rcases h with rfl | rfl | rfl <;> exact ⟨_, rfl⟩
  case mergeSort => rcases h with rfl | rfl <;> exact ⟨_, rfl⟩
  case mergeSortThreads => rcases h with rfl | rfl | rfl | rfl <;> exact ⟨_, rfl⟩
  case vectorAddition => rcases h with rfl | rfl | rfl <;> exact ⟨_, rfl⟩

theorem Benchmark.Line.filter_matches (line : Benchmark.Line) {v : String}
    (hv : line.selector.variant = some v) (samples : List (Sample Float)) :
    samples.filter line.selector.matches = line.rows samples := by
  rw [Benchmark.Line.rows]
  refine List.filter_congr fun x _ => ?_
  rw [Bool.eq_iff_iff, line.selector.matches_iff hv, hv, decide_eq_true_eq, Option.some.injEq]
  exact and_congr_left' eq_comm

theorem Benchmark.Line.select_eq (line : Benchmark.Line) {v : String}
    (hv : line.selector.variant = some v) (samples : List (Sample Float)) :
    Series.select line.name (average samples) line.selector =
      ⟨line.name, plottedPoints (line.rows samples)⟩ := by
  have h := select_average_points line.name samples hv
  rw [line.filter_matches hv] at h
  have hp : (Series.select line.name (average samples) line.selector).points =
      plottedPoints (line.rows samples) := by
    rw [h, meansBySize, plottedPoints]
    refine List.map_congr_left fun s _ => ?_
    simp only [Mean.mean, plottedTime, meanTime, List.foldl_map, List.length_map]
  exact congrArg (Series.mk line.name) hp

theorem plottedPoints_sizes (rows : List (Sample Float)) :
    (plottedPoints rows).map Prod.fst = distinct (rows.map Sample.size) := by
  rw [plottedPoints, List.map_map]
  exact List.map_id _

theorem plottedPoints_eq_nil {rows : List (Sample Float)} : plottedPoints rows = [] ↔ rows = [] := by
  rw [plottedPoints, List.map_eq_nil_iff, ← List.length_eq_zero_iff, length_distinct,
    List.length_eq_zero_iff, List.dedup_eq_nil, List.map_eq_nil_iff]

theorem Plot.addAll_eq (plot : Plot) (l : List (Series Float × Style)) :
    plot.addAll l = ({ plot with series := plot.series ++ l.filter (!·.1.isEmpty) },
      (l.filter (·.1.isEmpty)).map fun p => Plot.emptyWarning p.1.name) := by
  induction l generalizing plot with
  | nil => simp [Plot.addAll]
  | cons p rest ih =>
    obtain ⟨series, style⟩ := p
    simp only [Plot.addAll, Plot.addSeries]
    by_cases h : series.isEmpty <;> simp [h, ih]

def Benchmark.Line.drawn (line : Benchmark.Line) (rows : List (Sample Float)) :
    Series Float × Style :=
  (⟨line.name, plottedPoints rows⟩, line.style)

theorem Benchmark.Line.isEmpty_drawn (line : Benchmark.Line) (rows : List (Sample Float)) :
    (line.drawn rows).1.isEmpty = decide (rows = []) := by
  rw [Bool.eq_iff_iff, decide_eq_true_eq, ← plottedPoints_eq_nil]
  exact List.isEmpty_iff

theorem Benchmark.plan_eq (b : Benchmark) (table : Table) : ∃ note : Log.Record,
    note.level = .trace ∧ b.plan table =
      let drawn := (b.lines (b.countText table)).map fun line => line.drawn (line.rows table.samples)
      ({ b.frame (b.countText table) with series := drawn.filter (!·.1.isEmpty) },
        note :: (drawn.filter (·.1.isEmpty)).map fun p => Plot.emptyWarning p.1.name) := by
  have hselect : (b.lines (b.countText table)).map (fun line =>
      (Series.select line.name (average table.samples) line.selector, line.style)) =
      (b.lines (b.countText table)).map fun line => line.drawn (line.rows table.samples) := by
    refine List.map_congr_left fun line hl => ?_
    obtain ⟨v, hv⟩ := Benchmark.variant_of_mem_lines hl
    rw [line.select_eq hv, Benchmark.Line.drawn]
  have hframe : (b.frame (b.countText table)).series = [] := by cases b <;> rfl
  refine ⟨Log.Source.benchmark.record .trace
    s!"{b.name}: {table.samples.length} rows averaged into {(average table.samples).length}",
    rfl, ?_⟩
  rw [Benchmark.plan, hselect, Plot.addAll_eq, hframe]
  rfl

/-- The chart of a table shows, in order, the series that have samples, and warns about the
others in order. Its points are those of the samples of the file: one for each size of the
series, in increasing order, and none for another size. -/
theorem plan_series_eq (b : Benchmark) (table : Table) :
    let lines := b.lines (b.countText table)
    ((b.plan table).1.series =
        (lines.filter fun line => line.rows table.samples ≠ []).map fun line =>
          (⟨line.name, plottedPoints (line.rows table.samples)⟩, line.style)) ∧
      (∃ note : Log.Record, note.level = .trace ∧
        (b.plan table).2 = note :: (lines.filter fun line => line.rows table.samples = []).map
          fun line => Plot.emptyWarning line.name) ∧
      ∀ line ∈ lines,
        ((plottedPoints (line.rows table.samples)).map Prod.fst).Pairwise (· < ·) ∧
        (∀ s, s ∈ (plottedPoints (line.rows table.samples)).map Prod.fst ↔
          s ∈ (line.rows table.samples).map Sample.size) ∧
        (plottedPoints (line.rows table.samples)).length =
          ((line.rows table.samples).map Sample.size).dedup.length := by
  intro lines
  obtain ⟨note, hnote, hplan⟩ := b.plan_eq table
  rw [hplan]
  refine ⟨?_, ⟨note, hnote, ?_⟩, fun line _ => ⟨?_, ?_, ?_⟩⟩
  · simp only [List.filter_map, Function.comp_def, Benchmark.Line.isEmpty_drawn, ← decide_not]
    rfl
  · simp only [List.filter_map, Function.comp_def, Benchmark.Line.isEmpty_drawn, List.map_map]
    rfl
  · rw [plottedPoints_sizes]
    exact (distinct_pairwise _).imp precedes_iff_lt.mp
  · intro s
    rw [plottedPoints_sizes, mem_distinct]
  · rw [← length_distinct, ← plottedPoints_sizes, List.length_map]

end TimingCharts
