import TimingCharts.Proofs.Averages
import TimingCharts.Proofs.LoadedTables

/-!
# Selected series

`Series.select` groups the samples that its selector takes by size, so a series has one point for
each of their sizes (`select_one_point_per_size`). A chart selects from averages. Where the samples
of a size are repetitions of one measurement, averaging first makes no difference
(`select_average_of_repetitions`), and files without a column of thread counts have no others.
-/

namespace TimingCharts

section
variable {τ : Type} [Mean τ]

/-! ## Sizes -/

theorem select_sizes (name : String) (samples : List (Sample τ)) (selector : Selector) :
    (Series.select name samples selector).sizes =
      distinct ((samples.filter selector.matches).map Sample.size) := by
  rw [Series.sizes, select_points, List.map_map]
  exact List.map_id _

theorem filter_matches_average (samples : List (Sample τ)) (selector : Selector) :
    (average samples).filter selector.matches = average (samples.filter selector.matches) := by
  rw [selector.matches_eq, filter_average]

theorem select_average_sizes (name : String) (samples : List (Sample τ)) (selector : Selector) :
    (Series.select name (average samples) selector).sizes =
      (Series.select name samples selector).sizes := by
  rw [select_sizes, select_sizes, filter_matches_average]
  exact distinct_congr fun s => mem_map_average Measurement.size _ s

theorem select_isEmpty_iff (name : String) (samples : List (Sample τ)) (selector : Selector) :
    (Series.select name samples selector).isEmpty = true ↔
      ∀ x ∈ samples, selector.matches x = false := by
  rw [Series.isEmpty, List.isEmpty_iff, select_points, List.map_eq_nil_iff,
    ← List.length_eq_zero_iff, length_distinct, List.length_eq_zero_iff, List.dedup_eq_nil,
    List.map_eq_nil_iff, List.filter_eq_nil_iff]
  simp

theorem time_of_mem_select {name : String} {samples : List (Sample τ)} {selector : Selector}
    {p : UInt64 × τ} (h : p ∈ (Series.select name samples selector).points) :
    p.2 = Mean.mean (((samples.filter selector.matches).filter (·.size = p.1)).map Sample.time) := by
  rw [select_points] at h
  obtain ⟨s, -, rfl⟩ := List.mem_map.mp h
  rfl

/-! ## Sizes whose samples are repetitions -/

theorem average_of_repetitions {samples : List (Sample τ)} {m : Measurement}
    (filled : samples ≠ []) (h : ∀ x ∈ samples, x.measurement = m) :
    average samples = [⟨m.size, Mean.mean (samples.map Sample.time), m.variant, m.threads⟩] := by
  have hkeys : distinct (samples.map Sample.measurement) = [m] := by
    refine (eq_distinct (List.pairwise_singleton _ _) fun k => ?_).symm
    obtain ⟨x, hx⟩ := List.exists_mem_of_ne_nil _ filled
    rw [List.mem_singleton, List.mem_map]
    constructor
    · rintro rfl
      exact ⟨x, hx, h x hx⟩
    · rintro ⟨y, hy, rfl⟩
      exact h y hy
  have hall : valuesAt Sample.measurement Sample.time samples m = samples.map Sample.time := by
    rw [valuesAt, List.filter_eq_self.mpr fun x hx => by simp [h x hx]]
  rw [average_eq, hkeys, List.map_singleton, merged, hall]

theorem select_average_of_alike (name : String) {samples : List (Sample τ)} {selector : Selector}
    (alike : ∀ x ∈ samples, ∀ y ∈ samples, selector.matches x → selector.matches y →
      x.size = y.size → x.variant = y.variant ∧ x.threads = y.threads) :
    (Series.select name (average samples) selector).points =
      (Series.select name samples selector).points.map fun p => (p.1, Mean.mean [p.2]) := by
  let rows := samples.filter selector.matches
  have hsizes : distinct ((average rows).map Sample.size) = distinct (rows.map Sample.size) :=
    distinct_congr fun s => mem_map_average Measurement.size rows s
  rw [select_points, select_points, filter_matches_average, hsizes, List.map_map]
  refine List.map_congr_left fun s hs => ?_
  -- the samples of one size are repetitions of a measurement, that of any of them
  obtain ⟨x, hx, rfl⟩ := List.mem_map.mp (mem_distinct.mp hs)
  have hrepeated : ∀ y ∈ rows.filter (·.size = x.size), y.measurement = x.measurement := by
    intro y hy
    obtain ⟨hy, hsize⟩ := List.mem_filter.mp hy
    obtain ⟨hy, hmy⟩ := List.mem_filter.mp hy
    obtain ⟨hx, hmx⟩ := List.mem_filter.mp hx
    have hsize : y.size = x.size := by simpa using hsize
    obtain ⟨hv, hc⟩ := alike y hy x hx hmy hmx hsize
    rw [Sample.measurement, hv, hc, hsize]
    rfl
  have hfilled : rows.filter (·.size = x.size) ≠ [] :=
    List.ne_nil_of_mem (List.mem_filter.mpr ⟨hx, by simp⟩)
  have hone : (average rows).filter (fun y => y.size = x.size) =
      average (rows.filter fun y => y.size = x.size) :=
    filter_average (fun m => m.size = x.size) rows
  have haverage := average_of_repetitions hfilled hrepeated
  simp only [Function.comp, valuesAt]
  rw [hone, haverage]
  rfl

end

/-- A series has one point for each size among the samples that its selector takes, in increasing
order. Its time is that of the samples of this size added up from zero and divided by their number.
The sizes are the same if the samples are averaged before. -/
theorem select_one_point_per_size (name : String) (samples : List (Sample Float))
    (selector : Selector) :
    let series := Series.select name samples selector
    let taken := samples.filter selector.matches
    series.name = name ∧
      series.sizes.Pairwise (· < ·) ∧
      (∀ s, s ∈ series.sizes ↔ ∃ x ∈ taken, x.size = s) ∧
      (∀ p ∈ series.points,
        p.2 = ((taken.filter (·.size = p.1)).map Sample.time).foldl (· + ·) 0.0 /
          Float.ofNat (taken.filter (·.size = p.1)).length) ∧
      (series.isEmpty ↔ ∀ x ∈ samples, selector.matches x = false) ∧
      (Series.select name (average samples) selector).sizes = series.sizes := by
  intro series taken
  refine ⟨rfl, ?_, ?_, ?_, select_isEmpty_iff name samples selector,
    select_average_sizes name samples selector⟩
  · show (Series.select name samples selector).sizes.Pairwise _
    rw [select_sizes]
    exact (distinct_pairwise _).imp precedes_iff_lt.mp
  · intro s
    show s ∈ (Series.select name samples selector).sizes ↔ _
    rw [select_sizes, mem_distinct, List.mem_map]
  · intro p hp
    have zero : (0 : Float) = 0.0 := rfl
    rw [time_of_mem_select hp, ← zero, ← List.length_map]
    rfl

theorem select_one_point_per_size_threads :
    let samples : List (Sample Float) :=
      [⟨20, 4.0, "a", none⟩, ⟨10, 1.0, "a", some 2⟩, ⟨10, 9.0, "b", none⟩, ⟨10, 2.0, "a", some 4⟩]
    let series := Series.select "A" samples { variant := "a" }
    10 ∈ series.sizes ∧ ∀ t, (10, t) ∈ series.points → t = (0.0 + 1.0 + 2.0) / Float.ofNat 2 := by
  intro samples series
  obtain ⟨-, -, sizes, times, -, -⟩ := select_one_point_per_size "A" samples { variant := "a" }
  refine ⟨(sizes 10).mpr ⟨⟨10, 1.0, "a", some 2⟩, ?_, rfl⟩, fun t ht => times (10, t) ht⟩
  exact List.mem_filter.mpr ⟨List.mem_cons_of_mem _ List.mem_cons_self, rfl⟩

/-! ## Files without thread counts -/

def plainMean (samples : List (Sample Float)) (v : String) (s : UInt64) : Float :=
  let times := (samples.filter fun x => x.variant = v ∧ x.size = s).map Sample.time
  times.foldl (· + ·) 0 / Float.ofNat times.length

section
variable {samples : List (Sample Float)} (uncounted : ∀ x ∈ samples, x.threads = none)
  {selector : Selector} {v : String} (hv : selector.variant = some v)
include uncounted hv

theorem alike_of_uncounted : ∀ x ∈ samples, ∀ y ∈ samples, selector.matches x →
    selector.matches y → x.size = y.size → x.variant = y.variant ∧ x.threads = y.threads := by
  intro x hx y hy hmx hmy _
  obtain ⟨hvx, -⟩ := (selector.matches_iff hv x).mp hmx
  obtain ⟨hvy, -⟩ := (selector.matches_iff hv y).mp hmy
  exact ⟨hvx.trans hvy.symm, (uncounted x hx).trans (uncounted y hy).symm⟩

theorem matches_of_uncounted (taken : ∃ x ∈ samples, selector.matches x = true) {y : Sample Float}
    (hy : y ∈ samples) : selector.matches y = true ↔ y.variant = v := by
  obtain ⟨x, hx, hm⟩ := taken
  rw [selector.matches_iff hv, uncounted x hx] at hm
  rw [selector.matches_iff hv, uncounted y hy]
  exact and_iff_left hm.2

theorem time_of_uncounted {name : String} {p : UInt64 × Float}
    (hp : p ∈ (Series.select name (average samples) selector).points) :
    SameNumber p.2 (plainMean samples v p.1) := by
  rw [select_average_of_alike name (alike_of_uncounted uncounted hv)] at hp
  obtain ⟨q, hq, rfl⟩ := List.mem_map.mp hp
  have taken : ∃ x ∈ samples, selector.matches x = true := by
    have hs : q.1 ∈ (Series.select name samples selector).sizes := List.mem_map_of_mem hq
    rw [select_sizes, mem_distinct] at hs
    obtain ⟨x, hx, -⟩ := List.mem_map.mp hs
    exact ⟨x, (List.mem_filter.mp hx).1, (List.mem_filter.mp hx).2⟩
  have hrows : (samples.filter selector.matches).filter (·.size = q.1) =
      samples.filter fun x => x.variant = v ∧ x.size = q.1 := by
    rw [List.filter_filter]
    apply List.filter_congr
    intro x hx
    rw [Bool.eq_iff_iff, Bool.and_eq_true, matches_of_uncounted uncounted hv taken hx,
      decide_eq_true_eq, decide_eq_true_eq]
    exact and_comm
  have htime : q.2 = plainMean samples v q.1 := by
    rw [time_of_mem_select hq, hrows]
    rfl
  show SameNumber (Mean.mean [q.2]) _
  rw [mean_singleton, ← htime]
  exact sameNumber_zero_add q.2

end

/-- If the samples that a selector takes are, size by size, repetitions of one measurement, the
series is the same with and without averaging before. So are the series of a file without thread
counts: each time of a chart is the mean of all times of its variant at its size. -/
theorem select_average_of_repetitions :
    (∀ (name : String) (samples : List (Sample Float)) (selector : Selector),
      (∀ x ∈ samples, ∀ y ∈ samples, selector.matches x → selector.matches y →
        x.size = y.size → x.variant = y.variant ∧ x.threads = y.threads) →
      (Series.select name (average samples) selector).name =
          (Series.select name samples selector).name ∧
        List.Forall₂ (fun p q => p.1 = q.1 ∧ SameNumber p.2 q.2)
          (Series.select name (average samples) selector).points
          (Series.select name samples selector).points) ∧
      ∀ (source : Path) (layout : Layout String) (bytes : List UInt8) (table : Table),
        layout.threads = none → Table.ofBytes source layout bytes = .ok table →
        ∀ (b : Benchmark), ∀ p ∈ (b.plan table).1.series,
          ∃ line ∈ b.lines (b.countText table), ∃ v, line.selector.variant = some v ∧
            p.1.name = line.name ∧ p.2 = line.style ∧
            ∀ point ∈ p.1.points, SameNumber point.2 (plainMean table.samples v point.1) := by
  constructor
  · intro name samples selector alike
    refine ⟨rfl, ?_⟩
    rw [select_average_of_alike name alike, List.forall₂_map_left_iff, List.forall₂_same]
    intro p _
    rw [mean_singleton]
    exact ⟨rfl, sameNumber_zero_add p.2⟩
  · intro source layout bytes table hlayout loaded b p hp
    have uncounted : ∀ x ∈ table.samples, x.threads = none := by
      intro x hx
      have := Table.countOf_of_loaded loaded x hx
      rwa [Layout.CountOf, hlayout] at this
    obtain ⟨line, hl, -, rfl⟩ := (b.mem_plan_series table p).mp hp
    obtain ⟨v, hv⟩ := Benchmark.variant_of_mem_lines hl
    refine ⟨line, hl, v, hv, rfl, rfl, ?_⟩
    intro point hpoint
    rw [Benchmark.Line.drawn, ← line.select_eq hv] at hpoint
    exact time_of_uncounted uncounted hv hpoint

def repeatedFile : List UInt8 :=
  Text.encode "n,method,time\n10,recursive,1\n20,recursive,5\n10,recursive,2\n".toList

theorem select_average_of_repetitions_two_runs :
    let samples : List (Sample Float) :=
      [⟨10, 1.0, "a", some 2⟩, ⟨20, -0.0, "b", none⟩, ⟨10, 2.0, "a", some 2⟩]
    let b := Benchmark.mergeSort
    List.Forall₂ (fun p q => p.1 = q.1 ∧ SameNumber p.2 q.2)
        (Series.select "all" (average samples) {}).points
        (Series.select "all" samples {}).points ∧
      b.layout.threads = none ∧
      ∃ table, Table.ofBytes ⟨"r.csv"⟩ b.layout repeatedFile = .ok table ∧
        ∀ p ∈ (b.plan table).1.series, ∃ line ∈ b.lines (b.countText table),
          ∃ v, line.selector.variant = some v ∧ p.1.name = line.name ∧ p.2 = line.style ∧
            ∀ point ∈ p.1.points, SameNumber point.2 (plainMean table.samples v point.1) := by
  intro samples b
  obtain ⟨selected, charted⟩ := select_average_of_repetitions
  have accepted : (Table.ofBytes ⟨"r.csv"⟩ b.layout repeatedFile).isOk = true := by decide +kernel
  refine ⟨(selected "all" samples {} (by decide)).2, rfl, ?_⟩
  cases loaded : Table.ofBytes ⟨"r.csv"⟩ b.layout repeatedFile with
  | error fault =>
    rw [loaded] at accepted
    cases accepted
  | ok table => exact ⟨table, rfl, charted _ _ _ table rfl loaded b⟩

end TimingCharts
