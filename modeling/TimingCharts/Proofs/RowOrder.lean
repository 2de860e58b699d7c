import Mathlib.Algebra.Group.Basic
import Mathlib.Data.List.Perm.Basic
import TimingCharts.Proofs.Plans

/-!
# The order of the samples

A chart does not depend on the order of the samples of its table. What it shows besides times
depends on which samples there are; the times depend on the order only within the repetitions of
one measurement, and not at all if additions are exact.
-/

namespace TimingCharts

/-! ## Averages -/

section
variable {τ : Type} [Mean τ] {l l' : List (Sample τ)}

theorem average_congr (keys : ∀ m, m ∈ l.map Sample.measurement ↔ m ∈ l'.map Sample.measurement)
    (means : ∀ m, Mean.mean (valuesAt Sample.measurement Sample.time l m) =
      Mean.mean (valuesAt Sample.measurement Sample.time l' m)) : average l = average l' := by
  rw [average_eq, average_eq, distinct_congr keys]
  apply List.map_congr_left
  intro m _
  unfold merged
  rw [means]

theorem average_of_stable (h : l.Perm l')
    (stable : ∀ m, l.filter (·.measurement = m) = l'.filter (·.measurement = m)) :
    average l = average l' := by
  apply average_congr
  · intro m
    exact (h.map _).mem_iff
  · intro m
    unfold valuesAt
    rw [stable]

end

@[reducible] def Mean.ofSum {τ : Type} [Zero τ] [Add τ] (divide : τ → Nat → τ) : Mean τ :=
  ⟨fun times => divide (times.foldl (· + ·) 0) times.length⟩

theorem average_of_exact {τ : Type} [AddCommMonoid τ] (divide : τ → Nat → τ)
    {l l' : List (Sample τ)} (h : l.Perm l') :
    @average τ (Mean.ofSum divide) l = @average τ (Mean.ofSum divide) l' := by
  let _ := Mean.ofSum divide
  have hcomm : RightCommutative fun x y : τ => x + y := ⟨add_right_comm⟩
  apply average_congr
  · intro m
    exact (h.map _).mem_iff
  · intro m
    have hv : (valuesAt Sample.measurement Sample.time l m).Perm
        (valuesAt Sample.measurement Sample.time l' m) := (h.filter _).map _
    show divide _ _ = divide _ _
    rw [hv.foldl_eq, hv.length_eq]

/-! ## Charts -/

def Sample.mapTime {τ σ : Type} (f : τ → σ) (x : Sample τ) : Sample σ :=
  ⟨x.size, f x.time, x.variant, x.threads⟩

namespace Benchmark

/-- The series of a chart, for times of any type that has means. -/
def charted {τ : Type} [Mean τ] (b : Benchmark) (count : String) (samples : List (Sample τ)) :
    List (Series τ × Style) :=
  ((b.lines count).map fun line =>
    (Series.select line.name (average samples) line.selector, line.style)).filter (!·.1.isEmpty)

theorem mean_eq_ofSum : instMeanFloat = Mean.ofSum fun sum n => sum / Float.ofNat n := rfl

theorem plan_eq_charted (b : Benchmark) (table : Table) :
    (b.plan table).1.series = b.charted (b.countText table) table.samples := by
  have hframe : (b.frame (b.countText table)).series = [] := by cases b <;> rfl
  rw [plan, Plot.addAll_eq, hframe]
  rfl

theorem charted_congr {τ : Type} [Mean τ] {b : Benchmark} {count count' : String}
    {samples samples' : List (Sample τ)} (hlines : b.lines count = b.lines count')
    (haverage : average samples = average samples') :
    b.charted count samples = b.charted count' samples' := by
  unfold charted
  rw [hlines, haverage]

theorem plan_frame_perm (b : Benchmark) (table table' : Table) :
    { (b.plan table').1 with
      caption := (b.plan table).1.caption, series := (b.plan table).1.series } =
        (b.plan table).1 := by
  have hframe := b.frame_eq (b.countText table) (b.countText table')
  rw [b.plan_frame table', b.caption_plan]
  conv_rhs => rw [b.plan_frame table, ← hframe]

theorem outline_perm (b : Benchmark) {table table' : Table}
    (perm : table.samples.Perm table'.samples) :
    (b.plan table).1.series.map (fun p => (p.1.name, p.2, p.1.sizes)) =
      (b.plan table').1.series.map fun p => (p.1.name, p.2, p.1.sizes) := by
  have hrows : ∀ line : Line, (line.rows table.samples).Perm (line.rows table'.samples) :=
    fun line => perm.filter _
  have hsizes : ∀ line : Line, distinct ((line.rows table.samples).map Sample.size) =
      distinct ((line.rows table'.samples).map Sample.size) := by
    intro line
    apply distinct_congr
    intro s
    exact ((hrows line).map _).mem_iff
  have hnil : ∀ line : Line, line.rows table.samples = [] ↔ line.rows table'.samples = [] := by
    intro line
    constructor
    · intro h
      exact (h ▸ hrows line).nil_eq.symm
    · intro h
      exact (h ▸ hrows line).eq_nil
  simp only [plan_outline, lines_perm b perm, hsizes, ne_eq, hnil]

end Benchmark

theorem Plot.sizes_congr {plot plot' : Plot}
    (h : plot.series.map (fun p => (p.1.name, p.2, p.1.sizes)) =
      plot'.series.map fun p => (p.1.name, p.2, p.1.sizes)) : plot.sizes = plot'.sizes := by
  have hflat : ∀ q : Plot, q.series.flatMap (·.1.sizes) =
      (q.series.map fun p => (p.1.name, p.2, p.1.sizes)).flatMap (·.2.2) := by
    intro q
    rw [List.flatMap_map]
  unfold Plot.sizes
  rw [hflat, hflat, h]

/-- The order of the samples does not matter to a chart. Two tables with the same samples have
charts that differ at most in their times, and in the thread count of the caption if that is the
first of the file. The times agree if repetitions come in the same order, and always if they are
added exactly. -/
theorem plan_of_reordered (b : Benchmark) {table table' : Table}
    (perm : table.samples.Perm table'.samples) :
    let plot := (b.plan table).1
    let plot' := (b.plan table').1
    { plot' with caption := plot.caption, series := plot.series } = plot ∧
      plot.series.map (fun p => (p.1.name, p.2, p.1.sizes)) =
        plot'.series.map (fun p => (p.1.name, p.2, p.1.sizes)) ∧
      plot.sizes = plot'.sizes ∧
      (b ≠ .vectorAddition → plot.caption = plot'.caption) ∧
      (b = .vectorAddition → plot.caption = "Vector Addition Performance (" ++
        (table.firstThreads.map fun n => toString n.toNat).getD "?" ++ " Threads)") ∧
      ((∀ m, table.samples.filter (·.measurement = m) =
        table'.samples.filter (·.measurement = m)) → plot.series = plot'.series) ∧
      plot.series = @Benchmark.charted Float (Mean.ofSum fun sum n => sum / Float.ofNat n) b
        (b.countText table) table.samples ∧
      ∀ (τ : Type) [AddCommMonoid τ] (divide : τ → Nat → τ) (value : Float → τ),
        @Benchmark.charted τ (Mean.ofSum divide) b (b.countText table)
            (table.samples.map (·.mapTime value)) =
          @Benchmark.charted τ (Mean.ofSum divide) b (b.countText table')
            (table'.samples.map (·.mapTime value)) := by
  intro plot plot'
  have houtline := b.outline_perm perm
  refine ⟨b.plan_frame_perm table table', houtline, Plot.sizes_congr houtline, ?_, ?_, ?_, ?_, ?_⟩
  · intro h
    show (b.plan table).1.caption = (b.plan table').1.caption
    rw [b.caption_plan, b.caption_plan, Benchmark.countText_perm h perm]
  · rintro rfl
    show (Benchmark.vectorAddition.plan table).1.caption = _
    rw [Benchmark.caption_plan, Benchmark.countText_vectorAddition]
    rfl
  · intro stable
    show (b.plan table).1.series = (b.plan table').1.series
    rw [b.plan_eq_charted, b.plan_eq_charted]
    exact Benchmark.charted_congr (b.lines_perm perm) (average_of_stable perm stable)
  · rw [← Benchmark.mean_eq_ofSum]
    exact b.plan_eq_charted table
  · intro τ _ divide value
    exact @Benchmark.charted_congr τ (Mean.ofSum divide) _ _ _ _ _ (b.lines_perm perm)
      (average_of_exact divide (perm.map _))

theorem plan_of_reordered_repetitions :
    let first : Sample Float := ⟨10, 1, "recursive", some 4⟩
    let again : Sample Float := ⟨10, 2, "recursive", some 4⟩
    let other : Sample Float := ⟨10, 3, "iterative", some 1⟩
    let table : Table := ⟨⟨"a.csv"⟩, [first, other, again]⟩
    let table' : Table := ⟨⟨"b.csv"⟩, [first, again, other]⟩
    let b := Benchmark.mergeSortThreads
    table.samples.Perm table'.samples ∧
      (∀ m, table.samples.filter (·.measurement = m) =
        table'.samples.filter (·.measurement = m)) ∧
      (b.plan table).1.series = (b.plan table').1.series ∧
      (b.plan table).1.caption = (b.plan table').1.caption := by
  intro first again other table table' b
  have perm : table.samples.Perm table'.samples := (List.Perm.swap again other []).cons first
  have stable : ∀ m, table.samples.filter (·.measurement = m) =
      table'.samples.filter (·.measurement = m) := by
    intro m
    show [first, other, again].filter _ = [first, again, other].filter _
    have hagain : again.measurement ≠ other.measurement := by decide
    by_cases h : other.measurement = m
    · subst h
      simp [List.filter_cons, hagain]
    · simp [List.filter_cons, h]
  obtain ⟨-, -, -, caption, -, series, -, -⟩ := plan_of_reordered b perm
  exact ⟨perm, stable, series stable, caption (by decide)⟩

end TimingCharts
