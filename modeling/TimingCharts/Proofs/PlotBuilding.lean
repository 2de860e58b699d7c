import TimingCharts.Proofs.CompleteCharts
import TimingCharts.Proofs.Selections

/-!
# Building plots

A plot is set up by calls in any order. Only the calls that hand over a series touch the list of
series, and each of them adds its series at the end or, if that has no points, warns. So whatever
the calls are, the series of the plot are those with points among the ones handed over
(`build_keeps_series`), and the order within a series is the one that selection gave it.
-/

namespace TimingCharts

/-- A series that was selected from samples, as every series of the program is. -/
def Series.IsSelected (series : Series Float) : Prop :=
  ∃ name samples selector, series = Series.select name samples selector

theorem Series.IsSelected.increasing {series : Series Float} (h : series.IsSelected) :
    series.sizes.Pairwise (· < ·) := by
  obtain ⟨name, samples, selector, rfl⟩ := h
  rw [select_sizes]
  exact (distinct_pairwise _).imp precedes_iff_lt.mp

namespace Plot

def Call.series? : Call → Option (Series Float × Style)
  | .series drawn style => some (drawn, style)
  | _ => none

def given (calls : List Call) : List (Series Float × Style) := calls.filterMap Call.series?

theorem call_eq (plot : Plot) (call : Call) :
    (plot.call call).1.series = plot.series ++ call.series?.toList.filter (!·.1.isEmpty) ∧
      (plot.call call).2 =
        (call.series?.toList.filter (·.1.isEmpty)).map fun p => emptyWarning p.1.name := by
  cases call with
  | series series style =>
    simp only [Plot.call, addSeries, Call.series?, Option.toList_some]
    by_cases h : series.isEmpty <;> simp [h]
  | _ => simp [Plot.call, Call.series?]

theorem build_eq (plot : Plot) (calls : List Call) :
    (plot.build calls).1.series = plot.series ++ (given calls).filter (!·.1.isEmpty) ∧
      (plot.build calls).2 =
        ((given calls).filter (·.1.isEmpty)).map fun p => emptyWarning p.1.name := by
  induction calls generalizing plot with
  | nil => simp [build, given]
  | cons call rest ih =>
    obtain ⟨hseries, hlog⟩ := plot.call_eq call
    obtain ⟨hrest, hmore⟩ := ih (plot.call call).1
    have hgiven : given (call :: rest) = call.series?.toList ++ given rest := by
      unfold given
      cases h : call.series? <;> simp [h]
    rw [hgiven, List.filter_append, List.filter_append, List.map_append]
    constructor
    · rw [← List.append_assoc, ← hseries]
      exact hrest
    · rw [← hlog, ← hmore]
      rfl

theorem mem_given {calls : List Call} {p : Series Float × Style} :
    p ∈ given calls ↔ .series p.1 p.2 ∈ calls := by
  unfold given
  rw [List.mem_filterMap]
  constructor
  · rintro ⟨call, hcall, h⟩
    cases call <;> simp only [Call.series?, reduceCtorEq] at h
    cases h
    exact hcall
  · intro h
    exact ⟨_, h, rfl⟩

/-- A plot holds the series with points that were handed over, in the order of the calls and with
their styles, and there was a warning for each of the others. Their sizes increase, and so do the
sizes of the plot, which are the sizes of its series and no others. -/
theorem build_keeps_series (scale : Scale) (calls : List Call)
    (selected : ∀ series style, .series series style ∈ calls → series.IsSelected) :
    let built := build { scale } calls
    built.1.series = (given calls).filter (fun p => p.1.points ≠ []) ∧
      built.2 = ((given calls).filter fun p => p.1.points = []).map
        (fun p => emptyWarning p.1.name) ∧
      (∀ p ∈ built.1.series, p.1.sizes.Pairwise (· < ·)) ∧
      built.1.sizes.Pairwise (· < ·) ∧
      ∀ s, s ∈ built.1.sizes ↔ ∃ p ∈ built.1.series, s ∈ p.1.sizes := by
  intro built
  have hempty : ∀ p : Series Float × Style, p.1.isEmpty = decide (p.1.points = []) := by
    intro p
    rw [Bool.eq_iff_iff, decide_eq_true_eq]
    exact List.isEmpty_iff
  obtain ⟨hseries, hlog⟩ := build_eq { scale } calls
  simp only [hempty, ← decide_not, List.nil_append] at hseries hlog
  refine ⟨hseries, hlog, fun p hp => ?_, pairwise_sizes _, fun s => mem_sizes⟩
  rw [hseries] at hp
  exact (selected p.1 p.2 (mem_given.mp (List.mem_of_mem_filter hp))).increasing

theorem build_keeps_series_one_empty :
    let style := Style.ofPalette 0 .circle
    let first := Series.select "first" [⟨30, 1, "a", none⟩, ⟨10, 2, "a", none⟩] {}
    let second := Series.select "second" [⟨20, 3, "b", none⟩, ⟨10, 4, "b", none⟩] {}
    let calls := [.series first style, .caption "Sort", .series (Series.select "none" [] {}) style,
      .sizeTicks, .series second style.dashed]
    let built := build { scale := .linear } calls
    (∀ series style, .series series style ∈ calls → series.IsSelected) ∧
      built.1.series = [(first, style), (second, style.dashed)] ∧
      built.2 = [emptyWarning "none"] ∧
      first.sizes.Pairwise (· < ·) ∧
      built.1.sizes.Pairwise (· < ·) ∧ 20 ∈ built.1.sizes := by
  intro style first second calls built
  have selected : ∀ series style, .series series style ∈ calls → series.IsSelected := by
    intro series style h
    simp only [calls, List.mem_cons, List.not_mem_nil, or_false, reduceCtorEq, false_or,
      Call.series.injEq] at h
    obtain ⟨rfl, -⟩ | ⟨rfl, -⟩ | ⟨rfl, -⟩ := h
    all_goals exact ⟨_, _, _, rfl⟩
  obtain ⟨hseries, hlog, hincreasing, hsizes, hmem⟩ := build_keeps_series .linear calls selected
  have hfirst : (first, style) ∈ built.1.series := List.mem_cons_self
  have hsecond : (second, style.dashed) ∈ built.1.series :=
    List.mem_cons_of_mem _ List.mem_cons_self
  refine ⟨selected, hseries, hlog, hincreasing _ hfirst, hsizes, ?_⟩
  exact (hmem 20).mpr ⟨_, hsecond, by decide⟩

end Plot

end TimingCharts
