import TimingCharts.Proofs.Decoding
import TimingCharts.Proofs.FloatArithmetic
import TimingCharts.Proofs.RowOrder

/-!
# Averages

`average` keeps a list of groups in order while it goes through the samples. What comes of it can
be said from the samples alone (`average_groups`): each measurement occurs once, in order, with the
mean of its repetitions. So a list of averages has nothing left to merge, and averaging it again
only adds each time to zero (`average_idempotent`); and as repetitions agree in all that a selector
looks at, selecting may come before or after (`average_selected`).
-/

namespace TimingCharts

/-! ## The order of measurements -/

/-- By the bytes of the variant, then by the thread count with none first, then by the size. -/
def Measurement.Before (m n : Measurement) : Prop :=
  Text.encode m.variant.toList < Text.encode n.variant.toList ∨
    m.variant = n.variant ∧ (m.threads < n.threads ∨ m.threads = n.threads ∧ m.size < n.size)

theorem compare_string {s t : String} :
    compare s t = .lt ↔ Text.encode s.toList < Text.encode t.toList := by
  rw [Text.encode_lt_encode, ← String.lt_iff_toList_lt]
  exact compare_lt_iff_lt

theorem compare_count {c d : Option UInt32} : compare c d = .lt ↔ c < d := by
  cases c with
  | none => cases d <;> simp [compare]
  | some c =>
    cases d with
    | none => simp [compare]
    | some d =>
      rw [Option.some_lt_some]
      show compare c d = .lt ↔ c < d
      exact Std.compare_eq_lt

theorem precedes_measurement {m n : Measurement} : Precedes m n ↔ m.Before n := by
  show (compare m.variant n.variant).then _ = .lt ↔ _
  rw [Ordering.then_eq_lt, Ordering.then_eq_lt, compare_string, compare_count,
    Std.LawfulEqOrd.compare_eq_iff_eq, Std.LawfulEqOrd.compare_eq_iff_eq]
  exact or_congr_right (and_congr_right' (or_congr_right (and_congr_right' precedes_iff_lt)))

/-! ## Repetitions -/

section
variable {α κ : Type} [DecidableEq κ] {key : α → κ} {items : List α}

theorem flatMap_filter_perm {keys : List κ} (nodup : keys.Nodup)
    (h : ∀ a ∈ items, key a ∈ keys) :
    (keys.flatMap fun k => items.filter fun a => key a = k).Perm items := by
  induction keys generalizing items with
  | nil =>
    rw [List.eq_nil_iff_forall_not_mem.mpr fun a ha => List.not_mem_nil (h a ha)]
    exact .nil
  | cons k keys ih =>
    obtain ⟨hk, nodup⟩ := List.nodup_cons.mp nodup
    have hrest : (keys.flatMap fun k' => items.filter fun a => key a = k') =
        keys.flatMap fun k' => (items.filter fun a => !decide (key a = k)).filter fun a =>
          key a = k' := by
      apply List.flatMap_congr
      intro k' hk'
      rw [List.filter_filter]
      apply List.filter_congr
      intro a _
      have hne : k' ≠ k := by
        rintro rfl
        exact hk hk'
      by_cases ha : key a = k' <;> simp [ha, hne]
    rw [List.flatMap_cons, hrest]
    refine ((ih nodup ?_).append_left _).trans (List.filter_append_perm _ _)
    intro a ha
    obtain ⟨ha, hne⟩ := List.mem_filter.mp ha
    exact (List.mem_cons.mp (h a ha)).resolve_left (by simpa using hne)

theorem filter_key_of_nodup (nodup : (items.map key).Nodup) {a : α} (ha : a ∈ items) :
    (items.filter fun b => key b = key a) = [a] := by
  induction items with
  | nil => cases ha
  | cons b items ih =>
    obtain ⟨hb, nodup⟩ := List.nodup_cons.mp nodup
    rw [List.filter_cons]
    rcases List.mem_cons.mp ha with rfl | ha
    · have hnone : (items.filter fun b => key b = key a) = [] := by
        apply List.filter_eq_nil_iff.mpr
        intro b hm he
        exact hb (List.mem_map.mpr ⟨b, hm, by simpa using he⟩)
      simp [hnone]
    · have hne : key b ≠ key a := by
        intro he
        exact hb (he ▸ List.mem_map_of_mem ha)
      simp [hne, ih nodup ha]

end

section
variable {τ : Type}

def repetitions (samples : List (Sample τ)) (m : Measurement) : List (Sample τ) :=
  samples.filter (·.measurement = m)

variable [Mean τ]

theorem measurements_average (samples : List (Sample τ)) :
    (average samples).map Sample.measurement = distinct (samples.map Sample.measurement) := by
  rw [average_eq, List.map_map]
  exact List.map_id _

theorem nodup_measurements (samples : List (Sample τ)) :
    ((average samples).map Sample.measurement).Nodup := by
  rw [measurements_average]
  exact (distinct_pairwise _).imp Precedes.ne

theorem time_of_mem_average {samples : List (Sample τ)} {x : Sample τ} (h : x ∈ average samples) :
    x.time = Mean.mean ((repetitions samples x.measurement).map Sample.time) := by
  rw [average_eq] at h
  obtain ⟨m, -, rfl⟩ := List.mem_map.mp h
  rfl

theorem repetitions_perm (samples : List (Sample τ)) :
    ((average samples).flatMap fun x => repetitions samples x.measurement).Perm samples := by
  have hmap : ((average samples).flatMap fun x => repetitions samples x.measurement) =
      ((average samples).map Sample.measurement).flatMap (repetitions samples) := by
    rw [List.flatMap_map]
  rw [hmap]
  apply flatMap_filter_perm (nodup_measurements samples)
  intro x hx
  rw [measurements_average, mem_distinct]
  exact List.mem_map_of_mem hx

end

/-- The averages of samples: one for each measurement that occurs, in order, whose time is that of
its repetitions added up from zero and divided by their number. Every sample counts once. -/
theorem average_groups (samples : List (Sample Float)) :
    ((average samples).map Sample.measurement).Pairwise Measurement.Before ∧
      ((average samples).map Sample.measurement).Nodup ∧
      (∀ m, m ∈ (average samples).map Sample.measurement ↔ m ∈ samples.map Sample.measurement) ∧
      (∀ x ∈ average samples,
        x.time = ((repetitions samples x.measurement).map Sample.time).foldl (· + ·) 0.0 /
          Float.ofNat (repetitions samples x.measurement).length) ∧
      ((average samples).flatMap fun x => repetitions samples x.measurement).Perm samples ∧
      ((average samples).map fun x => (repetitions samples x.measurement).length).sum =
        samples.length := by
  refine ⟨?_, nodup_measurements samples, ?_, ?_, repetitions_perm samples, ?_⟩
  · rw [measurements_average]
    exact (distinct_pairwise _).imp precedes_measurement.mp
  · intro m
    rw [measurements_average, mem_distinct]
  · intro x hx
    have zero : (0 : Float) = 0.0 := rfl
    rw [time_of_mem_average hx, ← zero, ← List.length_map]
    rfl
  · rw [← List.length_flatMap]
    exact (repetitions_perm samples).length_eq

theorem average_groups_repeated :
    let samples : List (Sample Float) :=
      [⟨8, 2.0, "a", some 4⟩, ⟨8, 1.0, "b", none⟩, ⟨8, 3.0, "a", some 4⟩]
    ∃ x ∈ average samples, x.measurement = ⟨"a", some 4, 8⟩ ∧
      x.time = (0.0 + 2.0 + 3.0) / Float.ofNat 2 := by
  intro samples
  obtain ⟨-, -, keys, times, -, -⟩ := average_groups samples
  have hm : ⟨"a", some 4, 8⟩ ∈ samples.map Sample.measurement := List.mem_cons_self
  obtain ⟨x, hx, hm⟩ := List.mem_map.mp ((keys _).mpr hm)
  refine ⟨x, hx, hm, ?_⟩
  rw [times x hx, hm]
  rfl

/-! ## Averages of averages -/

theorem average_of_nothing_to_merge {τ : Type} [Mean τ] {samples : List (Sample τ)}
    (h : (samples.map Sample.measurement).Pairwise Precedes) :
    average samples = samples.map (Sample.mapTime fun t => Mean.mean [t]) := by
  have hkeys : distinct (samples.map Sample.measurement) = samples.map Sample.measurement :=
    (eq_distinct h fun m => Iff.rfl).symm
  rw [average_eq, hkeys, List.map_map]
  apply List.map_congr_left
  intro x hx
  have hone : valuesAt Sample.measurement Sample.time samples x.measurement = [x.time] := by
    rw [valuesAt, filter_key_of_nodup (h.imp Precedes.ne) hx]
    rfl
  rw [Function.comp, merged, hone]
  rfl

/-- Equal as numbers: zero has no sign, and what is not a number is equal to itself. -/
def SameNumber (x y : Float) : Prop := x == y ∨ x.isNaN ∧ y.isNaN

theorem mean_singleton (t : Float) : Mean.mean [t] = 0 + t := div_one_float _

theorem zero_add_twice (t : Float) : 0 + (0 + t) = 0 + t := by
  rw [zero_add_float t]
  split
  · rfl
  · next h => rw [zero_add_float, if_neg h]

theorem sameNumber_zero_add (t : Float) : SameNumber (0 + t) t := by
  rw [zero_add_float]
  split
  · next h =>
    rw [h]
    exact .inl rfl
  · by_cases hn : t = Float.nan
    · right
      simp [hn]
    · left
      simp [hn]

theorem average_average (samples : List (Sample Float)) :
    average (average samples) = (average samples).map (Sample.mapTime (0 + ·)) := by
  rw [average_of_nothing_to_merge]
  · simp only [mean_singleton]
  · rw [measurements_average]
    exact distinct_pairwise _

theorem average_thrice (samples : List (Sample Float)) :
    average (average (average samples)) = average (average samples) := by
  rw [average_average (average samples), average_average, List.map_map]
  apply List.map_congr_left
  intro x _
  simp only [Function.comp, Sample.mapTime, zero_add_twice]

/-- Averaging again leaves the measurements as they are and each time the same number, and from
then on it changes nothing. -/
theorem average_idempotent (samples : List (Sample Float)) :
    (average (average samples)).map Sample.measurement =
        (average samples).map Sample.measurement ∧
      List.Forall₂ (fun x y => SameNumber x.time y.time) (average (average samples))
        (average samples) ∧
      ∀ n, average (average^[n + 2] samples) = average^[n + 2] samples ∧
        average^[n + 2] samples = average^[2] samples := by
  have hfixed : average (average^[2] samples) = average^[2] samples := average_thrice samples
  have hsecond (n : Nat) : average^[n + 2] samples = average^[2] samples := by
    rw [Function.iterate_add_apply]
    exact Function.iterate_fixed hfixed n
  refine ⟨?_, ?_, ?_⟩
  · rw [average_average, List.map_map]
    rfl
  · rw [average_average, List.forall₂_map_left_iff, List.forall₂_same]
    intro x _
    exact sameNumber_zero_add x.time
  · intro n
    rw [hsecond]
    exact ⟨hfixed, rfl⟩

/-! ## Selected averages -/

def Selector.takes (selector : Selector) (m : Measurement) : Bool :=
  selector.variant.all (· == m.variant) && selector.mode.matches m.threads

theorem Selector.matches_eq {τ : Type} (selector : Selector) :
    selector.matches (τ := τ) = selector.takes ∘ Sample.measurement := rfl

/-- The samples that a selector takes have the averages that it takes of all averages. -/
theorem average_selected {τ : Type} [Mean τ] (selector : Selector) (samples : List (Sample τ)) :
    average (samples.filter selector.matches) = (average samples).filter selector.matches := by
  rw [selector.matches_eq, filter_average]

end TimingCharts
