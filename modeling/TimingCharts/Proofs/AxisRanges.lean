import TimingCharts.Plot
import TimingCharts.Proofs.FloatOperations

/-!
# What lies on the axes

An axis reaches from below the least of the values that its scale admits to above the greatest of
them. Both scales pad by an operation that is rounded, and rounding keeps order: so whatever the
padding comes to, even if it is infinite, no value is left outside (`contains_range`).
-/

namespace TimingCharts

open Float.Model Float.Model.UnpackedFloat

/-! ## The least and the greatest of some values -/

section
variable {x y : Float}

theorem lesser_spec (hx : x.isNaN = false) (hy : y.isNaN = false) :
    (lesser x y = x ∨ lesser x y = y) ∧ lesser x y ≤ x ∧ lesser x y ≤ y := by
  unfold lesser
  split
  · next h => exact ⟨.inr rfl, float_le_of_lt h, float_le_refl hy⟩
  · next h => exact ⟨.inl rfl, float_le_refl hx, float_le_of_not_lt hy hx h⟩

theorem greater_spec (hx : x.isNaN = false) (hy : y.isNaN = false) :
    (greater x y = x ∨ greater x y = y) ∧ x ≤ greater x y ∧ y ≤ greater x y := by
  unfold greater
  split
  · next h => exact ⟨.inr rfl, float_le_of_lt h, float_le_refl hy⟩
  · next h => exact ⟨.inl rfl, float_le_refl hx, float_le_of_not_lt hx hy h⟩

end

theorem foldl_chosen {f : Float → Float → Float} {R : Float → Float → Prop}
    (refl : ∀ {x}, x.isNaN = false → R x x) (trans : ∀ {x y z}, R x y → R y z → R x z)
    (chosen : ∀ {x y}, x.isNaN = false → y.isNaN = false →
      (f x y = x ∨ f x y = y) ∧ R (f x y) x ∧ R (f x y) y)
    (vs : List Float) {v : Float} (h : ∀ w ∈ v :: vs, w.isNaN = false) :
    vs.foldl f v ∈ v :: vs ∧ ∀ w ∈ v :: vs, R (vs.foldl f v) w := by
  -- the number chosen so far stands first in the list that is left
  induction vs generalizing v with
  | nil =>
    refine ⟨List.mem_singleton_self v, fun w hw => ?_⟩
    rw [List.mem_singleton.mp hw]
    exact refl (h v List.mem_cons_self)
  | cons u us ih =>
    have hv := h v List.mem_cons_self
    have hu := h u (List.mem_cons_of_mem v List.mem_cons_self)
    obtain ⟨hpick, hleft, hright⟩ := chosen hv hu
    have hnan : ∀ w ∈ f v u :: us, w.isNaN = false := by
      intro w hw
      rcases List.mem_cons.mp hw with rfl | hw
      · rcases hpick with hpick | hpick
        · rw [hpick, hv]
        · rw [hpick, hu]
      · exact h w (List.mem_cons_of_mem v (List.mem_cons_of_mem u hw))
    obtain ⟨hmem, hbest⟩ := ih hnan
    have hbest' := hbest (f v u) List.mem_cons_self
    rw [List.foldl_cons]
    constructor
    · rcases List.mem_cons.mp hmem with heq | hmem
      · rcases hpick with hpick | hpick
        · rw [heq, hpick]
          exact List.mem_cons_self
        · rw [heq, hpick]
          exact List.mem_cons_of_mem v List.mem_cons_self
      · exact List.mem_cons_of_mem v (List.mem_cons_of_mem u hmem)
    · intro w hw
      rcases List.mem_cons.mp hw with rfl | hw
      · exact trans hbest' hleft
      · rcases List.mem_cons.mp hw with rfl | hw
        · exact trans hbest' hright
        · exact hbest w (List.mem_cons_of_mem _ hw)

structure Spans (values : List Float) (low high : Float) : Prop where
  low_mem : low ∈ values
  high_mem : high ∈ values
  low_le : ∀ v ∈ values, low ≤ v
  le_high : ∀ v ∈ values, v ≤ high

theorem Spans.of_filter {values : List Float} {p : Float → Bool} {low high : Float}
    (h : Spans (values.filter p) low high) : p low = true ∧ p high = true :=
  ⟨(List.mem_filter.mp h.low_mem).2, (List.mem_filter.mp h.high_mem).2⟩

theorem spans_of_bounds {values : List Float} {low high : Float}
    (nan : ∀ v ∈ values, v.isNaN = false) (h : bounds values = some (low, high)) :
    Spans values low high := by
  cases values with
  | nil => cases h
  | cons v vs =>
    obtain ⟨rfl, rfl⟩ := Prod.mk.inj (Option.some.inj h)
    obtain ⟨hlow, hleast⟩ := foldl_chosen (R := (· ≤ ·)) float_le_refl float_le_trans lesser_spec
      vs nan
    obtain ⟨hhigh, hgreatest⟩ := foldl_chosen (R := (· ≥ ·)) float_le_refl
      (fun h h' => float_le_trans h' h) greater_spec vs nan
    exact ⟨hlow, hhigh, hleast, hgreatest⟩

/-! ## Padding -/

section
variable {x p : Float} (hx : x.isFinite = true)
include hx

theorem le_add_pad (hp : 0 ≤ p) : x ≤ x + p := by
  have hnan := isNaN_of_isFinite hx
  cases hfin : p.isFinite with
  | true =>
    apply (isRounded_add hx hfin).le_of_number_le hnan
    have := (le_iff_number (isNaN_of_le hp).1 (isNaN_of_le hp).2).mp hp
    exact le_add_of_nonneg_right this
  | false =>
    have hinf := unpack_of_nonneg_of_infinite hp hfin
    exact le_of_unpack_infinity hnan (unpack_add_infinity hinf hx)

theorem sub_pad_le (hp : 0 ≤ p) : x - p ≤ x := by
  have hnan := isNaN_of_isFinite hx
  cases hfin : p.isFinite with
  | true =>
    apply (isRounded_sub hx hfin).le_of_le_number hnan
    have := (le_iff_number (isNaN_of_le hp).1 (isNaN_of_le hp).2).mp hp
    exact sub_le_self _ this
  | false =>
    have hinf := unpack_of_nonneg_of_infinite hp hfin
    exact le_of_unpack_neg_infinity hnan (unpack_sub_infinity hinf hx)

end

theorem number_factor : number 1.25 = 5 / 4 := by
  rw [number_of_unpack (m := 5629499534213120) (e := -52) rfl]
  norm_num

section
variable {x : Float} (hx : x.isFinite = true) (pos : 0 < x)
include hx

theorem isRounded_mul_factor : IsRounded (x * 1.25) (number x * (5 / 4)) := by
  have := isRounded_mul (y := 1.25) hx rfl
  rwa [number_factor] at this

theorem isRounded_div_factor : IsRounded (x / 1.25) (number x / (5 / 4)) := by
  have := isRounded_div (y := 1.25) hx rfl (by rw [number_factor]; norm_num)
  rwa [number_factor] at this

include pos

theorem number_pos_of_pos : 0 < number x :=
  (lt_iff_number rfl (isNaN_of_isFinite hx)).mp pos

theorem le_mul_factor : x ≤ x * 1.25 := by
  apply (isRounded_mul_factor hx).le_of_number_le (isNaN_of_isFinite hx)
  linarith [number_pos_of_pos hx pos]

theorem div_factor_le : x / 1.25 ≤ x := by
  apply (isRounded_div_factor hx).le_of_le_number (isNaN_of_isFinite hx)
  linarith [number_pos_of_pos hx pos]

end

/-! ## Margins -/

theorem unpack_abs (x : Float) : x.abs.toModel.unpack = x.toModel.unpack.abs := by
  have hstored := stored_unpack x.toModel
  show (Float.Model.pack x.toModel.unpack.abs).unpack = _
  cases hu : x.toModel.unpack with
  | notANumber => rfl
  | infinity => exact unpack_pack_infinity
  | zero => exact unpack_pack_zero
  | finite s m e hm =>
    rw [hu] at hstored
    exact unpack_pack hstored.1 hstored.2

theorem number_abs (x : Float) : number x.abs = |number x| := by
  have hstored := stored_unpack x.toModel
  rw [number, unpack_abs, number]
  cases hu : x.toModel.unpack with
  | notANumber | zero => exact abs_zero.symm
  | infinity s =>
    rw [unpackedNumber, abs_signed, abs_of_pos overflow_pos]
    rfl
  | finite s m e hm =>
    rw [hu] at hstored
    rw [unpackedNumber, abs_signed, abs_of_pos hstored.1.number_pos]
    rfl

theorem isFinite_abs {x : Float} (hx : x.isFinite = true) : x.abs.isFinite = true := by
  show x.abs.toModel.unpack.isFinite = true
  rw [unpack_abs]
  rcases finite_cases hx with ⟨s, hu⟩ | ⟨s, m, e, can, -, hu⟩
  · rw [hu]
    rfl
  · rw [hu]
    rfl

def flatMargin (x : Float) : Float := greater (x.abs * 0.1) 1

def margin (low high : Float) : Float :=
  if high - low > 0 then (high - low) * 0.05 else flatMargin high

theorem unpack_twentieth :
    (0.05 : Float).toModel.unpack = .finite .positive 7205759403792794 (-57) (by decide) := rfl

theorem number_twentieth : 0 ≤ number 0.05 ∧ number 0.05 ≤ 1 / 18 := by
  rw [number_of_unpack unpack_twentieth]
  norm_num

theorem isRounded_tenth {x : Float} (hx : x.isFinite = true) :
    IsRounded (x.abs * 0.1) (|number x| * number 0.1) := by
  rw [← number_abs]
  exact isRounded_mul (isFinite_abs hx) rfl

theorem margin_nonneg (low : Float) {high : Float} (fin : high.isFinite = true) :
    0 ≤ margin low high := by
  unfold margin
  split
  · next spread =>
    have hspread := float_le_of_lt spread
    cases hfin : (high - low).isFinite with
    | true =>
      apply (isRounded_mul (y := 0.05) hfin rfl).le_of_number_le rfl
      have hpos := (lt_iff_number rfl (isNaN_of_isFinite hfin)).mp spread
      exact mul_nonneg hpos.le number_twentieth.1
    | false =>
      -- the spread of finite values can be infinite, and so is its twentieth
      have hinf := unpack_of_nonneg_of_infinite hspread hfin
      exact le_of_unpack_infinity rfl (unpack_infinity_mul hinf unpack_twentieth)
  · have hone := (greater_spec (y := 1) (isRounded_tenth fin).isNaN rfl).2.2
    exact float_le_trans (by decide) hone

/-! ## Ranges -/

namespace Scale

def blank : Scale → Range
  | .linear => ⟨0, 1⟩
  | .log => ⟨1, 10⟩

def padded : Scale → Float → Float → Range
  | .linear, low, high =>
    ⟨if low ≥ 0 then greater (low - margin low high) 0 else low - margin low high,
      high + margin low high⟩
  | .log, low, high => ⟨low / 1.25, high * 1.25⟩

theorem range_eq (scale : Scale) (values : List Float) :
    scale.range values = match bounds (values.filter scale.admits) with
      | none => scale.blank
      | some (low, high) => scale.padded low high := by
  cases scale <;> rfl

variable {scale : Scale} {values : List Float} {v low high : Float}

theorem isFinite_of_admits (h : scale.admits v = true) : v.isFinite = true := by
  cases scale with
  | linear => exact h
  | log => exact (Bool.and_eq_true_iff.mp h).1

theorem pos_of_admits (h : Scale.log.admits v = true) : 0 < v :=
  of_decide_eq_true (Bool.and_eq_true_iff.mp h).2

theorem range_cases (scale : Scale) (values : List Float) :
    values.filter scale.admits = [] ∧ scale.range values = scale.blank ∨
      ∃ low high, Spans (values.filter scale.admits) low high ∧
        scale.range values = scale.padded low high := by
  rw [range_eq]
  cases hb : bounds (values.filter scale.admits) with
  | none =>
    left
    refine ⟨?_, rfl⟩
    cases hvalues : values.filter scale.admits with
    | nil => rfl
    | cons v vs =>
      rw [hvalues] at hb
      cases hb
  | some b =>
    right
    refine ⟨b.1, b.2, spans_of_bounds (fun v hv => ?_) hb, rfl⟩
    exact isNaN_of_isFinite (isFinite_of_admits (List.mem_filter.mp hv).2)

theorem padded_start_le (scale : Scale) (hlow : scale.admits low = true)
    (hhigh : scale.admits high = true) : (scale.padded low high).start ≤ low := by
  have hfin := isFinite_of_admits hlow
  cases scale with
  | linear =>
    have hsub := sub_pad_le hfin (margin_nonneg low hhigh)
    show ite _ _ _ ≤ low
    split
    · next hnonneg =>
      rcases (greater_spec (y := 0) (isNaN_of_le hsub).1 rfl).1 with heq | heq
      · rw [heq]
        exact hsub
      · rw [heq]
        exact hnonneg
    · exact hsub
  | log => exact div_factor_le hfin (pos_of_admits hlow)

theorem le_padded_stop (scale : Scale) (hhigh : scale.admits high = true) :
    high ≤ (scale.padded low high).stop := by
  have hfin := isFinite_of_admits hhigh
  cases scale with
  | linear => exact le_add_pad hfin (margin_nonneg low hfin)
  | log => exact le_mul_factor hfin (pos_of_admits hhigh)

theorem contains_range (hv : v ∈ values.filter scale.admits) :
    (scale.range values).start ≤ v ∧ v ≤ (scale.range values).stop := by
  rcases range_cases scale values with ⟨hnone, -⟩ | ⟨low, high, hspan, hrange⟩
  · rw [hnone] at hv
    cases hv
  · obtain ⟨hlow, hhigh⟩ := hspan.of_filter
    rw [hrange]
    exact ⟨float_le_trans (padded_start_le scale hlow hhigh) (hspan.low_le v hv),
      float_le_trans (hspan.le_high v hv) (le_padded_stop scale hhigh)⟩

theorem linear_start_nonneg (h : ∀ v ∈ values.filter Scale.linear.admits, 0 ≤ v) :
    0 ≤ (Scale.linear.range values).start := by
  rcases range_cases .linear values with ⟨-, hrange⟩ | ⟨low, high, hspan, hrange⟩
  · rw [hrange]
    decide
  · have hnonneg : low ≥ 0 := h low hspan.low_mem
    obtain ⟨hlow, hhigh⟩ := hspan.of_filter
    have hsub := sub_pad_le (isFinite_of_admits hlow) (margin_nonneg low hhigh)
    rw [hrange]
    show 0 ≤ ite _ _ _
    rw [if_pos hnonneg]
    exact (greater_spec (isNaN_of_le hsub).1 rfl).2.2

end Scale

/-! ## Figures -/

namespace Plot

theorem drawn_points (plot : Plot) :
    plot.figure.lines.flatMap (·.points) =
      plot.points.filter fun q => plot.scale.admits q.1 && plot.scale.admits q.2 := by
  rw [figure, points, List.flatMap_map, List.filter_flatMap]
  rfl

section
variable {scale : Scale} {points : List (Float × Float)} (coordinate : Float × Float → Float)

theorem contains_coordinate {q : Float × Float} (hq : q ∈ points)
    (h : scale.admits (coordinate q) = true) :
    (scale.range ((points.map coordinate).filter scale.admits)).start ≤ coordinate q ∧
      coordinate q ≤ (scale.range ((points.map coordinate).filter scale.admits)).stop := by
  have hmem : coordinate q ∈ (points.map coordinate).filter scale.admits :=
    List.mem_filter.mpr ⟨List.mem_map_of_mem hq, h⟩
  exact Scale.contains_range (List.mem_filter.mpr ⟨hmem, h⟩)

theorem start_nonneg_of_coordinate
    (h : ∀ q ∈ points, Scale.linear.admits (coordinate q) = true → 0 ≤ coordinate q) :
    0 ≤ (Scale.linear.range ((points.map coordinate).filter Scale.linear.admits)).start := by
  apply Scale.linear_start_nonneg
  intro v hv
  obtain ⟨hv, hadmits⟩ := List.mem_filter.mp (List.mem_of_mem_filter hv)
  obtain ⟨q, hq, rfl⟩ := List.mem_map.mp hv
  exact h q hq hadmits

end

/-- Of each series the points are drawn that the scale admits, and all of these lie between the ends
of both axes. A linear axis does not begin below zero unless a value does. -/
theorem figure_points_within_axes (plot : Plot) :
    plot.figure.lines.flatMap (·.points) =
        plot.points.filter (fun q => plot.scale.admits q.1 && plot.scale.admits q.2) ∧
      (∀ line ∈ plot.figure.lines, ∀ q ∈ line.points,
        (plot.figure.xRange.start ≤ q.1 ∧ q.1 ≤ plot.figure.xRange.stop) ∧
          plot.figure.yRange.start ≤ q.2 ∧ q.2 ≤ plot.figure.yRange.stop) ∧
      (plot.scale = .linear →
        ((∀ q ∈ plot.points, plot.scale.admits q.1 = true → 0 ≤ q.1) →
            0 ≤ plot.figure.xRange.start) ∧
          ((∀ q ∈ plot.points, plot.scale.admits q.2 = true → 0 ≤ q.2) →
            0 ≤ plot.figure.yRange.start)) := by
  refine ⟨plot.drawn_points, fun line hline q hq => ?_, fun hlinear => ?_⟩
  · have hdrawn : q ∈ plot.figure.lines.flatMap (·.points) := List.mem_flatMap.mpr ⟨line, hline, hq⟩
    rw [drawn_points, List.mem_filter, Bool.and_eq_true_iff] at hdrawn
    obtain ⟨hpoint, hx, hy⟩ := hdrawn
    exact ⟨contains_coordinate Prod.fst hpoint hx, contains_coordinate Prod.snd hpoint hy⟩
  · rw [figure, xRange, yRange, hlinear]
    exact ⟨start_nonneg_of_coordinate Prod.fst, start_nonneg_of_coordinate Prod.snd⟩

theorem figure_points_within_axes_unmeasured :
    let plot : Plot :=
      { scale := .linear
        series := [(⟨"serial", [(1, 0.5), (2, 0 / 0), (4, 0)]⟩, .ofPalette 0 .circle)] }
    plot.figure.lines.flatMap (·.points) = [(1, 0.5), (4, 0)] ∧
      (plot.figure.xRange.start ≤ 4 ∧ 4 ≤ plot.figure.xRange.stop) ∧
      (plot.figure.yRange.start ≤ 0 ∧ 0 ≤ plot.figure.yRange.stop) ∧
      0 ≤ plot.figure.xRange.start ∧ 0 ≤ plot.figure.yRange.start := by
  intro plot
  obtain ⟨kept, within, nonneg⟩ := plot.figure_points_within_axes
  obtain ⟨hx, hy⟩ := nonneg rfl
  have hdrawn : plot.figure.lines.flatMap (·.points) = [(1, 0.5), (4, 0)] := by
    rw [kept]
    decide +kernel
  have hmem : (4, 0) ∈ plot.figure.lines.flatMap (·.points) := by
    rw [hdrawn]
    exact List.mem_cons_of_mem _ List.mem_cons_self
  obtain ⟨line, hline, hq⟩ := List.mem_flatMap.mp hmem
  have hin := within line hline _ hq
  exact ⟨hdrawn, hin.1, hin.2, hx (by decide +kernel), hy (by decide +kernel)⟩

end Plot

end TimingCharts
