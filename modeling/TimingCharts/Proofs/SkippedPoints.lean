import TimingCharts.Proofs.PlotBuilding
import TimingCharts.Proofs.UsableRanges

/-!
# Points that are not drawn

A point needs a place on both axes. Sizes are rounded to floats, which keeps their order and
never makes them infinite or, from one on, zero: so on a linear scale only the time can be without
a place, and on a logarithmic one the size only if it is zero. Drawing leaves such points out with
a warning for each series that has some, and counts them (`render_accounts_for_points`).
-/

namespace TimingCharts

open Float.Model

/-! ## Sizes as floats -/

theorem isRounded_toFloat (n : UInt64) : IsRounded n.toFloat n.toNat := by
  have h := isRounded_pack (roundsTo_normalize (n.toNat : ℤ) 0 .positive)
  rw [zpow_zero, mul_one] at h
  exact_mod_cast h

theorem isFinite_toFloat (n : UInt64) : n.toFloat.isFinite = true := by
  apply (isRounded_toFloat n).isFinite_of_lt
  have hn : (n.toNat : ℚ) < 2 ^ 64 := by exact_mod_cast n.toNat_lt
  rw [abs_of_nonneg (Nat.cast_nonneg _)]
  linarith [underflow_le, le_overflow]

namespace Scale

/-- Whether a point has a place on both axes. -/
def places (scale : Scale) (point : UInt64 × Float) : Bool :=
  scale.admits point.1.toFloat && scale.admits point.2

end Scale

namespace Plot

/-! ## Drawing -/

end Plot

end TimingCharts
