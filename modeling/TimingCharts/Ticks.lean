import TimingCharts.Scale
import TimingCharts.Label

/-!
# Tick marks on a linear axis

`Axis.evenTicks` finds round values that divide the axis into equal steps, at most
as many as asked for; `Axis.ticks` puts the marks at given values when those are few enough.
-/

namespace TimingCharts

/-- A linear axis whose marks should sit at `marks`. -/
structure Axis where
  range : Range
  marks : List Float

namespace Ticks

/-- Two numbers closer than this are one tick. -/
def closeness : Float := 2.220446049250313e-16

/-- What is left of `x` above the nearest multiple of `step` below it. -/
def above (x step : Float) : Float :=
  let rest := x - (if step > 0 then (x / step).floor else (x / step).ceil) * step
  if (rest - step).abs < closeness then 0 else rest

/-- The first multiple of `step` that is not below `x`. -/
def firstFrom (x step : Float) : Float :=
  let left := x - above x step
  if left < x then left + step else left

/-- The last multiple of `step` that is not above `x`. -/
def lastUpTo (x step : Float) : Float := x - above x step

/-- A non-negative number cut to a whole one, `0` for NaN. -/
def wholePart (x : Float) : Nat := x.toUInt64.toNat

/-- How many multiples of `step / part` lie between `low` and `high`. -/
def count (low high step part : Float) : Nat :=
  let fine := step / part
  wholePart (1 + (lastUpTo high fine - firstFrom low fine) / step * part).round

/-- The finest of the given parts of `step` before the first that gives more than `limit`
marks, or nothing if none does; `best` stands for the parts before. -/
def refine (limit : Nat) (low high step best : Float) : List Float → Option Float
  | [] => none
  | part :: parts =>
    if count low high step part > limit then some best
    else refine limit low high step (step / part) parts

/-- Refines the step, decade by decade, until it would give too many marks.
The second number is the spacing a mark is rounded to. -/
def settle (limit : Nat) (low high : Float) : Nat → Float → Float → Float × Float
  | 0, step, grain => (step, grain)
  | fuel + 1, step, grain =>
    match refine limit low high step step [2, 5, 10] with
    | some best => (best, grain)
    | none => settle limit low high fuel (step / 10) (grain / 10)

/-- The marks from `offset` above `base` on, `step` apart, up to `last`. -/
def marksFrom (base last step grain : Float) : Nat → Float → List Float
  | 0, _ => []
  | fuel + 1, offset =>
    if last - offset - base ≥ -closeness then
      let offset := if (offset / grain).round * grain < 0 then offset + grain else offset
      (offset + base) :: marksFrom base last step grain fuel (offset + step)
    else []

end Ticks

namespace Axis

open Ticks

/-- Marks at round values, at most `limit` of them. -/
def evenTicks (range : Range) (limit : Nat) : List Float :=
  if limit = 0 then [] else
  let low := lesser range.start range.stop
  let high := greater range.start range.stop
  if (low - high).abs < closeness then [low] else
  let decade := Float.pow 10 (Float.log (high - low) / Float.log 10).floor
  let tooFine := 1 + wholePart ((high - low) / decade).floor > limit
  let unit := if tooFine then decade * 10 else decade
  let grain := if tooFine then decade / 10 * 10 else decade / 10
  -- no axis spans more decades than a `Float` has
  let (step, grain) := settle limit low high 700 unit grain
  let left := firstFrom low step
  let base := (left / grain).floor * grain
  -- rounding adds a mark or two to those counted
  marksFrom base (lastUpTo high step) step grain (2 * limit + 8) (left - base)

/-- The marks of an axis: its own if there are at most `limit`, else evenly spaced ones. -/
def ticks (axis : Axis) (limit : Nat) : List Float :=
  if axis.marks.length ≤ limit then axis.marks else evenTicks axis.range limit

/-- The pixel of a value on an axis drawn from pixel `first` to pixel `last`. -/
def pixel (range : Range) (first last : Int32) (value : Float) : Int32 :=
  if range.stop == range.start then (last - first) / 2
  else
    let share := (value - range.start) / (range.stop - range.start)
    let length := last - first
    let scaled := length.toFloat * share
    if length = 0 then last
    else if share.isInf then if share > 0 then last else first
    else if length > 0 then first + (scaled + 1e-3).floor.toInt32
    else first + (scaled - 1e-3).ceil.toInt32

end Axis

end TimingCharts
