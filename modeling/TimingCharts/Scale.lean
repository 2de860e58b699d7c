/-!
# Axis scales

A scale decides which values can be placed on an axis and how far the axis reaches
beyond the data.
-/

namespace TimingCharts

inductive Scale where
  | linear
  | log
  deriving DecidableEq, Repr

/-- The part of the number line an axis shows. -/
structure Range where
  start : Float
  stop : Float

/-- The smaller of two numbers, the first if neither is. -/
def lesser (x y : Float) : Float := if y < x then y else x

/-- The greater of two numbers, the first if neither is. -/
def greater (x y : Float) : Float := if x < y then y else x

def bounds : List Float → Option (Float × Float)
  | [] => none
  | v :: vs => some (vs.foldl lesser v, vs.foldl greater v)

/-- A twentieth of the spread on either side, but not below zero for data that is not;
data without spread gets a tenth of its size, and at least one. -/
def linearRange (values : List Float) : Range :=
  match bounds (values.filter Float.isFinite) with
  | none => ⟨0, 1⟩
  | some (low, high) =>
    let span := high - low
    let pad := if span > 0 then span * 0.05 else greater (high.abs * 0.1) 1
    ⟨if low ≥ 0 then greater (low - pad) 0 else low - pad, high + pad⟩

/-- A factor of 1.25 on either side of the positive data. -/
def logRange (values : List Float) : Range :=
  match bounds (values.filter fun v => v.isFinite && v > 0) with
  | none => ⟨1, 10⟩
  | some (low, high) => ⟨low / 1.25, high * 1.25⟩

namespace Scale

/-- The axis range for some data, padded so that no point sits on the border. -/
def range : Scale → List Float → Range
  | .linear, values => linearRange values
  | .log, values => logRange values

def admits : Scale → Float → Bool
  | .linear, value => value.isFinite
  | .log, value => value.isFinite && value > 0

end Scale

end TimingCharts
