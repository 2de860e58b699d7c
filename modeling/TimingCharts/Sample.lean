/-!
# Samples

One measured time. The type of the time is a parameter: the program measures in `Float`,
and what only moves times about works for any type with a mean.
-/

namespace TimingCharts

structure Sample (τ : Type) where
  size : UInt64
  /-- Seconds. -/
  time : τ
  /-- What was measured: a method name or the name of a timing column. -/
  variant : String
  threads : Option UInt32
  deriving Repr, DecidableEq

/-- A type of numbers that can be averaged. -/
class Mean (τ : Type) where
  mean : List τ → τ

/-- The sum from zero, in order, divided by the count. -/
instance : Mean Float where
  mean times := times.foldl (· + ·) 0 / Float.ofNat times.length

end TimingCharts
