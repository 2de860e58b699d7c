import TimingCharts.Sample
import TimingCharts.Grouping

/-!
# Averaging repeated samples

Samples that agree in variant, thread count and size are repetitions of one measurement.
`average` replaces them by their mean.
-/

namespace TimingCharts

/-- What repetitions of a measurement share. -/
structure Measurement where
  variant : String
  threads : Option UInt32
  size : UInt64
  deriving DecidableEq, Repr

/-- By variant, then thread count with none first, then size. -/
instance : Ord Measurement where
  compare a b :=
    (compare a.variant b.variant).then
      ((compare a.threads b.threads).then (compare a.size b.size))

variable {τ : Type}

def Sample.measurement (s : Sample τ) : Measurement := ⟨s.variant, s.threads, s.size⟩

/-- One sample per measurement, in the order of the measurements. -/
def average [Mean τ] (samples : List (Sample τ)) : List (Sample τ) :=
  (group Sample.measurement Sample.time samples).map fun (m, times) =>
    ⟨m.size, Mean.mean times, m.variant, m.threads⟩

end TimingCharts
