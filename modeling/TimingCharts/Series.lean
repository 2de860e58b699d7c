import TimingCharts.Sample
import TimingCharts.Grouping

/-!
# Series

A series is a named line of points, one for each size among the samples it is selected from.
-/

namespace TimingCharts

/-- Execution mode, as the thread count tells. -/
inductive Mode where
  | any
  /-- One thread, or no thread count. -/
  | serial
  /-- More than one thread. -/
  | parallel
  deriving DecidableEq, Repr

def Mode.matches (mode : Mode) (threads : Option UInt32) : Bool :=
  match mode with
  | .any => true
  | .serial => threads.getD 1 == 1
  | .parallel => threads.getD 1 > 1

structure Selector where
  /-- The variant it must have, if any. -/
  variant : Option String := none
  mode : Mode := .any
  deriving DecidableEq, Repr

variable {τ : Type}

def Selector.matches (selector : Selector) (sample : Sample τ) : Bool :=
  selector.variant.all (· == sample.variant) && selector.mode.matches sample.threads

/-- A named line of points, in increasing order of size. -/
structure Series (τ : Type) where
  name : String
  points : List (UInt64 × τ)
  deriving Repr, DecidableEq

namespace Series

/-- The matching samples, those of one size averaged into one point. -/
def select [Mean τ] (name : String) (samples : List (Sample τ)) (selector : Selector) :
    Series τ where
  name := name
  points := (group Sample.size Sample.time (samples.filter selector.matches)).map
    fun (size, times) => (size, Mean.mean times)

def isEmpty (s : Series τ) : Bool := s.points.isEmpty

def sizes (s : Series τ) : List UInt64 := s.points.map Prod.fst

end Series

end TimingCharts
