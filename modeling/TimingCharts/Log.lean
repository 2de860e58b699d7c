/-!
# Log records

Everything the program reports about its work is a record; a logger decides which records are
printed, where, and how they look.
-/

namespace TimingCharts.Log

/-- How important a record is, the most important first. -/
inductive Level where
  | error
  | warn
  | info
  | debug
  | trace
  deriving DecidableEq, Repr

/-- The rank of a level, from one for errors. -/
def Level.rank : Level → Nat
  | .error => 1
  | .warn => 2
  | .info => 3
  | .debug => 4
  | .trace => 5

def Level.name : Level → String
  | .error => "ERROR"
  | .warn => "WARN"
  | .info => "INFO"
  | .debug => "DEBUG"
  | .trace => "TRACE"

/-- The least important level that is printed; `none` prints nothing. -/
abbrev Threshold := Option Level

namespace Threshold

def rank : Threshold → Nat
  | none => 0
  | some level => level.rank

/-- The threshold of a rank; ranks past the last level stay at it. -/
def ofRank : Nat → Threshold
  | 0 => none
  | 1 => some .error
  | 2 => some .warn
  | 3 => some .info
  | 4 => some .debug
  | _ => some .trace

def name : Threshold → String
  | none => "OFF"
  | some level => level.name

/-- The threshold `steps` levels further down. -/
def raise (t : Threshold) (steps : Nat) : Threshold := ofRank (rank t + steps)

end Threshold

inductive Source where
  | main
  | table
  | benchmark
  | chart
  | config
  | viewer
  deriving DecidableEq, Repr

def Source.target : Source → String
  | .main => "perf_charts"
  | .table => "perf_charts::table"
  | .benchmark => "perf_charts::benchmark"
  | .chart => "perf_charts::chart"
  | .config => "perf_charts::config"
  | .viewer => "perf_charts::viewer"

structure Record where
  level : Level
  target : String
  message : String
  deriving DecidableEq, Repr

def Source.record (source : Source) (level : Level) (message : String) : Record :=
  ⟨level, source.target, message⟩

inductive Stream where
  | stdout
  | stderr
  deriving DecidableEq, Repr

/-- Prints the records up to a threshold under a label. -/
structure Logger where
  label : String := "perf-charts"
  threshold : Threshold := some .info
  deriving DecidableEq, Repr

namespace Logger

def enabled (logger : Logger) (level : Level) : Bool :=
  level.rank ≤ Threshold.rank logger.threshold

/-- Warnings and errors go to the error stream. -/
def stream : Level → Stream
  | .error | .warn => .stderr
  | _ => .stdout

/-- The line of a record without its time stamp: the level, and the label or, from debug
on, the record's own target. -/
def line (logger : Logger) (r : Record) : String :=
  let level := r.level.name.pushn ' ' (5 - r.level.name.length)
  let shown := if r.level.rank ≥ Level.debug.rank then r.target else logger.label
  level ++ " [" ++ shown ++ "] " ++ r.message

end Logger

end TimingCharts.Log
