import TimingCharts.Average
import TimingCharts.Plot
import TimingCharts.Table

/-!
# Benchmarks

The four benchmarks whose results can be charted: where their results are found, how the
files are laid out, and which series the chart of a table shows.
-/

namespace TimingCharts

inductive Benchmark where
  | bubbleSort
  | mergeSort
  | mergeSortThreads
  | vectorAddition
  deriving DecidableEq, Repr

namespace Benchmark

def all : List Benchmark := [.bubbleSort, .mergeSort, .mergeSortThreads, .vectorAddition]

def name : Benchmark → String
  | .bubbleSort => "bubble-sort"
  | .mergeSort => "merge-sort"
  | .mergeSortThreads => "merge-sort-threads"
  | .vectorAddition => "vector-addition"

def ofName? (name : String) : Option Benchmark := all.find? (·.name == name)

def inputName : Benchmark → String
  | .bubbleSort => "benchmark_results.csv"
  | .mergeSort => "results.csv"
  | .mergeSortThreads => "parallel_results.csv"
  | .vectorAddition => "vector_results.csv"

def outputName : Benchmark → String
  | .bubbleSort => "sort_performance_analysis.png"
  | .mergeSort => "mergesort_performance.png"
  | .mergeSortThreads => "mergesort_serial_vs_parallel.png"
  | .vectorAddition => "vector_performance.png"

def producer : Benchmark → String
  | .bubbleSort => "C++ bubble sort benchmark"
  | .mergeSort => "C merge sort benchmark"
  | .mergeSortThreads => "C parallel merge sort benchmark"
  | .vectorAddition => "C vector addition benchmark"

def layout : Benchmark → Layout String
  | .bubbleSort => .wide "Size" ["Normal", "Optimized", "Parallel"] none
  | .mergeSort => .long "n" "method" "time" none
  | .mergeSortThreads => .long "n" "method" "time" (some "threads")
  | .vectorAddition =>
    .wide "Size" ["Sequential", "Parallel_Chunked", "Parallel_Interleaved"] (some "Threads")

/-- The thread count that is reported with the chart. -/
def threads (b : Benchmark) (table : Table) : Option UInt32 :=
  match b with
  | .vectorAddition => table.firstThreads
  | .mergeSortThreads => table.maxThreads
  | _ => none

/-- A series of a chart before its samples are selected. -/
structure Line where
  name : String
  selector : Selector
  style : Style
  deriving DecidableEq, Repr

/-- The series a chart shows, in order. `count` is the thread count in the names. -/
def lines (b : Benchmark) (count : String) : List Line :=
  match b with
  | .bubbleSort =>
    [⟨"Normal Bubble Sort", { variant := "Normal" }, (Style.ofPalette 0 .circle).dashed⟩,
     ⟨"Optimized (Flag) Sort", { variant := "Optimized" }, Style.ofPalette 1 .square⟩,
     ⟨"Parallel Odd-Even Sort", { variant := "Parallel" },
      (Style.ofPalette 2 .triangle).withWidth 3⟩]
  | .mergeSort =>
    [⟨"Recursive", { variant := "recursive" }, Style.ofPalette 0 .circle⟩,
     ⟨"Iterative", { variant := "iterative" }, Style.ofPalette 1 .square⟩]
  | .mergeSortThreads =>
    [⟨"Recursive (Serial)", { variant := "recursive", mode := .serial },
      Style.ofPalette 0 .circle⟩,
     ⟨"Iterative (Serial)", { variant := "iterative", mode := .serial },
      Style.ofPalette 1 .square⟩,
     ⟨s!"Recursive (Parallel, {count} threads)", { variant := "recursive", mode := .parallel },
      (Style.ofPalette 0 .triangle).dashed⟩,
     ⟨s!"Iterative (Parallel, {count} threads)", { variant := "iterative", mode := .parallel },
      (Style.ofPalette 1 .cross).dashed⟩]
  | .vectorAddition =>
    [⟨"Sequential", { variant := "Sequential" }, Style.ofPalette 0 .circle⟩,
     ⟨"Parallel (Chunked/Good)", { variant := "Parallel_Chunked" }, Style.ofPalette 2 .square⟩,
     ⟨"Parallel (Interleaved/False Sharing)", { variant := "Parallel_Interleaved" },
      (Style.ofPalette 3 .triangle).dashed⟩]

/-- The thread count as captions and names show it. -/
def countText (b : Benchmark) (table : Table) : String :=
  match b.threads table, b with
  | some n, _ => toString n.toNat
  | none, .vectorAddition => "?"
  | none, _ => "1"

def frame (b : Benchmark) (count : String) : Plot :=
  match b with
  | .bubbleSort =>
    { scale := .linear
      caption := "Bubble Sort Performance Benchmark"
      xDescription := "Array Size (N)"
      yDescription := "Time (Seconds)"
      xFormat := .abbreviated }
  | .mergeSort =>
    { scale := .log
      caption := "Merge Sort Time Complexity (Sequential)"
      xDescription := "Number of elements (n)"
      yDescription := "Time (seconds)"
      xFormat := .abbreviated
      yFormat := .seconds }
  | .mergeSortThreads =>
    { scale := .log
      caption := s!"Merge Sort: Serial vs Parallel ({count} Threads)"
      xDescription := "Number of elements (n)"
      yDescription := "Time (seconds)"
      xFormat := .abbreviated
      yFormat := .seconds }
  | .vectorAddition =>
    { scale := .linear
      caption := s!"Vector Addition Performance ({count} Threads)"
      xDescription := "Vector Size (Elements)"
      yDescription := "Time (Seconds)"
      sizeTicks := true
      xFormat := .millions }

/-- The chart of a table, and what is reported while it is planned. -/
def plan (b : Benchmark) (table : Table) : Plot × List Log.Record :=
  let averaged := average table.samples
  let count := b.countText table
  let note := Log.Source.benchmark.record .trace
    s!"{b.name}: {table.samples.length} rows averaged into {averaged.length}"
  let series := (b.lines count).map fun line =>
    (Series.select line.name averaged line.selector, line.style)
  let (plot, log) := (b.frame count).addAll series
  (plot, note :: log)

end Benchmark

end TimingCharts
