import TimingCharts.Request

/-!
# Rendering a benchmark

Loads the results of a benchmark, plans its chart, draws it and, if asked to, opens it in a
viewer. What the viewer does is left to the system: it starts with a process number, or it
cannot be started.
-/

namespace TimingCharts

/-- What comes of starting the image viewer. -/
inductive Viewer where
  | missing
  | starts (process : String)
  deriving DecidableEq, Repr

structure Rendered where
  benchmark : Benchmark
  output : Path
  threads : Option UInt32
  deriving DecidableEq, Repr

def Rendered.message (r : Rendered) : String :=
  s!"Plot saved as {r.output.shown}" ++
    match r.threads with
    | some n => s!" (Threads detected: {n.toNat})"
    | none => ""

def Viewer.openLog (viewer : Viewer) (files : Files) (path : Path) : List Log.Record :=
  match files.find path, viewer with
  | .error _, _ =>
    [Log.Source.benchmark.record .warn
      s!"could not open {path.text}: '{path.text}' does not exist"]
  | .ok _, .missing =>
    [Log.Source.benchmark.record .warn
      s!"could not open {path.text}: {Files.Fault.notFound.message}"]
  | .ok _, .starts process =>
    [Log.Source.viewer.record .debug s!"viewer started for {path.text} (pid {process})"]

namespace Benchmark

def load (b : Benchmark) (r : Request) (files : Files) (host : Host := .standard) :
    Except Failure Table × List Log.Record :=
  let path := r.input b
  let fail (fault : Table.Fault) : Except Failure Table × List Log.Record :=
    (.error (.table path fault), [])
  match host.permit (.read path) (files.read path) with
  | .error .notFound => fail (.missingInput b.producer)
  | .error fault => fail (.unreadable (.files fault))
  | .ok content =>
    match Table.ofBytes path b.layout content.toBytes with
    | .error fault => fail fault
    | .ok table =>
      (.ok table, [Log.Source.table.record .debug
        s!"loaded {table.samples.length} rows from {path.text}"])

def draw (b : Benchmark) (r : Request) (viewer : Viewer) (table : Table) (files : Files)
    (host : Host := .standard) : Outcome Failure Rendered :=
  let threads := b.threads table
  let detected := threads.toList.map fun n =>
    Log.Source.benchmark.record .debug s!"{b.name}: threads detected: {n.toNat}"
  let (plan, planLog) := b.plan table
  let plot := { plan with width := r.width, height := r.height }
  let log := detected ++ planLog
  if plot.series.isEmpty then ⟨.error (.table table.source .empty), log, files⟩
  else
    let output := r.output b
    let drawn := plot.render output files host
    match drawn.result with
    | .error fault => ⟨.error (.drawing fault), log ++ drawn.log, drawn.files⟩
    | .ok () =>
      let shown := if r.opens then viewer.openLog drawn.files output else []
      ⟨.ok ⟨b, output, threads⟩, log ++ drawn.log ++ shown, drawn.files⟩

def render (b : Benchmark) (r : Request) (viewer : Viewer) (files : Files)
    (host : Host := .standard) : Outcome Failure Rendered :=
  match b.load r files host with
  | (.error failure, log) => ⟨.error failure, log, files⟩
  | (.ok table, log) =>
    let drawn := b.draw r viewer table files host
    { drawn with log := log ++ drawn.log }

end Benchmark

end TimingCharts
