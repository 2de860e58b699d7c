import TimingCharts.Rendering

/-!
# The program

A whole run, from the arguments to the exit code, as a value: what is printed, and the files
after it. Every chart that is asked for is attempted, whatever became of those before it.
-/

namespace TimingCharts.Program

/-- Something printed: a log line, which gets a time stamp, or a plain text. -/
structure Emission where
  stream : Log.Stream
  stamped : Bool
  text : String
  deriving DecidableEq, Repr

structure Exit where
  code : UInt8
  emissions : List Emission
  files : Files

def logged (logger : Log.Logger) (r : Log.Record) : List Emission :=
  if logger.enabled r.level then [⟨Log.Logger.stream r.level, true, logger.line r⟩] else []

def plain (stream : Log.Stream) (text : String) : Emission := ⟨stream, false, text⟩

def failureRecord (b : Benchmark) (failure : Failure) : Log.Record :=
  Log.Source.main.record .error s!"{b.name}: {failure.message}"

/-- What a chart adds to the output: its log, then where it was saved or why it was not. -/
def chartEmissions (logger : Log.Logger) (b : Benchmark) (o : Outcome Failure Rendered) :
    List Emission :=
  o.log.flatMap (logged logger) ++
    match o.result with
    | .ok rendered => [plain .stdout rendered.message]
    | .error failure => logged logger (failureRecord b failure)

/-- The charts attempted one after the other: each with its outcome. -/
def renderAll (r : Request) (viewer : Viewer) (charts : List Benchmark) (files : Files)
    (host : Host := .standard) : List (Benchmark × Outcome Failure Rendered) × Files :=
  match charts with
  | [] => ([], files)
  | b :: rest =>
    let outcome := b.render r viewer files host
    let (outcomes, files) := renderAll r viewer rest outcome.files host
    ((b, outcome) :: outcomes, files)

def failed (outcome : Outcome Failure Rendered) : Bool :=
  match outcome.result with
  | .ok _ => false
  | .error _ => true

def perform (r : Request) (viewer : Viewer) (files : Files) (host : Host := .standard) : Exit :=
  let logger : Log.Logger := { label := Arguments.packageName, threshold := r.threshold }
  let greeting := Log.Source.main.record .info
    s!"{Arguments.packageName} {Arguments.packageVersion} initializing..."
  let (outcomes, after) := renderAll r viewer r.charts files host
  let failures := (outcomes.filter fun (_, o) => failed o).length
  let summary := if failures = 0 then [] else logged logger (Log.Source.main.record .error
    s!"{failures} of {r.charts.length} charts failed")
  { code := if failures = 0 then 0 else 1
    emissions := (greeting :: r.report).flatMap (logged logger) ++
      outcomes.flatMap (fun (b, o) => chartEmissions logger b o) ++ summary
    files := after }

/-- Refuses to start. Help and version are what was asked for, and no error. -/
def refuse (failure : Failure) (files : Files) : Exit :=
  match failure with
  | .usage ⟨program, .helpRequested⟩ =>
    ⟨0, [plain .stdout (Arguments.Rejection.help ⟨program, .helpRequested⟩)], files⟩
  | .usage ⟨program, .versionRequested⟩ =>
    ⟨0, [plain .stdout (Arguments.Rejection.title ⟨program, .versionRequested⟩)], files⟩
  | failure => ⟨1, [plain .stderr failure.message], files⟩

/-- A whole run. The first argument names the program. -/
def run (arguments : List String) (viewer : Viewer) (files : Files) (host : Host := .standard) :
    Exit :=
  match Request.ofArguments files arguments with
  | .ok request => perform request viewer files host
  | .error failure => refuse failure files

end TimingCharts.Program
