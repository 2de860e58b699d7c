import TimingCharts.Failure
import TimingCharts.Image.Encoding

/-!
# Requests

What a run of the program is asked to do: the settings file merged with the command line.
-/

namespace TimingCharts

def Content.toBytes : Content → List UInt8
  | .bytes data => data
  | .image i => i.encode

/-- Which charts to draw, where and how. -/
structure Request where
  directory : Path
  opens : Bool
  threshold : Log.Threshold
  width : UInt32
  height : UInt32
  charts : List Benchmark
  settings : Settings
  deriving DecidableEq, Repr

def Settings.load (files : Files) (file : String) : Except Failure Settings :=
  let settings : Except Settings.Fault Settings := do
    let content ← (files.read ⟨file⟩).mapError .files
    let text ← (Text.decode content.toBytes).mapError fun _ => Fault.notText
    Settings.parse text
  settings.mapError (.settings file)

namespace Request

/-- The request that settings alone make: every chart. -/
def ofSettings (s : Settings) : Request where
  directory := ⟨s.general.directory⟩
  opens := s.general.opens
  threshold := some s.general.logging
  width := s.general.width
  height := s.general.height
  charts := Benchmark.all
  settings := s

/-- The charts chosen, each at its first mention; all of them if none is or all are asked for. -/
def chosen (choices : List Arguments.Choice) : List Benchmark :=
  if choices = [] ∨ .all ∈ choices then Benchmark.all
  else choices.foldl (fun charts choice =>
    match choice with
    | .one b => if b ∈ charts then charts else charts ++ [b]
    | .all => charts) []

/-- The request of a command line over some settings. -/
def ofInvocation (i : Invocation) (s : Settings) : Request :=
  let r := ofSettings s
  { r with
    directory := (i.directory.map Path.mk).getD r.directory
    opens := r.opens || i.showing
    threshold := r.threshold.raise i.verbosity
    charts := chosen i.charts }

/-- The request of a list of arguments, the first of which names the program. -/
def ofArguments (files : Files) (arguments : List String) : Except Failure Request := do
  let invocation ← (Arguments.parse arguments).mapError .usage
  match invocation.config with
  | some file => return ofInvocation invocation (← Settings.load files file)
  | none => return ofInvocation invocation {}

def input (r : Request) (b : Benchmark) : Path :=
  r.directory.join ((r.settings.overrides b).input.getD b.inputName)

def output (r : Request) (b : Benchmark) : Path :=
  r.directory.join ((r.settings.overrides b).output.getD b.outputName)

def report (r : Request) : List Log.Record :=
  [ "-----",
    s!"Directory: {r.directory.text}",
    "Charts: " ++ ", ".intercalate (r.charts.map Benchmark.name),
    s!"Image size: {r.width.toNat}x{r.height.toNat}",
    s!"Show: {r.opens}",
    "-----" ].map (Log.Source.config.record .info)

end Request

end TimingCharts
