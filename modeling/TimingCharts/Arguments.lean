import TimingCharts.Arguments.Similarity
import TimingCharts.Benchmark

/-!
# Command line arguments

The arguments are read from left to right: charts by name, flags and options with a value, in
any order. An argument that is refused says why; asking for help or the version refuses the
rest as well.
-/

namespace TimingCharts

namespace Arguments

def packageName : String := "perf-charts"
def packageVersion : String := "0.1.0"

inductive Single where
  | config
  | directory
  | showing
  deriving DecidableEq, Repr

def Single.usage : Single → String
  | .config => "--config <FILE>"
  | .directory => "--directory <DIR>"
  | .showing => "--show"

inductive Fault where
  | unexpected (argument : String) (suggestion : Option String)
  | invalidChart (value : String) (suggestion : Option String)
  | missingValue (option : Single)
  | givenTwice (argument : Single)
  | helpRequested
  | versionRequested
  deriving DecidableEq, Repr

/-- What is asked for when the charts are named. -/
inductive Choice where
  | all
  | one (benchmark : Benchmark)
  deriving DecidableEq, Repr

def choiceNames : List String := "all" :: Benchmark.all.map Benchmark.name

def Choice.ofName? (name : String) : Option Choice :=
  if name = "all" then some .all else (Benchmark.ofName? name).map .one

structure Matches where
  config : Option String := none
  directory : Option String := none
  showing : Bool := false
  verbosity : Nat := 0
  charts : List String := []
  /-- The options that have been named, with or without a value. -/
  named : List Single := []
  pending : Option Single := none
  /-- Whether only charts follow. -/
  chartsOnly : Bool := false
  deriving DecidableEq, Repr

namespace Matches

def setValue (m : Matches) (option : Single) (value : String) : Matches :=
  match option with
  | .config => { m with config := some value, pending := none }
  | .directory => { m with directory := some value, pending := none }
  | .showing => m

def name (m : Matches) (argument : Single) : Matches :=
  { m with named := m.named ++ [argument], pending := none }

/-- Names an option. A value that comes with it may have equals signs in front. -/
def option (m : Matches) (option : Single) (value : Option (List Char)) : Matches :=
  match value with
  | some value => (m.name option).setValue option (String.ofList (value.dropWhile (· == '=')))
  | none => { m.name option with pending := some option }

def longNames : List String := ["show", "verbose", "help", "version", "config", "directory"]

/-- A long argument, without the value a flag may be given. -/
def long (m : Matches) (text : List Char) : Except Fault Matches :=
  let body := text.dropWhile (· == '-')
  let word := String.ofList (body.takeWhile (· != '='))
  let value := if '=' ∈ body then some ((body.dropWhile (· != '=')).drop 1) else none
  match word with
  | "config" => .ok (m.option .config value)
  | "directory" => .ok (m.option .directory value)
  | "show" => .ok { m.name .showing with showing := true }
  | "verbose" => .ok { m with verbosity := m.verbosity + 1, pending := none }
  | "help" => .error .helpRequested
  | "version" => .error .versionRequested
  | word => .error (.unexpected ("--" ++ word) (Similarity.suggest word longNames))

/-- Short flags, up to an option that takes the rest as its value. -/
def short (m : Matches) : List Char → Except Fault Matches
  | [] => .ok m
  | 'C' :: rest => .ok (m.option .directory (if rest = [] then none else some rest))
  | 'v' :: rest => short { m with verbosity := m.verbosity + 1, pending := none } rest
  | 'h' :: _ => .error .helpRequested
  | 'V' :: _ => .error .versionRequested
  | c :: _ => .error (.unexpected (String.ofList ['-', c]) none)

def step (m : Matches) (argument : String) : Except Fault Matches :=
  let chart : Matches := { m with charts := m.charts ++ [argument] }
  if m.chartsOnly then .ok chart
  else match argument.toList with
    | ['-', '-'] => .ok { m with chartsOnly := true }
    | '-' :: '-' :: rest => m.long rest
    | '-' :: c :: rest => m.short (c :: rest)
    | _ =>
      match m.pending with
      | some option => .ok (m.setValue option argument)
      | none => .ok chart

def lacks (m : Matches) (option : Single) : Bool :=
  option ∈ m.named &&
    match option with
    | .config => m.config.isNone
    | .directory => m.directory.isNone
    | .showing => false

def check (m : Matches) (argument : Single) : Except Fault Unit :=
  if m.lacks argument then .error (.missingValue argument)
  else if m.named.count argument > 1 then .error (.givenTwice argument)
  else .ok ()

end Matches

end Arguments

structure Invocation where
  config : Option String := none
  directory : Option String := none
  showing : Bool := false
  verbosity : Nat := 0
  charts : List Arguments.Choice := []
  deriving DecidableEq, Repr

namespace Arguments

def choice (name : String) : Except Fault Choice :=
  match Choice.ofName? name with
  | some choice => .ok choice
  | none => .error (.invalidChart name (Similarity.suggest name choiceNames))

/-- Checks the values once all arguments are read: the option that still waits for one first. -/
def Matches.finish (m : Matches) : Except Fault Invocation := do
  if let some option := m.pending.filter m.lacks then throw (.missingValue option)
  [Single.config, .directory, .showing].forM m.check
  return ⟨m.config, m.directory, m.showing, m.verbosity, ← m.charts.mapM choice⟩

/-- Arguments that were refused, and the file name of the program they were given to. -/
structure Rejection where
  program : Option String
  fault : Fault
  deriving DecidableEq, Repr

/-- Reads the arguments. The first one names the program. -/
def parse : List String → Except Rejection Invocation
  | [] => .ok {}
  | program :: arguments =>
    (arguments.foldlM Matches.step {} >>= Matches.finish).mapError
      (⟨(Path.mk program).fileName?.map String.ofList, ·⟩)

namespace Rejection

def usageName (r : Rejection) : String := r.program.getD packageName

/-- The name beside the version: a program of several words is written with hyphens. -/
def titleName (r : Rejection) : String :=
  match r.program with
  | some name =>
    if ' ' ∈ name.toList then String.ofList (name.toList.map fun c => if c = ' ' then '-' else c)
    else packageName
  | none => packageName

def title (r : Rejection) : String := r.titleName ++ " " ++ packageVersion

def usage (r : Rejection) : String :=
  s!"USAGE:\n    {r.usageName} [FLAGS] [OPTIONS] [CHART]..."

def help (r : Rejection) : String :=
  r.title ++ "\n" ++
  "Render benchmark results as line charts\n" ++
  "\n" ++
  r.usage ++ "\n" ++
  "\n" ++
  "FLAGS:\n" ++
  "    -h, --help       Prints help information\n" ++
  "        --show       Open each chart in the default image viewer\n" ++
  "    -V, --version    Prints version information\n" ++
  "    -v, --verbose    Increase verbosity by one level. Can be used more than once\n" ++
  "\n" ++
  "OPTIONS:\n" ++
  "        --config <FILE>      TOML config file\n" ++
  "    -C, --directory <DIR>    Directory holding the result files and the charts\n" ++
  "\n" ++
  "ARGS:\n" ++
  "    <CHART>...    Chart to render, or 'all' [possible values: all, bubble-sort, merge-sort, " ++
  "merge-sort-threads,\n" ++
  "                  vector-addition]"

def green (text : String) : String := "\x1b[32m" ++ text ++ "\x1b[0m"

def complaint : Fault → String
  | .unexpected argument suggestion =>
    s!"error: Found argument '{argument}' which wasn't expected, or isn't valid in this context" ++
      (suggestion.map fun s => "\n\tDid you mean " ++ green "--" ++ green s ++ "?").getD ""
  | .invalidChart value suggestion =>
    s!"error: '{value}' isn't a valid value for '<CHART>...'\n\t[possible values: " ++
      ", ".intercalate choiceNames ++ "]\n" ++
      (suggestion.map fun s => "\n\tDid you mean '" ++ green s ++ "'?").getD ""
  | .missingValue option =>
    s!"error: The argument '{option.usage}' requires a value but none was supplied"
  | .givenTwice argument =>
    s!"error: The argument '{argument.usage}' was provided more than once, " ++
      "but cannot be used multiple times"
  | .helpRequested | .versionRequested => ""

/-- The text that goes with a rejection. The version is printed instead. -/
def message (r : Rejection) : String :=
  match r.fault with
  | .helpRequested => r.help
  | .versionRequested => ""
  | fault => complaint fault ++ "\n\n" ++ r.usage ++ "\n\nFor more information try --help"

/-- What is printed while the arguments are read. -/
def printed (r : Rejection) : String :=
  match r.fault with
  | .versionRequested => r.title
  | _ => ""

end Rejection

end Arguments

end TimingCharts
