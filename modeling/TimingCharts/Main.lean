import Std.Time
import TimingCharts.Program

/-!
# The command line

Takes in the files that a run can reach, runs the program on them, makes its changes to the
files and prints what it says.
-/

namespace TimingCharts.CommandLine

def pathText (location : Location) : String :=
  "/" ++ "/".intercalate (location.reverse.map String.ofList)

def locationOf (path : String) : Location :=
  ((Path.pieces path.toList).filter (· ≠ [])).reverse

/-- The locations that a list of steps passes through. -/
def trail (here : Location) : List (List Char) → List Location
  | [] => [here]
  | ['.'] :: rest => trail here rest
  | ['.', '.'] :: rest => here :: trail here.tail rest
  | step :: rest => here :: trail (step :: here) rest

def locations (workingDirectory : Location) (path : Path) : List Location :=
  trail (if path.isAbsolute then [] else workingDirectory)
    ((Path.pieces path.text.toList).filter (· ≠ []))

/-- What stands at a location. Links are taken in as the files they lead to. -/
def look (location : Location) : IO (Option Node) := do
  let path := (← IO.currentDir) / pathText location
  if ← path.isDir then return some .directory
  else if ← path.pathExists then
    return some (.file (.bytes (← IO.FS.readBinFile path).toList))
  else return none

def takeIn (files : Files) (paths : List Path) : IO Files :=
  (paths.flatMap (locations files.workingDirectory)).eraseDups.foldlM
    (fun files location => do
      match ← look location with
      | some node => return files.insert location node
      | none => return files) files

/-- The files that a run with some arguments can reach. -/
def reachable (arguments : List String) : IO Files := do
  let files : Files := ⟨locationOf (← IO.currentDir).toString, []⟩
  let config := match Arguments.parse arguments with
    | .ok invocation => invocation.config.toList.map Path.mk
    | .error _ => []
  let files ← takeIn files config
  match Request.ofArguments files arguments with
  | .ok request =>
    takeIn files (request.charts.flatMap fun b =>
      [request.input b, request.output b, (request.output b).scratch])
  | .error _ => return files

/-- Makes the changes of a run: new images are written, and files that are gone removed. -/
def commit (before after : Files) : IO Unit := do
  for (location, node) in after.nodes do
    if let .file (.image image) := node then
      IO.FS.writeBinFile (pathText location) ⟨image.encode.toArray⟩
  for (location, node) in before.nodes do
    if let .file _ := node then
      if (after.get? location).isNone then IO.FS.removeFile (pathText location)

/-- The time of day as it stands in front of a line of the log. -/
def stamp : IO String := do
  return (← Std.Time.PlainDateTime.now).format "uuuu-MM-dd HH:mm:ss.SSS" ++ " "

/-- Prints a text, with the time of day in front if it is a line of the log. -/
def emit (e : Program.Emission) : IO Unit := do
  let time ← if e.stamped then stamp else pure ""
  match e.stream with
  | .stdout => IO.println (time ++ e.text)
  | .stderr => IO.eprintln (time ++ e.text)

/-- Draws the charts that the arguments ask for. No viewer is at hand here. -/
def run (arguments : List String) : IO UInt32 := do
  let arguments := (← IO.appPath).toString :: arguments
  let before ← reachable arguments
  let exit := Program.run arguments .missing before
  commit before exit.files
  exit.emissions.forM emit
  return exit.code.toUInt32

end TimingCharts.CommandLine

def main (arguments : List String) : IO UInt32 := TimingCharts.CommandLine.run arguments
