import TimingCharts.Path
import TimingCharts.Image

/-!
# Files

The files a program works on, as a value: what stands at each location below the root, and
the directory that relative paths start from. Each operation resolves a path step by step
and says why it cannot when it cannot. A file that is read is looked for behind the links at its
location; all changes are made at the location itself. So these are files of which no two
locations share one and none is written through a link, and only files are linked to, not
directories.
-/

namespace TimingCharts

inductive Content where
  | bytes (data : List UInt8)
  | image (image : Image)

/-- The names from the root to a file, the last one first. -/
abbrev Location := List (List Char)

inductive Node where
  | directory
  | file (content : Content)
  /-- A symbolic link. -/
  | link (dest : Location)

structure Files where
  /-- The directory that relative paths start from. -/
  workingDirectory : Location
  /-- What stands where. The root is a directory that is always there. -/
  nodes : List (Location × Node)

namespace Files

inductive Fault where
  | notFound
  | busy
  | notDirectory
  | isDirectory
  | nameTooLong
  | tooManyLinks
  | nullInPath
  /-- The system forbids it, for a reason of its own. -/
  | refused (reason : String)
  deriving DecidableEq, Repr

/-- The words of the operating system. -/
def Fault.message : Fault → String
  | .notFound => "No such file or directory (os error 2)"
  | .busy => "Device or resource busy (os error 16)"
  | .notDirectory => "Not a directory (os error 20)"
  | .isDirectory => "Is a directory (os error 21)"
  | .nameTooLong => "File name too long (os error 36)"
  | .tooManyLinks => "Too many levels of symbolic links (os error 40)"
  | .nullInPath => "file name contained an unexpected NUL byte"
  | .refused reason => reason

def get? (files : Files) : Location → Option Node
  | [] => some .directory
  | location => files.nodes.lookup location

def erase (files : Files) (location : Location) : Files :=
  { files with nodes := files.nodes.filter (·.1 != location) }

def insert (files : Files) (location : Location) (node : Node) : Files :=
  { files with nodes := (location, node) :: (files.erase location).nodes }

/-- Where a path leads: a directory, and the last step taken there. -/
structure Target where
  directory : Location
  /-- The last step, or `none` if it is `.`, `..` or missing. -/
  name : Option (List Char)
  /-- Where the last step leads. -/
  location : Location
  /-- Whether a separator follows the last step. -/
  slash : Bool
  deriving DecidableEq, Repr

/-- The longest name and the longest path, in bytes. -/
def nameLimit : Nat := 255
def pathLimit : Nat := 4095

/-- One step down from a directory that is there. -/
def enter (files : Files) (directory : Location) (step : List Char) : Except Fault Location :=
  if step = ['.'] then .ok directory
  else if step = ['.', '.'] then .ok directory.tail
  else if (String.ofList step).utf8ByteSize > nameLimit then .error .nameTooLong
  else match files.get? (step :: directory) with
    | some .directory => .ok (step :: directory)
    | some _ => .error .notDirectory
    | none => .error .notFound

/-- Resolves all of a path but its last step. -/
def resolve (files : Files) (path : Path) : Except Fault Target := do
  let text := path.text.toList
  if '\x00' ∈ text then throw .nullInPath
  if text = [] then throw .notFound
  if path.text.utf8ByteSize > pathLimit then throw .nameTooLong
  let start := if path.isAbsolute then [] else files.workingDirectory
  let steps := (Path.pieces text).filter (· ≠ [])
  let directory ← steps.dropLast.foldlM files.enter start
  let slash := text.getLast? = some '/'
  match steps.getLast? with
  | none => return ⟨directory, none, directory, slash⟩
  | some step =>
    if step = ['.'] then return ⟨directory, none, directory, slash⟩
    if step = ['.', '.'] then return ⟨directory, none, directory.tail, slash⟩
    if (String.ofList step).utf8ByteSize > nameLimit then throw .nameTooLong
    return ⟨directory, some step, step :: directory, slash⟩

/-- What stands at a path. -/
def entry (files : Files) (path : Path) : Except Fault (Location × Node) := do
  let target ← files.resolve path
  match files.get? target.location with
  | none => throw .notFound
  | some .directory => return (target.location, .directory)
  | some node =>
    if target.slash then throw .notDirectory
    return (target.location, node)

/-- How many links are followed to a file. -/
def linkLimit : Nat := 40

/-- Where the links from a location lead, if no more than so many are followed. -/
def follow (files : Files) : Nat → Location → Location
  | 0, location => location
  | limit + 1, location =>
    match files.get? location with
    | some (.link dest) => files.follow limit dest
    | _ => location

/-- What is found behind a path: what stands there, or what the links there lead to. -/
def find (files : Files) (path : Path) : Except Fault (Location × Node) := do
  let (first, _) ← files.entry path
  let location := files.follow linkLimit first
  match files.get? location with
  | none => throw .notFound
  | some (.link _) => throw .tooManyLinks
  | some node => return (location, node)

def read (files : Files) (path : Path) : Except Fault Content := do
  match ← files.find path with
  | (_, .file content) => return content
  | _ => throw .isDirectory

/-- Writes a file, in place of a file or a link that is there. -/
def write (files : Files) (path : Path) (content : Content) : Except Fault Files := do
  let target ← files.resolve path
  if target.name.isNone || target.slash then throw .isDirectory
  match files.get? target.location with
  | some .directory => throw .isDirectory
  | _ => return files.insert target.location (.file content)

/-- Whether a file can be written at a path. -/
def writable (files : Files) (path : Path) : Bool := (files.write path (.bytes [])).isOk

def remove (files : Files) (path : Path) : Except Fault Files := do
  match ← files.entry path with
  | (_, .directory) => throw .isDirectory
  | (location, _) => return files.erase location

/-- Gives a file another path, in place of a file or a link that is there. -/
def rename (files : Files) (source dest : Path) : Except Fault Files := do
  let old ← files.resolve source
  let new ← files.resolve dest
  if old.name.isNone || new.name.isNone then throw .busy
  match files.get? old.location with
  | none => throw .notFound
  | some .directory => throw .isDirectory
  | some node =>
    if old.slash || new.slash then throw .notDirectory
    match files.get? new.location with
    | some .directory => throw .isDirectory
    | _ => return (files.erase old.location).insert new.location node

end Files

end TimingCharts
