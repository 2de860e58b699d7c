import TimingCharts.Benchmark
import TimingCharts.Number.Shortest
import TimingCharts.Toml.Document

/-!
# Settings

What a settings file can say, and how a document is read as settings. The document is read in
the order of its text, except that a section is read whole where its first table stands, and
the first problem is reported.
-/

namespace TimingCharts

structure General where
  directory : String := "."
  /-- Whether each chart is opened in a viewer. -/
  opens : Bool := false
  logging : Log.Level := .info
  width : UInt32 := 1000
  height : UInt32 := 600
  deriving DecidableEq, Repr

/-- File names in place of the usual ones. -/
structure Overrides where
  input : Option String := none
  output : Option String := none
  deriving DecidableEq, Repr

structure Settings where
  general : General := {}
  bubbleSort : Overrides := {}
  mergeSort : Overrides := {}
  mergeSortThreads : Overrides := {}
  vectorAddition : Overrides := {}
  deriving DecidableEq, Repr

namespace Settings

open Toml (Value Document)

def overrides (s : Settings) : Benchmark → Overrides
  | .bubbleSort => s.bubbleSort
  | .mergeSort => s.mergeSort
  | .mergeSortThreads => s.mergeSortThreads
  | .vectorAddition => s.vectorAddition

/-! ## Problems -/

inductive Problem where
  | unknownField (name : String) (expected : List String)
  | unknownLevel (name : String)
  | wrongType (found expected : String)
  | outOfRange (value : Int)
  | duplicateField (name : String)
  /-- The text or the shape of the document is wrong. -/
  | malformed
  deriving DecidableEq, Repr

structure Located where
  problem : Problem
  keys : List String := []
  deriving DecidableEq, Repr

def ticked (name : String) : String := "`" ++ name ++ "`"

/-- The names that would have been right. -/
def expectation : List String → String
  | [a, b] => s!"expected {ticked a} or {ticked b}"
  | names => "expected one of " ++ ", ".intercalate (names.map ticked)

def levelNames : List String := ["error", "warn", "info", "debug", "trace"]

def levels : List Log.Level := [.error, .warn, .info, .debug, .trace]

def levelOf? (name : String) : Option Log.Level := (levelNames.zip levels).lookup name

def Problem.message : Problem → String
  | .unknownField name expected => s!"unknown field {ticked name}, {expectation expected}"
  | .unknownLevel name => s!"unknown variant {ticked name}, {expectation levelNames}"
  | .wrongType found expected => s!"invalid type: {found}, expected {expected}"
  | .outOfRange value => s!"invalid value: integer {ticked (toString value)}, expected u32"
  | .duplicateField name => s!"duplicate field {ticked name}"
  | .malformed => "syntax error"

def Located.message (l : Located) : String :=
  if l.problem = .malformed ∨ l.keys = [] then l.problem.message
  else l.problem.message ++ " for key " ++ ticked (".".intercalate l.keys)

inductive Fault where
  | files (fault : Files.Fault)
  | notText
  | content (problem : Located)
  deriving DecidableEq, Repr

def Fault.message : Fault → String
  | .files fault => fault.message
  | .notText => "stream did not contain valid UTF-8"
  | .content problem => problem.message

/-! ## Fields -/

/-- What a field is given as: a value, or a table of its own whose header goes on below the
section with `path`. -/
inductive Given where
  | value (value : Value)
  | table (path : List String) (repeated : Bool) (entries : List (String × Value))

def describeValue : Value → String
  | .string text => "string " ++ Text.quoted text
  | .integer value => "integer " ++ ticked (toString value)
  | .float value => "floating point " ++ ticked (String.ofList (shortestText value))
  | .boolean value => "boolean " ++ ticked (toString value)
  | .array _ => "sequence"
  | .date | .table _ _ => "map"

def Given.describe : Given → String
  | .value v => describeValue v
  | .table [_] true _ => "sequence"
  | .table _ _ _ => "map"

def readString : Given → Except Problem String
  | .value (.string text) => .ok text
  | given => .error (.wrongType given.describe "a string")

def readBool : Given → Except Problem Bool
  | .value (.boolean value) => .ok value
  | given => .error (.wrongType given.describe "a boolean")

def readSize : Given → Except Problem UInt32
  | .value (.integer value) =>
    if 0 ≤ value ∧ value < UInt32.size then .ok (UInt32.ofNat value.toNat)
    else .error (.outOfRange value)
  | given => .error (.wrongType given.describe "u32")

def namedLevel (name : String) (empty : Bool) : Except Problem Log.Level :=
  match levelOf? name with
  | none => .error (.unknownLevel name)
  | some level => if empty then .ok level else .error .malformed

/-- A level is a name, or a table whose only key is the name of an empty table. A table of its
own is taken if the document has no other, and its last key is then the name. -/
def readLevel (alone : Bool) : Given → Except Problem Log.Level
  | .value (.string name) => namedLevel name true
  | .value (.table true [(name, value)]) =>
    namedLevel name (match value with
      | .table _ [] => true
      | _ => false)
  | .table path _ entries =>
    if alone then namedLevel (path.getLast?.getD "") entries.isEmpty else .error .malformed
  | _ => .error .malformed

/-! ## Sections -/

inductive Member where
  | value (value : Value)
  | tables (tables : List Toml.Table)

/-- One thing in a section: a field, or a second table with the section's own header. -/
inductive Item where
  | field (key : String) (given : Given)
  | again

def itemsOf (opened : Bool) : List Toml.Table → List Item
  | [] => []
  | table :: rest =>
    match table.header with
    | _ :: key :: path => .field key (.table (key :: path) table.repeated table.entries) ::
        itemsOf opened rest
    | _ =>
      (if opened then [.again] else table.entries.map fun (key, value) => .field key (.value value))
        ++ itemsOf true rest

/-- How the fields of a section are read into a `δ`. -/
structure Schema (δ : Type) where
  title : String
  start : δ
  /-- Reads the field of a name that has not been seen. -/
  put : δ → String → Given → Except Problem δ
  seen : δ → String → Bool
  names : List String
  /-- Reads a section that is given as the values of its fields in order. -/
  positional : List Value → Except Problem δ

variable {δ : Type}

/-- Reads one item. A problem with its value is located at its key if `keyed`. -/
def Schema.readItem (schema : Schema δ) (keyed : Bool) (draft : δ) : Item → Except Located δ
  | .again => .error ⟨.malformed, []⟩
  | .field key given =>
    if key ∉ schema.names then .error ⟨.unknownField key schema.names, []⟩
    else if schema.seen draft key then .error ⟨.duplicateField key, []⟩
    else (schema.put draft key given).mapError fun p => ⟨p, if keyed then [key] else []⟩

/-- The key under which a date holds its text. -/
def dateKey : String := "$__toml_private_datetime"

def Schema.read (schema : Schema δ) : Member → Except Located δ
  | .value (.array items) => (schema.positional items).mapError (⟨·, []⟩)
  | .value (.table _ entries) =>
    (entries.map fun (key, value) => Item.field key (.value value)).foldlM
      (schema.readItem false) schema.start
  | .value .date => .error ⟨.unknownField dateKey schema.names, []⟩
  | .value value => .error ⟨.wrongType (describeValue value) s!"struct {schema.title}", []⟩
  -- tables in double brackets are a list of tables, and no section starts with a table
  | .tables (⟨[_], true, _⟩ :: _) => .error ⟨.wrongType "map" "a string", []⟩
  | .tables tables => (itemsOf false tables).foldlM (schema.readItem true) schema.start

structure GeneralDraft where
  directory : Option String := none
  opens : Option Bool := none
  logging : Option Log.Level := none
  width : Option UInt32 := none
  height : Option UInt32 := none

/-- The settings with the usual value of each field that has not been seen. -/
def GeneralDraft.finish (d : GeneralDraft) : General where
  directory := d.directory.getD ({} : General).directory
  opens := d.opens.getD ({} : General).opens
  logging := d.logging.getD ({} : General).logging
  width := d.width.getD ({} : General).width
  height := d.height.getD ({} : General).height

def generalNames : List String := ["directory", "show", "logging", "width", "height"]

def putGeneral (alone : Bool) (d : GeneralDraft) (key : String) (given : Given) :
    Except Problem GeneralDraft :=
  match key with
  | "directory" => return { d with directory := some (← readString given) }
  | "show" => return { d with opens := some (← readBool given) }
  | "logging" => return { d with logging := some (← readLevel alone given) }
  | "width" => return { d with width := some (← readSize given) }
  | "height" => return { d with height := some (← readSize given) }
  | _ => return d

/-- Reads values in the order of `names`; values that are left over are an error. -/
def putInOrder (put : δ → String → Given → Except Problem δ) :
    δ → List String → List Value → Except Problem δ
  | d, _, [] => .ok d
  | _, [], _ :: _ => .error .malformed
  | d, name :: names, value :: values => do
    putInOrder put (← put d name (.value value)) names values

def generalSchema (alone : Bool) : Schema GeneralDraft where
  title := "General"
  start := {}
  names := generalNames
  put := putGeneral alone
  seen d key := match key with
    | "directory" => d.directory.isSome
    | "show" => d.opens.isSome
    | "logging" => d.logging.isSome
    | "width" => d.width.isSome
    | "height" => d.height.isSome
    | _ => false
  positional := putInOrder (putGeneral alone) {} generalNames

def overrideNames : List String := ["input", "output"]

def putOverride (d : Overrides) (key : String) (given : Given) : Except Problem Overrides :=
  match key with
  | "input" => return { d with input := some (← readString given) }
  | "output" => return { d with output := some (← readString given) }
  | _ => return d

def overridesSchema : Schema Overrides where
  title := "Overrides"
  start := {}
  names := overrideNames
  put := putOverride
  seen d key := match key with
    | "input" => d.input.isSome
    | "output" => d.output.isSome
    | _ => false
  -- by position both names must be given
  positional values := do
    let d ← putInOrder putOverride {} overrideNames values
    if values.length < 2 then throw .malformed
    return d

/-! ## Documents -/

def addTable (table : Toml.Table) (name : String) :
    List (String × List Toml.Table) → List (String × List Toml.Table)
  | [] => [(name, [table])]
  | (n, tables) :: rest =>
    if n = name then (n, tables ++ [table]) :: rest else (n, tables) :: addTable table name rest

/-- The sections of a document, in the order in which they are read. -/
def members (doc : Document) : List (String × Member) :=
  let sections := doc.tables.foldl
    (fun sections table => addTable table (table.header.head?.getD "") sections) []
  doc.root.map (fun (key, value) => (key, .value value)) ++
    sections.map fun (name, tables) => (name, .tables tables)

structure Draft where
  general : Option General := none
  bubbleSort : Option Overrides := none
  mergeSort : Option Overrides := none
  mergeSortThreads : Option Overrides := none
  vectorAddition : Option Overrides := none

def Draft.finish (d : Draft) : Settings where
  general := d.general.getD {}
  bubbleSort := d.bubbleSort.getD {}
  mergeSort := d.mergeSort.getD {}
  mergeSortThreads := d.mergeSortThreads.getD {}
  vectorAddition := d.vectorAddition.getD {}

def sectionNames : List String := "general" :: Benchmark.all.map Benchmark.name

def readMember (alone : Bool) (d : Draft) (name : String) (member : Member) :
    Except Located Draft := do
  let inSection {α : Type} (seen : Option α) (r : Except Located α) : Except Located α :=
    if seen.isSome then .error ⟨.duplicateField name, []⟩
    else r.mapError fun l => { l with keys := name :: l.keys }
  let names (seen : Option Overrides) := inSection seen (overridesSchema.read member)
  match name with
  | "general" =>
    let read := (generalSchema alone).read member
    return { d with general := some (← inSection d.general (GeneralDraft.finish <$> read)) }
  | "bubble-sort" => return { d with bubbleSort := some (← names d.bubbleSort) }
  | "merge-sort" => return { d with mergeSort := some (← names d.mergeSort) }
  | "merge-sort-threads" => return { d with mergeSortThreads := some (← names d.mergeSortThreads) }
  | "vector-addition" => return { d with vectorAddition := some (← names d.vectorAddition) }
  | _ => throw ⟨.unknownField name sectionNames, []⟩

def isAlone (doc : Document) : Bool := doc.root.isEmpty && doc.tables.length == 1

def ofDocument (doc : Document) : Except Located Settings := do
  let draft ← (members doc).foldlM
    (fun d (name, member) => readMember (isAlone doc) d name member) {}
  return draft.finish

def parse (text : List Char) : Except Fault Settings :=
  match Document.parse? text with
  | none => .error (.content ⟨.malformed, []⟩)
  | some doc => (ofDocument doc).mapError .content

end Settings

end TimingCharts
