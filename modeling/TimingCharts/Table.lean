import TimingCharts.Delimited
import TimingCharts.Files
import TimingCharts.Layout
import TimingCharts.Log
import TimingCharts.Text.Blank
import TimingCharts.Text.Quoted
import TimingCharts.Text.Utf8

/-!
# Tables of results

A table is read from comma separated text: the header row must hold the columns of the layout,
and the first faulty record decides the error.
-/

namespace TimingCharts

/-- The samples of a results file, in file order. -/
structure Table where
  source : Path
  samples : List (Sample Float)

namespace Table

inductive Unreadable where
  | files (fault : Files.Fault)
  /-- A record has another number of fields than the header. -/
  | fieldCount (position : Delimited.Position) (found expected : Nat)
  /-- A field is no text from a byte on. -/
  | notText (position : Delimited.Position) (field byte : Nat)
  deriving DecidableEq, Repr

def Unreadable.message : Unreadable → String
  | .files fault => fault.message
  | .fieldCount p found expected =>
    s!"CSV error: record {p.record} (line: {p.line}, byte: {p.byte}): found record with " ++
      s!"{found} fields, but the previous record has {expected} fields"
  | .notText p field byte =>
    s!"CSV parse error: record {p.record} (line {p.line}, field: {field}, byte: {p.byte}): " ++
      s!"invalid utf-8: invalid UTF-8 in field {field} near byte index {byte}"

inductive Fault where
  /-- There is no file; `producer` is the program that writes it. -/
  | missingInput (producer : String)
  | missingColumn (column : String)
  | invalidValue (line : Nat) (column value : String)
  | empty
  | unreadable (cause : Unreadable)
  deriving DecidableEq, Repr

def Fault.message (file : Path) : Fault → String
  | .missingInput producer => s!"'{file.text}' not found. Run the {producer} first."
  | .missingColumn column => s!"'{file.text}' has no '{column}' column"
  | .invalidValue line column value =>
    s!"'{file.text}' line {line}: invalid value {Text.quoted value} in column '{column}'"
  | .empty => s!"'{file.text}' contains no results"
  | .unreadable cause => s!"failed to read '{file.text}': {cause.message}"

/-- White space that is trimmed before a field is decoded. -/
def isAsciiBlank (b : UInt8) : Bool :=
  b == 0x20 || b == 0x09 || b == 0x0A || b == 0x0C || b == 0x0D

/-- The fields as texts without white space at their ends, or the first that is no text. -/
def texts (position : Delimited.Position) (fields : List (List UInt8)) :
    Except Fault (List String) :=
  go 0 fields
where
  go (index : Nat) : List (List UInt8) → Except Fault (List String)
    | [] => .ok []
    | field :: rest =>
      match Text.decode field with
      | .ok text => return String.ofList (Text.trim text) :: (← go (index + 1) rest)
      | .error byte => .error (.unreadable (.notText position index byte))

def recordSamples (columns : Layout Column) (width : Nat) (record : Delimited.Record) :
    Except Fault (List (Sample Float)) := do
  if record.fields.length ≠ width then
    throw (.unreadable (.fieldCount record.position record.fields.length width))
  let fields ← texts record.position (record.fields.map (Text.trimBy isAsciiBlank))
  match columns.samples fields with
  | .ok samples => return samples
  | .error cell => throw (.invalidValue record.position.line cell.column cell.value)

def samplesOf (layout : Layout String) : List Delimited.Record → Except Fault (List (Sample Float))
  | [] => do
    let _ ← columnsOf []
    throw .empty
  | header :: records => do
    let columns ← columnsOf (← texts header.position header.fields)
    let samples ← records.mapM (recordSamples columns header.fields.length)
    if samples.flatten.isEmpty then throw .empty
    return samples.flatten
where
  columnsOf (headers : List String) : Except Fault (Layout Column) :=
    (layout.resolve headers).mapError .missingColumn

def ofBytes (source : Path) (layout : Layout String) (bytes : List UInt8) : Except Fault Table :=
  return ⟨source, ← samplesOf layout (Delimited.records bytes)⟩

def firstThreads (table : Table) : Option UInt32 := table.samples.head?.bind Sample.threads

def maxThreads (table : Table) : Option UInt32 := (table.samples.filterMap Sample.threads).max?

end Table

end TimingCharts
