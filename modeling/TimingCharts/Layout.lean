import TimingCharts.Sample
import TimingCharts.Number.Reading

/-!
# Layouts

How the columns of a results file map onto samples. A layout names its columns; `resolve`
finds them in a header row, and `samples` reads a record through them.
-/

namespace TimingCharts

/-- The columns of a results file, each given by an `χ`. -/
inductive Layout (χ : Type) where
  /-- One sample per record. -/
  | long (size variant time : χ) (threads : Option χ)
  /-- One timing column for each variant. -/
  | wide (size : χ) (variants : List χ) (threads : Option χ)
  deriving DecidableEq, Repr

/-- A column found in a header row. -/
structure Column where
  index : Nat
  name : String
  deriving DecidableEq, Repr

/-- A cell that does not hold what its column should. -/
structure BadCell where
  column : String
  value : String
  deriving DecidableEq, Repr

namespace Layout

/-- The layout with each column looked up, in the order size, variant, time, threads or size,
variants, threads. -/
def mapM {χ ψ ε : Type} (f : χ → Except ε ψ) : Layout χ → Except ε (Layout ψ)
  | .long size variant time threads =>
    return .long (← f size) (← f variant) (← f time) (← threads.mapM f)
  | .wide size variants threads =>
    return .wide (← f size) (← variants.mapM f) (← threads.mapM f)

/-- The first column of a name; the name itself if there is none. -/
def findColumn (headers : List String) (name : String) : Except String Column :=
  match headers.idxOf? name with
  | some index => .ok ⟨index, name⟩
  | none => .error name

/-- The columns in a header row, or the first name that is missing. -/
def resolve (layout : Layout String) (headers : List String) : Except String (Layout Column) :=
  layout.mapM (findColumn headers)

end Layout

namespace Column

def cell (c : Column) (fields : List String) : String := fields.getD c.index ""

/-- The value of a cell, or the cell if it cannot be read. -/
def readAs {α : Type} (c : Column) (read : List Char → Option α) (fields : List String) :
    Except BadCell α :=
  match read (c.cell fields).toList with
  | some value => .ok value
  | none => .error ⟨c.name, c.cell fields⟩

end Column

/-- A thread count: a whole number other than zero. -/
def readThreads (text : List Char) : Option UInt32 :=
  (readUInt32 text).filter (· != 0)

/-- The samples of one record. The cells are checked in the order size, time, threads or size,
threads, variants. -/
def Layout.samples (columns : Layout Column) (fields : List String) :
    Except BadCell (List (Sample Float)) :=
  match columns with
  | .long size variant time threads => do
    let size ← size.readAs readUInt64 fields
    let time ← time.readAs readFloat fields
    let threads ← threads.mapM (·.readAs readThreads fields)
    return [⟨size, time, variant.cell fields, threads⟩]
  | .wide size variants threads => do
    let size ← size.readAs readUInt64 fields
    let threads ← threads.mapM (·.readAs readThreads fields)
    variants.mapM fun variant => do
      return ⟨size, ← variant.readAs readFloat fields, variant.name, threads⟩

end TimingCharts
