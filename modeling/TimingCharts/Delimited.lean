/-!
# Comma separated records

A text is split into records by a machine that takes one byte at a time. A record ends at a
line feed or carriage return; any run of these before a record is skipped. A quote that is
the first byte of a field opens it, and inside two quotes stand for one.
-/

namespace TimingCharts.Delimited

def comma : UInt8 := 0x2C
def quote : UInt8 := 0x22
def lineFeed : UInt8 := 0x0A
def carriageReturn : UInt8 := 0x0D

def isTerminator (b : UInt8) : Bool := b == lineFeed || b == carriageReturn

/-- Where a record starts to be looked for: just after the one before it. -/
structure Position where
  /-- Counted from zero. -/
  record : Nat := 0
  /-- One more than the line feeds before. -/
  line : Nat := 1
  /-- The bytes before. -/
  byte : Nat := 0
  deriving DecidableEq, Repr

structure Record where
  position : Position
  fields : List (List UInt8)
  deriving DecidableEq, Repr

/-- What the next byte can be. -/
inductive Stage where
  /-- Between records. -/
  | between
  /-- The first byte of a field. -/
  | opening
  /-- Inside a field without quotes. -/
  | plain
  /-- Inside a quoted field. -/
  | quoted
  /-- After a quote inside a quoted field. -/
  | closing
  deriving DecidableEq, Repr

structure Scanner where
  stage : Stage := .between
  /-- The position of the record that is read or looked for. -/
  position : Position := {}
  line : Nat := 1
  byte : Nat := 0
  fields : List (List UInt8) := []
  field : List UInt8 := []
  deriving DecidableEq, Repr

namespace Scanner

def count (s : Scanner) (b : UInt8) : Scanner :=
  { s with byte := s.byte + 1, line := if b = lineFeed then s.line + 1 else s.line }

def push (s : Scanner) (b : UInt8) (stage : Stage) : Scanner :=
  { s with field := s.field ++ [b], stage }

def endField (s : Scanner) : Scanner :=
  { s with fields := s.fields ++ [s.field], field := [], stage := .opening }

def record (s : Scanner) : Record := ⟨s.position, s.fields ++ [s.field]⟩

def endRecord (s : Scanner) : Scanner where
  position := ⟨s.position.record + 1, s.line, s.byte⟩
  line := s.line
  byte := s.byte

/-- A byte outside quotes: it ends the field, ends the record or does as `otherwise` says. -/
def outside (s : Scanner) (b : UInt8) (otherwise : Scanner) : Scanner × Option Record :=
  if b = comma then (s.endField, none)
  else if isTerminator b then (s.endRecord, some s.record)
  else (otherwise, none)

/-- The machine after one byte, and the record that ends there. -/
def step (s : Scanner) (b : UInt8) : Scanner × Option Record :=
  let s := s.count b
  let opened := if b = quote then { s with stage := .quoted } else s.push b .plain
  match s.stage with
  | .between => if isTerminator b then (s, none) else s.outside b opened
  | .opening => s.outside b opened
  | .plain => s.outside b (s.push b .plain)
  | .quoted => (if b = quote then { s with stage := .closing } else s.push b .quoted, none)
  | .closing => if b = quote then (s.push b .quoted, none) else s.outside b (s.push b .plain)

/-- The records that end while `bytes` are read, and the one left open at the end. -/
def run (s : Scanner) : List UInt8 → List Record
  | [] => if s.stage = .between then [] else [s.record]
  | b :: rest =>
    match s.step b with
    | (s, some record) => record :: s.run rest
    | (s, none) => s.run rest

end Scanner

/-- The records of a text; a byte order mark at its front is skipped. -/
def records : List UInt8 → List Record
  | 0xEF :: 0xBB :: 0xBF :: rest => Scanner.run { byte := 3 } rest
  | bytes => Scanner.run {} bytes

end TimingCharts.Delimited
