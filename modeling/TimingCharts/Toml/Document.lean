import TimingCharts.Number.Reading
import TimingCharts.Toml.Token

/-!
# Settings documents

A document is a list of entries at the top and a list of tables, each with a header, in the
order of the text. What the keys mean is not decided here, and a key may come twice.
-/

namespace TimingCharts.Toml

inductive Value where
  | string (text : String)
  | integer (value : Int)
  | float (value : Float)
  | boolean (value : Bool)
  | date
  | array (items : List Value)
  /-- A table in braces, or one that dotted keys make up. -/
  | table (braced : Bool) (entries : List (String × Value))
  deriving Repr

structure Table where
  header : List String
  /-- Whether the header stands in double brackets. -/
  repeated : Bool
  entries : List (String × Value)
  deriving Repr

structure Document where
  root : List (String × Value) := []
  tables : List Table := []
  deriving Repr

/-! ## Numbers -/

def digitOf? (radix : Nat) (c : Char) : Option Nat := (hexValue? c).filter (· < radix)

/-- Digits with single underscores between them. -/
def isNumeral (leadingZeros : Bool) (run : List Char) : Bool :=
  run != [] && run.head? != some '_' && run.getLast? != some '_' &&
    !(List.zip run run.tail).any (fun (a, b) => a == '_' && b == '_') &&
    (leadingZeros || run.head? != some '0' || run.length == 1)

def numeral (radix : Nat) (leadingZeros : Bool) (word : List Char) :
    Option (List Char × List Char) :=
  let inRun (c : Char) : Bool := c == '_' || (digitOf? radix c).isSome
  let run := word.takeWhile inRun
  if isNumeral leadingZeros run then some (run.filter (· != '_'), word.dropWhile inRun) else none

def splitSign : List Char → Bool × List Char
  | '-' :: rest => (true, rest)
  | word => (false, word)

/-- A whole number of 64 bits, with an optional minus sign if it is decimal. -/
def integer (radix : Nat) (word : List Char) : Option Int := do
  let (negative, digits) := if radix = 10 then splitSign word else (false, word)
  let (digits, rest) ← numeral radix (radix != 10) digits
  let size : Int := digits.foldl (fun n c => n * radix + (digitOf? radix c).getD 0) 0
  let value := if negative then -size else size
  if rest = [] ∧ Int64.minValue.toInt ≤ value ∧ value ≤ Int64.maxValue.toInt then some value else none

/-- The exponent of a number: what follows its `e` in the word or, after a plus sign, in the
next one. -/
def exponentPart : List Char → List Token → Option (Int × List Token)
  | [], ts => some (0, ts)
  | [c], ts => do
    guard (c = 'e' ∨ c = 'E')
    let ts := match ts with
      | .plus :: ts => ts
      | ts => ts
    match ts with
    | .bare word :: ts =>
      let (digits, rest) ← numeral 10 true word
      guard (rest = [])
      return (digitsValue digits, ts)
    | _ => none
  | c :: word, ts => do
    guard (c = 'e' ∨ c = 'E')
    let (negative, digits) := splitSign word
    let (digits, rest) ← numeral 10 true digits
    guard (rest = [])
    return (if negative then -(digitsValue digits : Int) else digitsValue digits, ts)

/-- A decimal with a point or an exponent; it must be finite. -/
def float (word : List Char) (fraction : Option (List Char)) (ts : List Token) :
    Option (Value × List Token) := do
  let (negative, digits) := splitSign word
  let (whole, rest) ← numeral 10 false digits
  let (decimals, rest) ← match fraction with
    | none => some ([], rest)
    | some fraction => do
      guard (rest = [])
      numeral 10 true fraction
  let (exponent, ts) ← exponentPart rest ts
  let size := Decimal.toFloat ⟨digitsValue (whole ++ decimals), exponent - decimals.length⟩
  guard size.isFinite
  return (.float (if negative then -size else size), ts)

def number (word : List Char) (ts : List Token) : Option (Value × List Token) :=
  let whole (radix : Nat) (digits : List Char) : Option (Value × List Token) :=
    (integer radix digits).map fun n => (.integer n, ts)
  match word with
  | '0' :: 'x' :: digits => whole 16 digits
  | '0' :: 'o' :: digits => whole 8 digits
  | '0' :: 'b' :: digits => whole 2 digits
  | word =>
    if 'e' ∈ word ∨ 'E' ∈ word then float word none ts
    else match ts with
      | .period :: .bare fraction :: ts => float word (some fraction) ts
      | .period :: _ => none
      | ts =>
        if word = "inf".toList then some (.float (1 / 0), ts)
        else if word = "-inf".toList then some (.float (-1 / 0), ts)
        else if word = "nan".toList ∨ word = "-nan".toList then some (.float (0 / 0), ts)
        else whole 10 word

/-- Whether a word can only be a date: it has a `T`, or a minus sign that neither starts it nor
follows an `e`. -/
def isDateWord (word : List Char) : Bool :=
  let pairs := List.zip word word.tail
  'T' ∈ word || 't' ∈ word ||
    ('-' ∈ word.tail && !pairs.any fun (a, b) => (a == 'e' || a == 'E') && b == '-')

/-- One word after a mark, if the mark is there. -/
def optionalWord (mark : Token) : List Token → Option (List Token)
  | t :: ts =>
    if t = mark then
      match ts with
      | .bare _ :: ts => some ts
      | _ => none
    else some (t :: ts)
  | [] => some []

/-- What follows a date. Its words are not looked at: after one space comes an hour, after a
colon minutes and seconds, and then a fraction and an offset. -/
def skipDate (colon : Bool) (ts : List Token) : Option (List Token) := do
  let ts := match ts with
    | .blank [' '] :: .bare _ :: ts => ts
    | ts => ts
  let (timed, ts) := match colon, ts with
    | false, .colon :: ts => (true, ts)
    | colon, ts => (colon, ts)
  if timed then
    match ts with
    | .bare _ :: .colon :: .bare _ :: ts =>
      optionalWord .colon (← optionalWord .plus (← optionalWord .period ts))
    | _ => none
  else some ts

def wordValue (word : List Char) (ts : List Token) : Option (Value × List Token) :=
  if word = "true".toList then some (.boolean true, ts)
  else if word = "false".toList then some (.boolean false, ts)
  else if word = "inf".toList ∨ word = "nan".toList ∨
      word.head?.any (fun c => c == '-' || c.isDigit) then
    if isDateWord word then (skipDate false ts).map (.date, ·)
    else match ts with
      | .colon :: ts => (skipDate true ts).map (.date, ·)
      | ts => number word ts
  else none

/-! ## Keys and values -/

def Token.key? : Token → Option String
  | .bare word => some (String.ofList word)
  | .text value false => some (String.ofList value)
  | _ => none

/-- Keys with periods between them, and what follows. -/
def keyPath (expected : Bool) : List Token → Option (List String × List Token)
  | [] => if expected then none else some ([], [])
  | .blank _ :: ts => keyPath expected ts
  | t :: ts =>
    if expected then do
      let key ← t.key?
      let (keys, ts) ← keyPath false ts
      return (key :: keys, ts)
    else if t = .period then keyPath true ts
    else some ([], t :: ts)

/-- Changes the table under a key that dotted keys make up, or starts it. -/
def updateTable (key : String)
    (change : List (String × Value) → Option (List (String × Value))) :
    List (String × Value) → Option (List (String × Value))
  | [] => do return [(key, .table false (← change []))]
  | (k, v) :: rest =>
    if k = key then
      match v with
      | .table false entries => do return (k, .table false (← change entries)) :: rest
      | _ => none
    else do return (k, v) :: (← updateTable key change rest)

def insertAt : List String → Value → List (String × Value) → Option (List (String × Value))
  | [], _, _ => none
  | [key], value, entries => some (entries ++ [(key, value)])
  | key :: path, value, entries => updateTable key (insertAt path value) entries

def dropBlank : List Token → List Token
  | .blank _ :: ts => ts
  | ts => ts

/-- Whether a token may stand between the items of an array or between lines. -/
def isGap : Token → Bool
  | .blank _ | .newline | .comment => true
  | _ => false

/-- A key path, an equals sign and what follows the blanks after it. -/
def assignmentHead (ts : List Token) : Option (List String × List Token) := do
  let (path, ts) ← keyPath true ts
  match ts with
  | .equals :: ts => some (path, dropBlank ts)
  | _ => none

mutual

/-- One value, with at most `fuel` values inside it. -/
def value : Nat → List Token → Option (Value × List Token)
  | 0, _ => none
  | fuel + 1, ts =>
    match ts with
    | .text text _ :: ts => some (.string (String.ofList text), ts)
    | .bare word :: ts => wordValue word ts
    | .plus :: .bare word :: ts => number word ts
    | .leftBracket :: ts => do
      let (items, ts) ← arrayItems fuel ts
      return (.array items, ts)
    | .leftBrace :: ts => do
      match dropBlank ts with
      | .rightBrace :: ts => return (.table true [], ts)
      | ts =>
        let (entries, ts) ← bracedEntries fuel [] ts
        return (.table true entries, ts)
    | _ => none

def arrayItems : Nat → List Token → Option (List Value × List Token)
  | 0, _ => none
  | fuel + 1, ts =>
    match ts.dropWhile isGap with
    | .rightBracket :: ts => some ([], ts)
    | ts => do
      let (item, ts) ← value fuel ts
      match ts.dropWhile isGap with
      | .comma :: ts =>
        let (items, ts) ← arrayItems fuel ts
        return (item :: items, ts)
      | .rightBracket :: ts => return ([item], ts)
      | _ => none

def bracedEntries : Nat → List (String × Value) → List Token →
    Option (List (String × Value) × List Token)
  | 0, _, _ => none
  | fuel + 1, entries, ts => do
    let (path, ts) ← assignmentHead ts
    let (item, ts) ← value fuel ts
    let entries ← insertAt path item entries
    match dropBlank ts with
    | .rightBrace :: ts => return (entries, ts)
    | .comma :: ts => bracedEntries fuel entries ts
    | _ => none

end

/-! ## Lines -/

inductive Line where
  | header (path : List String) (repeated : Bool)
  | entry (path : List String) (value : Value)
  deriving Repr

/-- What follows the end of a line: blanks and a comment may stand before it. -/
def endOfLine (ts : List Token) : Option (List Token) :=
  let ts := match dropBlank ts with
    | .comment :: ts => ts
    | ts => ts
  match ts with
  | [] => some []
  | .newline :: ts => some ts
  | _ => none

def headerLine (repeated : Bool) (ts : List Token) : Option (Line × List Token) := do
  let (path, ts) ← keyPath true ts
  match repeated, ts with
  | false, .rightBracket :: ts => return (.header path false, ← endOfLine ts)
  | true, .rightBracket :: .rightBracket :: ts => return (.header path true, ← endOfLine ts)
  | _, _ => none

def line (ts : List Token) : Option (Line × List Token) :=
  match ts with
  | .leftBracket :: .leftBracket :: ts => headerLine true ts
  | .leftBracket :: ts => headerLine false ts
  | ts => do
    let (path, rest) ← assignmentHead ts
    let (value, rest) ← value rest.length rest
    return (.entry path value, ← endOfLine rest)

/-- The lines of a text, at most `fuel` of them. -/
def lines : Nat → List Token → Option (List Line)
  | fuel, ts =>
    match fuel, ts.dropWhile isGap with
    | _, [] => some []
    | 0, _ => none
    | fuel + 1, ts => do
      let (first, ts) ← line ts
      return first :: (← lines fuel ts)

namespace Document

def addLine (doc : Document) : Line → Option Document
  | .header path repeated => some { doc with tables := doc.tables ++ [⟨path, repeated, []⟩] }
  | .entry path value =>
    match doc.tables.getLast? with
    | none => do return { doc with root := ← insertAt path value doc.root }
    | some table => do
      let entries ← insertAt path value table.entries
      return { doc with tables := doc.tables.dropLast ++ [{ table with entries }] }

def parse? (text : List Char) : Option Document := do
  let ts ← tokens text
  (← lines ts.length ts).foldlM addLine {}

end Document

end TimingCharts.Toml
