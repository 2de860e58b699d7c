/-!
# Numbers from text

`readWord` reads a whole number below a limit and `readFloat` a decimal. Both take the whole
text or nothing.
-/

namespace TimingCharts

def isDigit (c : Char) : Bool := '0' ≤ c && c ≤ '9'

def digitValue (c : Char) : Nat := c.toNat - '0'.toNat

/-- The number that a list of decimal digits denotes. -/
def digitsValue (digits : List Char) : Nat :=
  digits.foldl (fun n c => n * 10 + digitValue c) 0

/-- A whole number below `limit`, with an optional plus sign. -/
def readWord (limit : Nat) (text : List Char) : Option Nat :=
  let digits := match text with
    | '+' :: rest => rest
    | text => text
  if digits ≠ [] ∧ digits.all isDigit ∧ digitsValue digits < limit then
    some (digitsValue digits)
  else none

def readUInt64 (text : List Char) : Option UInt64 := (readWord UInt64.size text).map UInt64.ofNat

def readUInt32 (text : List Char) : Option UInt32 := (readWord UInt32.size text).map UInt32.ofNat

/-- A decimal: the number `digits * 10 ^ exponent`. -/
structure Decimal where
  digits : Nat
  exponent : Int
  deriving DecidableEq, Repr

/-- The `Float` nearest to a decimal; beyond the greatest it is infinite. -/
def Decimal.toFloat (d : Decimal) : Float :=
  -- the power of ten just above the number
  let size := (Nat.toDigits 10 d.digits).length + d.exponent
  if d.digits = 0 ∨ size < -330 then 0
  else if size > 310 then 1 / 0
  else Float.ofScientific d.digits (d.exponent < 0) d.exponent.natAbs

/-- The exponent after an `e`: an optional sign and at least one digit. -/
def readExponent (text : List Char) : Option Int :=
  let (negative, digits) := match text with
    | '-' :: rest => (true, rest)
    | '+' :: rest => (false, rest)
    | text => (false, text)
  if digits ≠ [] ∧ digits.all isDigit then
    some (if negative then -(digitsValue digits : Int) else digitsValue digits)
  else none

/-- Digits with an optional point among them, and an optional exponent. -/
def readDecimal (text : List Char) : Option Decimal :=
  let whole := text.takeWhile isDigit
  let rest := text.dropWhile isDigit
  let (fraction, rest) := match rest with
    | '.' :: rest => (rest.takeWhile isDigit, rest.dropWhile isDigit)
    | rest => ([], rest)
  if whole ++ fraction = [] then none
  else
    let decimal (e : Int) : Decimal := ⟨digitsValue (whole ++ fraction), e - fraction.length⟩
    match rest with
    | [] => some (decimal 0)
    | c :: rest => if c = 'e' ∨ c = 'E' then (readExponent rest).map decimal else none

/-- A decimal without sign, or one of the words for infinity and NaN in any case. -/
def readMagnitude (text : List Char) : Option Float :=
  let word := text.map Char.toLower
  if word = "inf".toList ∨ word = "infinity".toList then some (1 / 0)
  else if word = "nan".toList then some (0 / 0)
  else (readDecimal text).map Decimal.toFloat

/-- A number with an optional sign, rounded to the nearest `Float`. -/
def readFloat (text : List Char) : Option Float :=
  match text with
  | '-' :: rest => (readMagnitude rest).map (- ·)
  | '+' :: rest => readMagnitude rest
  | text => readMagnitude text

end TimingCharts
