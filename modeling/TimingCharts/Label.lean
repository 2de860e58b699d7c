import TimingCharts.Number.Fixed

/-!
# Tick labels

The three ways a tick value is written on an axis. `abbreviate` picks the unit before
it rounds, so a value just under a unit may be labelled with a thousand of the unit below.
-/

namespace TimingCharts.Label

/-- Drops zeros at the end of the decimals, and a point left with none. -/
def trimDecimals (text : List Char) : List Char :=
  if '.' ∈ text then
    ((text.reverse.dropWhile (· == '0')).dropWhile (· == '.')).reverse
  else text

/-- Multiples of a thousand, a million and a billion with a suffix, to one decimal: `1.5K`. -/
def abbreviate (value : Float) : String :=
  let size := value.abs
  let (scaled, suffix) :=
    if size ≥ 1e9 then (value / 1e9, ['G'])
    else if size ≥ 1e6 then (value / 1e6, ['M'])
    else if size ≥ 1e3 then (value / 1e3, ['K'])
    else (value, [])
  String.ofList (trimDecimals (fixedText 1 scaled) ++ suffix)

/-- Whole millions: `10M`. -/
def millions (value : Float) : String :=
  String.ofList (fixedText 0 (value / 1e6) ++ ['M'])

/-- Seconds to three decimals, or one digit and an exponent below a hundredth. -/
def seconds (value : Float) : String :=
  if value == 0 then "0"
  else if value.abs ≥ 0.01 then String.ofList (trimDecimals (fixedText 3 value))
  else String.ofList (exponentText value)

inductive Format where
  /-- Whatever the axis writes by itself. -/
  | default
  | abbreviated
  | millions
  | seconds
  deriving DecidableEq, Repr

def Format.labeller : Format → Option (Float → String)
  | .default => none
  | .abbreviated => some abbreviate
  | .millions => some Label.millions
  | .seconds => some Label.seconds

end TimingCharts.Label
