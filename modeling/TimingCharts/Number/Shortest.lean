import TimingCharts.Number.Fixed

/-!
# Shortest decimal texts

The fewest digits that lie nearer to a number than to any other `Float`, written without
exponent. With `n` digits only the two neighbours of the number on the grid of its decade can
do, so each count of digits is tried in turn, and seventeen always suffice.
-/

namespace TimingCharts

namespace Binary

/-- The ends of the interval that rounds to `b`, as multiples of `2 ^ (exponent - 2)`. Below a
power of two the next number is half as far away. -/
def interval (b : Binary) : Nat × Nat :=
  let below := if b.significand = Nat.pow 2 52 ∧ b.exponent > -1074 then 1 else 2
  (4 * b.significand - below, 4 * b.significand + 2)

/-- Whether `digits * 10 ^ power` rounds to `b`. The ends belong to even significands. -/
def holds (b : Binary) (digits : Nat) (power : Int) : Bool :=
  let (low, high) := b.interval
  let shift := b.exponent - 2
  -- both sides of the comparison brought to whole numbers
  let ours := digits * Nat.pow 10 power.toNat * Nat.pow 2 (-shift).toNat
  let theirs (n : Nat) := n * Nat.pow 2 shift.toNat * Nat.pow 10 (-power).toNat
  if b.significand % 2 = 0 then theirs low ≤ ours && ours ≤ theirs high
  else theirs low < ours && ours < theirs high

/-- The better of the two neighbours of `b` on the grid of `10 ^ power` that round to it. -/
def neighbour? (b : Binary) (power : Int) : Option Nat :=
  let num := b.numerator * Nat.pow 10 (-power).toNat
  let den := b.denominator * Nat.pow 10 power.toNat
  let down := num / den
  match b.holds down power, b.holds (down + 1) power with
  | true, true => some (if 2 * (num % den) < den then down else down + 1)
  | true, false => some down
  | false, true => some (down + 1)
  | false, false => none

/-- The fewest digits, and the power of ten of the last one; `count` more may be tried. -/
def shortestFrom (b : Binary) (power : Int) : Nat → Nat × Int
  | 0 => (0, 0)
  | count + 1 =>
    match b.neighbour? power with
    | some digits => (digits, power)
    | none => shortestFrom b (power - 1) count

/-- The shortest decimal that reads back as `b`. -/
def shortest (b : Binary) : Nat × Int :=
  if b.significand = 0 then (0, 0) else b.shortestFrom b.magnitude 18

end Binary

/-- The shortest decimal of a number, always with a point. -/
def shortestText (x : Float) : List Char :=
  match Binary.ofFloat? x with
  | none => specialText x
  | some b =>
    let (digits, power) := b.shortest
    if 0 ≤ power then
      b.sign ++ Nat.toDigits 10 digits ++
        (if digits = 0 then [] else List.replicate power.toNat '0') ++ ['.', '0']
    else
      let places := power.natAbs
      let padded := paddedDigits (places + 1) digits
      let whole := padded.length - places
      b.sign ++ padded.take whole ++ '.' :: padded.drop whole

end TimingCharts
