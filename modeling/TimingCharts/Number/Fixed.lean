import TimingCharts.Number.Binary

/-!
# Decimal texts of a given precision

`fixedText` writes a number with a fixed count of decimals and `exponentText` with
one significant digit and a power of ten. Both round the exact value, ties to even.
-/

namespace TimingCharts

/-- The decimal digits of `n`, with zeros in front up to `width` of them. -/
def paddedDigits (width n : Nat) : List Char :=
  let digits := Nat.toDigits 10 n
  List.replicate (width - digits.length) '0' ++ digits

namespace Binary

/-- The digits with `places` of them after the point. -/
def fixed (places : Nat) (b : Binary) : List Char :=
  let digits := paddedDigits (places + 1)
    (roundQuotient (b.numerator * Nat.pow 10 places) b.denominator)
  let whole := digits.length - places
  b.sign ++ digits.take whole ++
    if places = 0 then [] else '.' :: digits.drop whole

/-- The power of ten of the first significant digit: `10 ^ k ≤ b < 10 ^ (k + 1)` for `b ≠ 0`. -/
def magnitude (b : Binary) : Int :=
  if b.denominator ≤ b.numerator then
    (Nat.toDigits 10 (b.numerator / b.denominator)).length - 1
  else
    -- the least `j` with `den ≤ num * 10 ^ j`
    let steps := (b.denominator - 1) / b.numerator
    Int.negOfNat (Nat.toDigits 10 steps).length

/-- One significant digit, `e`, and the power of ten. -/
def oneDigit (b : Binary) : List Char :=
  if b.significand = 0 then b.sign ++ ['0', 'e', '0']
  else
    let k := b.magnitude
    let digit := roundQuotient (b.numerator * Nat.pow 10 (-k).toNat)
      (b.denominator * Nat.pow 10 k.toNat)
    let (digit, k) := if digit = 10 then (1, k + 1) else (digit, k)
    let power := if k < 0 then '-' :: Nat.toDigits 10 k.natAbs else Nat.toDigits 10 k.natAbs
    b.sign ++ Nat.toDigits 10 digit ++ 'e' :: power

end Binary

def fixedText (places : Nat) (x : Float) : List Char :=
  match Binary.ofFloat? x with
  | some b => b.fixed places
  | none => specialText x

/-- The text of `x` with one significant digit and an exponent, as in `3e-4`. -/
def exponentText (x : Float) : List Char :=
  match Binary.ofFloat? x with
  | some b => b.oneDigit
  | none => specialText x

end TimingCharts
