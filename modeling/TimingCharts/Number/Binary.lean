/-!
# Finite binary numbers

A finite `Float` is a sign, a significand and a power of two. Every decimal text
the library writes is computed from this exact value, with one rounding at the end.
-/

namespace TimingCharts

/-- The number `significand * 2 ^ exponent`, negated if `negative`. -/
structure Binary where
  negative : Bool
  significand : Nat
  exponent : Int
  deriving DecidableEq, Repr

/-- The exact value of a finite `Float`. NaN and the infinities have none. -/
def Binary.ofFloat? (x : Float) : Option Binary :=
  let bits := x.toBits.toNat
  let negative : Bool := bits / Nat.pow 2 63 % 2 = 1
  let scale : Nat := bits / Nat.pow 2 52 % Nat.pow 2 11
  let fraction := bits % Nat.pow 2 52
  if scale = 2047 then none
  else if scale = 0 then some ⟨negative, fraction, -1074⟩
  else some ⟨negative, Nat.pow 2 52 + fraction, (scale : Int) - 1075⟩

namespace Binary

/-- The magnitude is `numerator / denominator`. -/
def numerator (b : Binary) : Nat := b.significand * Nat.pow 2 b.exponent.toNat

def denominator (b : Binary) : Nat := Nat.pow 2 (-b.exponent).toNat

theorem denominator_pos (b : Binary) : 0 < b.denominator := Nat.two_pow_pos _

/-- The sign as it is written in front of the digits; a negative zero keeps it. -/
def sign (b : Binary) : List Char := if b.negative then ['-'] else []

end Binary

/-- The whole number nearest to `num / den`; a tie goes to the even neighbour. -/
def roundQuotient (num den : Nat) : Nat :=
  let q := num / den
  let r := num % den
  if 2 * r < den then q
  else if den < 2 * r then q + 1
  else if q % 2 = 0 then q else q + 1

def specialText (x : Float) : List Char :=
  if x.isNaN then ['N', 'a', 'N']
  else if x < 0 then ['-', 'i', 'n', 'f']
  else ['i', 'n', 'f']

end TimingCharts
