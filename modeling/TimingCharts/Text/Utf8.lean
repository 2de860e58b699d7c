/-!
# UTF-8

Texts from bytes. `decode` gives the characters, or the number of bytes before the first
that neither is nor continues a character.
-/

namespace TimingCharts.Text

def isTail (b : UInt8) : Bool := 0x80 ≤ b && b ≤ 0xBF

def tailBits (b : UInt8) : Nat := b.toNat % 64

/-- The bytes allowed after `first` in a character of three bytes. -/
def isSecondOfThree (first b : UInt8) : Bool :=
  isTail b && !(first == 0xE0 && b < 0xA0) && !(first == 0xED && b > 0x9F)

/-- The bytes allowed after `first` in a character of four bytes. -/
def isSecondOfFour (first b : UInt8) : Bool :=
  isTail b && !(first == 0xF0 && b < 0x90) && !(first == 0xF4 && b > 0x8F)

/-- The characters of `bytes`, which start at `offset` of the whole. -/
def decodeFrom (offset : Nat) : List UInt8 → Except Nat (List Char)
  | [] => .ok []
  | a :: rest =>
    if a < 0x80 then
      return Char.ofNat a.toNat :: (← decodeFrom (offset + 1) rest)
    else if 0xC2 ≤ a && a ≤ 0xDF then
      match rest with
      | b :: rest =>
        if isTail b then
          return Char.ofNat (a.toNat % 32 * 64 + tailBits b) :: (← decodeFrom (offset + 2) rest)
        else .error offset
      | _ => .error offset
    else if 0xE0 ≤ a && a ≤ 0xEF then
      match rest with
      | b :: c :: rest =>
        if isSecondOfThree a b && isTail c then
          return Char.ofNat (a.toNat % 16 * 4096 + tailBits b * 64 + tailBits c) ::
            (← decodeFrom (offset + 3) rest)
        else .error offset
      | _ => .error offset
    else if 0xF0 ≤ a && a ≤ 0xF4 then
      match rest with
      | b :: c :: d :: rest =>
        if isSecondOfFour a b && isTail c && isTail d then
          return Char.ofNat
              (a.toNat % 8 * 262144 + tailBits b * 4096 + tailBits c * 64 + tailBits d) ::
            (← decodeFrom (offset + 4) rest)
        else .error offset
      | _ => .error offset
    else .error offset

/-- The characters of `bytes`, or how many bytes are well-formed. -/
def decode (bytes : List UInt8) : Except Nat (List Char) := decodeFrom 0 bytes

end TimingCharts.Text
