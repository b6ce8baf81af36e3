/-!
# Binary Floating Point as Bits

A float is held as its 64 bits, most significant first: the sign, eleven
exponent bits and fifty-two fraction bits. Nothing here computes with floats.
All that is needed of them is what the bits denote, how two of them compare,
and which float is nearest to an integer, and each of these is exact
arithmetic on whole numbers.

## Main definitions

* `Binary64`: Sixty-four bits read as a float.
* `Binary64.signBit`, `Binary64.hiddenBit`: The places of the sign and of the leading one.
* `Binary64.Class`: What some bits denote.
* `Binary64.classify`: The reading of the bits.
* `Binary64.totalKey`: The whole number by which all bit patterns are ordered.
* `Binary64.totalOrder`: The order of all bit patterns.
* `Binary64.ofInt`: The float nearest to an integer, a tie going to the even one.
-/

namespace Actors

/-- A float, as its bits. -/
structure Binary64 where
  /-- The bits, the sign bit first. -/
  bits : UInt64
deriving DecidableEq, Inhabited, Repr

namespace Binary64

/-- What a bit pattern denotes. A finite pattern denotes `mantissa * 2 ^ exponent`,
    and its negative when the sign bit is set. -/
inductive Class where
  | nan
  | infinite (negative : Bool)
  | finite (negative : Bool) (mantissa : Nat) (exponent : Int)
deriving DecidableEq, Repr

/-- The exponent of the smallest floats, and of the numbers right above them. -/
def minExponent : Int := -1074

/-- The sign bit: `2 ^ 63`. -/
def signBit : Nat := 9223372036854775808

/-- The leading one that the fraction bits of a normal number leave out:
    `2 ^ 52`. -/
def hiddenBit : Nat := 4503599627370496

/-- Whether the sign bit is set. -/
def isNegative (x : Binary64) : Bool := signBit ≤ x.bits.toNat

/-- The eleven exponent bits. -/
def exponentField (x : Binary64) : Nat := x.bits.toNat / hiddenBit % 2048

/-- The fifty-two fraction bits. -/
def fraction (x : Binary64) : Nat := x.bits.toNat % hiddenBit

/-- What the bits denote. -/
def classify (x : Binary64) : Class :=
  if x.exponentField = 2047 then
    if x.fraction = 0 then .infinite x.isNegative else .nan
  else if x.exponentField = 0 then .finite x.isNegative x.fraction minExponent
  else .finite x.isNegative (hiddenBit + x.fraction) (minExponent + x.exponentField - 1)

/-- The place of a bit pattern among all of them: negative patterns below
    positive ones, negative zero below zero, and each NaN beyond the infinity
    of its sign. -/
def totalKey (x : Binary64) : Int :=
  if x.bits.toNat < signBit then x.bits.toNat else signBit - 1 - (x.bits.toNat : Int)

/-- All bit patterns compared by their place. -/
def totalOrder (x y : Binary64) : Ordering := compare x.totalKey y.totalKey

/-- Divides by a power of two and rounds to the nearest whole number, a tie
    going to the even neighbour. -/
def shiftRoundEven (n shift : Nat) : Nat :=
  let unit := 1 <<< shift
  let quotient := n / unit
  let twiceRest := 2 * (n % unit)
  if unit < twiceRest ∨ (twiceRest = unit ∧ quotient % 2 = 1) then quotient + 1
  else quotient

/-- The bits of the nearest float to a natural number below `2 ^ 1000`. The
    mantissa is added onto the exponent field without its leading one, so a
    mantissa that rounds up to the next power of two carries into the exponent. -/
def magnitudeBits (n : Nat) : Nat :=
  if n = 0 then 0
  else
    let e := n.log2
    let mantissa := if e ≤ 52 then n <<< (52 - e) else shiftRoundEven n (e - 52)
    (e + 1023 - 1) * hiddenBit + mantissa

/-- The float nearest to an integer, a tie going to the one with an even mantissa. -/
def ofInt (n : Int) : Binary64 :=
  ⟨(magnitudeBits n.natAbs + if n < 0 then signBit else 0).toUInt64⟩

end Binary64

end Actors
