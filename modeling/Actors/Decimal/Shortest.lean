/-!
# Shortest Decimals

The shortest decimal that still picks out a binary number. Every number
`m * 2 ^ q` that a binary format can hold owns an interval, the reals that
round to it, and any decimal in the interval reads back as the number. Among
the decimal grids with one, two, three and more digits, the first with a point
in the interval fixes how many digits are written, and of its points the one
nearest to the number is written.

Only the two grid points next to the number have to be looked at: if any point
of a grid lies in the interval, so does one of these two.

All arithmetic is exact. The number and the ends of its interval are brought
to a common denominator, so a test is a comparison of natural numbers.

## Main definitions

* `Decimal`: Digits and a power of ten.
* `Interval`: A number with the ends of its interval over one denominator.
* `Interval.ofBinary`: The interval of a binary number.
* `Interval.onGrid`: The grid point to write, if the grid has one.
* `Interval.shortest`: The shortest decimal of an interval.
-/

namespace Actors

/-- The decimal `digits * 10 ^ exponent`. -/
structure Decimal where
  /-- The digits, as a number. -/
  digits : Nat
  /-- The power of ten. -/
  exponent : Int
deriving DecidableEq, Repr

namespace Decimal

/-- How many digits a number has. -/
def digitCount (n : Nat) : Nat := (Nat.toDigits 10 n).length

/-- The same decimal without zeros at the end of its digits. The first
    argument bounds how many are taken off. -/
def stripZeros : Nat → Decimal → Decimal
  | 0, d => d
  | n + 1, d =>
      if d.digits % 10 = 0 ∧ d.digits ≠ 0 then stripZeros n ⟨d.digits / 10, d.exponent + 1⟩ else d

/-- A positive number with the ends of the interval of reals that stand for
    it, as three numerators over one denominator. -/
structure Interval where
  /-- The lower end. -/
  lower : Nat
  /-- The number itself. -/
  value : Nat
  /-- The upper end. -/
  upper : Nat
  /-- What all three are divided by. -/
  denominator : Nat
  /-- Whether the two ends belong to the interval. -/
  closed : Bool
deriving Repr

namespace Interval

/-- The interval of `m * 2 ^ q`. The neighbours are one unit away, except that
    the lower one is half a unit away where the exponent changes, and half of
    the distance belongs to the number. A half-way point goes to the number
    with the even mantissa, so the ends belong to it when `m` is even. -/
def ofBinary (m : Nat) (q : Int) (exponentChanges : Bool) : Interval :=
  let scale := 1 <<< (q - 2).toNat
  { lower := (4 * m - if exponentChanges then 1 else 2) * scale
    value := 4 * m * scale
    upper := (4 * m + 2) * scale
    denominator := 1 <<< (2 - q).toNat
    closed := m % 2 = 0 }

/-- The position of the decimal point: the least `p` with the number below
    `10 ^ p`. -/
def pointPosition (i : Interval) : Int :=
  if i.denominator ≤ i.value then digitCount (i.value / i.denominator)
  else 1 - (digitCount ((i.denominator - 1) / i.value) : Int)

/-- The point of the grid with step `10 ^ exponent` to write: the nearer of
    the two points next to the number that lie in the interval, the upper one
    on a tie. -/
def onGrid (i : Interval) (exponent : Int) : Option Decimal :=
  -- Both sides in steps of the grid.
  let up := Nat.pow 10 (-exponent).toNat
  let step := i.denominator * Nat.pow 10 exponent.toNat
  let below := i.value * up / step
  let rest := i.value * up % step
  let lower := i.lower * up
  let upper := i.upper * up
  let belowFits := lower < below * step || (i.closed && lower == below * step)
  let aboveFits := (below + 1) * step < upper || (i.closed && upper == (below + 1) * step)
  match belowFits, aboveFits with
  | true, true => some ⟨if 2 * rest < step then below else below + 1, exponent⟩
  | true, false => some ⟨below, exponent⟩
  | false, true => some ⟨below + 1, exponent⟩
  | false, false => none

/-- The first grid with a point in the interval, tried with one digit more
    each time. The first argument is how many grids are left to try. -/
def search (i : Interval) : Nat → Int → Decimal
  | 0, exponent =>
      let step := i.denominator * Nat.pow 10 exponent.toNat
      ⟨i.value * Nat.pow 10 (-exponent).toNat / step, exponent⟩
  | n + 1, exponent => (i.onGrid exponent).getD (search i n (exponent - 1))

/-- The shortest decimal in the interval. Seventeen digits are always enough
    for a number of fifty-three bits. -/
def shortest (i : Interval) : Decimal :=
  stripZeros 17 (i.search 17 (i.pointPosition - 1))

end Interval

end Decimal

end Actors
