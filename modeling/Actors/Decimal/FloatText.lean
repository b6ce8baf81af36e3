import Actors.Binary64
import Actors.Decimal.Shortest

/-!
# Floats as Text

How a float is written. The digits are the shortest that read back; this
module decides where the point goes, when an exponent is written instead, and
how zero, the infinities and NaN are spelled.

## Main definitions

* `FloatStyle`: The choices of a way to write floats.
* `FloatStyle.standard`: The choices of this library.
* `FloatStyle.positional`, `FloatStyle.scientific`: The two layouts.
* `FloatStyle.render`: The text of a float.
-/

namespace Actors

/-- The choices of a way to write floats. -/
structure FloatStyle where
  /-- The lowest position of the point that is written without an exponent. -/
  lowestPoint : Int
  /-- The highest position of the point that is written without an exponent. -/
  highestPoint : Int
  /-- What stands before an exponent. -/
  exponentMark : List Char
  /-- The text of every NaN. -/
  nan : List Char
  /-- The text of infinity. -/
  infinity : List Char
deriving Repr

namespace FloatStyle

/-- Numbers from `0.0001` up to but not including `10 ^ 16` are written without
    an exponent and always with a point; all others as one digit, the rest
    after a point, and the exponent after an `e`. -/
def standard : FloatStyle :=
  { lowestPoint := -3
    highestPoint := 16
    exponentMark := ['e']
    nan := ['N', 'a', 'N']
    infinity := ['i', 'n', 'f'] }

/-- The digits with a point after `point` of them, zeros filling what is
    missing on either side. -/
def positional (digits : List Char) (point : Int) : List Char :=
  if point ≤ 0 then '0' :: '.' :: (List.replicate (-point).toNat '0' ++ digits)
  else if point < digits.length then
    digits.take point.toNat ++ '.' :: digits.drop point.toNat
  else digits ++ List.replicate (point.toNat - digits.length) '0' ++ ['.', '0']

/-- The decimal digits of an integer, after a minus sign if it is negative. -/
def integer (n : Int) : List Char :=
  if n < 0 then '-' :: Nat.toDigits 10 n.natAbs else Nat.toDigits 10 n.natAbs

/-- The first digit, the others after a point, and the exponent. -/
def scientific (style : FloatStyle) (digits : List Char) (point : Int) : List Char :=
  let mantissa := match digits with
    | [] => []
    | [d] => [d]
    | d :: rest => d :: '.' :: rest
  mantissa ++ style.exponentMark ++ integer (point - 1)

/-- The text of a positive decimal. -/
def ofDecimal (style : FloatStyle) (d : Decimal) : List Char :=
  let digits := Nat.toDigits 10 d.digits
  let point := digits.length + d.exponent
  if style.lowestPoint ≤ point ∧ point ≤ style.highestPoint then positional digits point
  else style.scientific digits point

/-- A text after a minus sign, if there is one. -/
def signed (negative : Bool) (text : List Char) : List Char :=
  if negative then '-' :: text else text

/-- The text of a float. -/
def render (style : FloatStyle) (x : Binary64) : List Char :=
  match x.classify with
  | .nan => style.nan
  | .infinite negative => signed negative style.infinity
  | .finite negative m q =>
      if m = 0 then signed negative (positional ['0'] 1)
      else
        let exponentChanges := m = Binary64.hiddenBit ∧ q ≠ Binary64.minExponent
        signed negative (style.ofDecimal (Decimal.Interval.ofBinary m q exponentChanges).shortest)

end FloatStyle

end Actors
