import Actors.Text.GraphemeExtend

/-!
# Quoted Text

Text between double quotes. A quote or a backslash inside is written after a
backslash, the usual controls by their letter, and every other character that
has no visible form, or that would attach itself to its neighbour, by its code
point in braces. What comes out is one line of visible characters.

## Main definitions

* `Text.codePointEscape`: A character written by its code point.
* `Text.escape`: A character as it stands between the quotes.
* `Text.quote`: A text between quotes.

## Theorems

* `escape_of_plain`: A visible character other than a quote or a backslash is
  written as itself.
-/

namespace Actors

namespace Text

/-- A character written by its code point, in hexadecimal without leading zeros. -/
def codePointEscape (c : Char) : List Char :=
  '\\' :: 'u' :: '\x7b' :: (Nat.toDigits 16 c.toNat ++ ['\x7d'])

/-- A character as it stands between the quotes. -/
def escape (c : Char) : List Char :=
  if c = '\x00' then ['\\', '0']
  else if c = '\t' then ['\\', 't']
  else if c = '\r' then ['\\', 'r']
  else if c = '\n' then ['\\', 'n']
  else if c = '\\' then ['\\', '\\']
  else if c = '"' then ['\\', '"']
  else if extendsGrapheme c then codePointEscape c
  else if isPrintable c then [c]
  else codePointEscape c

/-- A text between quotes. -/
def quote (s : String) : List Char := '"' :: (s.toList.flatMap escape ++ ['"'])

/-- A visible character other than a quote or a backslash is written as itself. -/
theorem escape_of_plain {c : Char} (hp : isPrintable c = true) (he : extendsGrapheme c = false)
    (hq : c ≠ '"') (hb : c ≠ '\\') : escape c = [c] := by
  have hcontrol : ∀ k : Char, isPrintable k = false → c ≠ k := fun k hk h => by
    rw [h, hk] at hp
    exact absurd hp (by decide)
  rw [escape, if_neg (hcontrol _ (by decide)), if_neg (hcontrol _ (by decide)),
    if_neg (hcontrol _ (by decide)), if_neg (hcontrol _ (by decide)), if_neg hb, if_neg hq, he,
    if_neg (by decide), if_pos hp]

end Text

end Actors
