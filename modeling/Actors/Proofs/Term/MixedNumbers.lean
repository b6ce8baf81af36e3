import Actors.Proofs.Binary64.Values
import Actors.Proofs.Term.Order
import Mathlib.Tactic.NormNum

/-!
# Integers Against Floats

How an integer compares with a float, said in the numbers the two denote. The
integer is rounded to a float first, and rounding carries no integer past a
float. So a smaller integer always comes first, and a larger one comes last
unless it is rounded down onto the very float it is compared with. That needs
more than 53 bits. If the two are one number the integer comes first, as long as
the float is not the zero with a sign, which stands below the zero that the
integer is rounded to.

## Theorems

* `compare_by_value`: An integer against a float, by the numbers they denote.
* `larger_sorts_first`: An integer that is rounded down comes before a smaller number.
-/

namespace Actors

namespace Term

section Values

variable {x : Binary64} {q : ℚ} (hx : x.value? = some q)

include hx

/-- A smaller integer comes first. -/
theorem order_int_float_of_lt {n : Int64} (h : (n.toInt : ℚ) < q) :
    order (.int n) (.float x) = .lt := by
  have hunits := (Binary64.int_lt_iff hx n.toInt).mp h
  rcases Binary64.ofInt_le_totalKey n.le_toInt n.toInt_lt hunits.le with hle | ⟨rfl, hn⟩
  · rw [order, Binary64.totalOrder, Ordering.then_eq_lt]
    rcases Int.lt_or_eq_of_le hle with hlt | heq
    · exact Or.inl (Std.compare_eq_lt.mpr hlt)
    · exact Or.inr ⟨Std.compare_eq_iff_eq.mpr heq, rfl⟩
  · -- The zero with a sign is no number of units above zero.
    rw [hn, Int.zero_mul] at hunits
    exact absurd hunits (by decide)

/-- A larger integer comes last, unless it is rounded down onto the float. -/
theorem order_int_float_of_gt {n : Int64} (h : q < n.toInt) :
    order (.int n) (.float x) = if x = .ofInt n.toInt then .lt else .gt := by
  have hunits := (Binary64.lt_int_iff hx n.toInt).mp h
  have hle := Binary64.totalKey_le_ofInt n.le_toInt n.toInt_lt hunits.le
  rw [order]
  split
  next heq => rw [totalOrder_eq_iff.mpr heq.symm, Ordering.eq_then]
  next hne =>
    rcases Int.lt_or_eq_of_le hle with hlt | hkey
    · rw [Binary64.totalOrder, Std.compare_eq_gt.mpr hlt]
      rfl
    · -- One place belongs to one float.
      exact absurd (totalOrder_eq_iff.mp (Std.compare_eq_iff_eq.mpr hkey)) hne

/-- An integer comes before the float that is the same number, unless that is the zero with
    a sign. -/
theorem order_int_float_of_eq {n : Int64} (h : (n.toInt : ℚ) = q) :
    order (.int n) (.float x) = if x = .negativeZero then .gt else .lt := by
  have hlow : x.signedUnits ≤ n.toInt * Binary64.unitsInOne :=
    Int.not_lt.mp fun hlt => absurd ((Binary64.int_lt_iff hx n.toInt).mpr hlt) h.not_lt
  have hhigh : n.toInt * Binary64.unitsInOne ≤ x.signedUnits :=
    Int.not_lt.mp fun hlt => absurd ((Binary64.lt_int_iff hx n.toInt).mpr hlt) h.not_gt
  have hle := Binary64.totalKey_le_ofInt n.le_toInt n.toInt_lt hlow
  rw [order]
  split
  next hzero =>
    -- Both are no units, and the integer is rounded to the zero without a sign.
    rw [hzero, show Binary64.negativeZero.signedUnits = 0 by decide] at hlow hhigh
    have hone : (Binary64.unitsInOne : Int) ≠ 0 := Int.ofNat_ne_zero.mpr Binary64.unitsInOne_pos.ne'
    have hn : n.toInt = 0 := (Int.mul_eq_zero.mp (Int.le_antisymm hhigh hlow)).resolve_right hone
    rw [hzero, hn]
    decide
  next hzero =>
    rcases Binary64.ofInt_le_totalKey n.le_toInt n.toInt_lt hhigh with hge | ⟨heq, -⟩
    · rw [Binary64.totalOrder, Std.compare_eq_iff_eq.mpr (Int.le_antisymm hge hle),
        Ordering.eq_then]
    · exact absurd heq hzero

end Values

/-- An integer against a float, by the numbers they denote: it comes first if it is smaller
    and last if it is larger, except where it is rounded down onto the float, and first again
    if the two are one number, except beside the zero with a sign. Up to 53 bits nothing is
    rounded. A float against an integer is the same the other way round. -/
theorem compare_by_value {x : Binary64} {q : ℚ} (hx : x.value? = some q) (n : Int64) :
    order (.int n) (.float x) =
      (if (n.toInt : ℚ) < q then .lt
      else if q < n.toInt then (if x = .ofInt n.toInt then .lt else .gt)
      else if x = .negativeZero then .gt else .lt) ∧
    order (.float x) (.int n) = (order (.int n) (.float x)).swap ∧
    (n.toInt.natAbs ≤ 2 ^ 53 → x = .ofInt n.toInt → q = n.toInt) := by
  refine ⟨?_, order_swap (.int n) (.float x), fun hn heq => ?_⟩
  · split
    next hlt => exact order_int_float_of_lt hx hlt
    next hnlt =>
      split
      next hgt => exact order_int_float_of_gt hx hgt
      next hngt => exact order_int_float_of_eq hx (le_antisymm (not_lt.mp hngt) (not_lt.mp hnlt))
  · rw [heq, Binary64.value?_ofInt hn, Option.some.injEq] at hx
    exact hx.symm

/-- The float `2 ^ 53`. -/
def twoPow53 : Binary64 := ⟨4845873199050653696⟩

theorem value?_twoPow53 : twoPow53.value? = some 9007199254740992 := by
  have hclass : twoPow53.classify = .finite false 4503599627370496 1 := by decide
  rw [Binary64.value?, hclass]
  norm_num

theorem compare_by_value_apart :
    twoPow53.value? = some 9007199254740992 ∧
    order (.int 9007199254740995) (.float twoPow53) = .gt := by
  refine ⟨value?_twoPow53, (compare_by_value value?_twoPow53 9007199254740995).1.trans ?_⟩
  have hint : (9007199254740995 : Int64).toInt = 9007199254740995 := by decide
  rw [hint, if_neg (by norm_num), if_pos (by norm_num), if_neg (by decide)]

/-- An integer that is rounded down comes before a number that is smaller. -/
theorem larger_sorts_first :
    ¬ ∀ (n : Int64) (x : Binary64) (q : ℚ), x.value? = some q →
      order (.int n) (.float x) = if q < n.toInt then .gt else .lt := by
  intro h
  have hint : (9007199254740993 : Int64).toInt = 9007199254740993 := by decide
  have hgt := h 9007199254740993 twoPow53 _ value?_twoPow53
  rw [hint, if_pos (by norm_num)] at hgt
  exact absurd hgt (by decide)

end Term

end Actors
