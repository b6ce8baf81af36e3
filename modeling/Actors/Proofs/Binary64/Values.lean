import Actors.Proofs.Binary64
import Mathlib.Algebra.Order.Field.Rat
import Mathlib.Algebra.Order.Field.Power
import Mathlib.Tactic.Ring

/-!
# The Numbers That Floats Denote

Finite bits denote a rational number. Below the sign bit the bits count upwards
with that number: every float without a sign is a whole number of the smallest
one, and the next bit pattern is a larger number of them. So numbers can be
compared by comparing bits, the two zeros apart, which are one number in two
places.

An integer is rounded to one of the two floats it lies between. Nothing
representable lies strictly between an integer and what it is rounded to, so
rounding never carries an integer past a float; all that can happen is that it
lands on it.

## Main definitions

* `value?`: The number that finite bits denote.
* `units`: How many of the smallest float a bit pattern without a sign is.
* `magnitude`: The bits below the sign bit.

## Theorems

* `units_strictMono`: The next bit pattern is a larger number.
* `value?_eq_some_iff`: The number, counted in units.
* `magnitudeBits_floor`: A rounded magnitude and its two neighbours.
* `totalKey_le_ofInt`, `ofInt_le_totalKey`: Rounding carries no integer past a float.
* `value?_ofInt`: Up to `2 ^ 53` nothing is rounded.
-/

namespace Actors

namespace Binary64

/-- The number that finite bits denote. -/
def value? (x : Binary64) : Option ℚ :=
  match x.classify with
  | .finite negative mantissa exponent =>
      some ((if negative then -1 else 1) * mantissa * 2 ^ exponent)
  | _ => none

/-- The bits of the zero with a sign. -/
def negativeZero : Binary64 := ⟨9223372036854775808⟩

/-! ## Counting in units of the smallest float -/

/-- One is two to this power times the smallest float. -/
@[irreducible] def unitExponent : Nat := 1074

theorem unitExponent_eq : unitExponent = 1074 := by rw [unitExponent]

/-- How many of the smallest float are one. -/
def unitsInOne : Nat := 2 ^ unitExponent

theorem two_pow_eq_units {j k : Nat} (h : j = k + 1074) : 2 ^ j = 2 ^ k * unitsInOne := by
  rw [← unitExponent_eq] at h
  rw [h, Nat.pow_add, unitsInOne]

theorem unitsInOne_pos : 0 < unitsInOne := Nat.two_pow_pos unitExponent

/-- How many of the smallest float a bit pattern without a sign is. -/
def units (b : Nat) : Nat :=
  if b / hiddenBit = 0 then b % hiddenBit
  else (hiddenBit + b % hiddenBit) * 2 ^ (b / hiddenBit - 1)

/-- A mantissa over an exponent. It may be as large as the next power of two, which
    is where the next exponent begins. -/
theorem units_mantissa {m : Nat} (hlow : hiddenBit ≤ m) (hhigh : m ≤ 2 * hiddenBit) (e : Nat) :
    units (e * hiddenBit + m) = m * 2 ^ e := by
  have hpos : 0 < hiddenBit := by decide
  rcases Nat.lt_or_eq_of_le hhigh with hlt | rfl
  · -- The hidden place is filled: exponent and fraction can be read off.
    have hsum : e * hiddenBit + m = m - hiddenBit + hiddenBit * (e + 1) := by
      rw [Nat.mul_succ, Nat.mul_comm hiddenBit e]
      omega
    have hdiv : (e * hiddenBit + m) / hiddenBit = e + 1 := by
      rw [hsum, Nat.add_mul_div_left _ _ hpos, Nat.div_eq_of_lt (by omega), Nat.zero_add]
    have hmod : (e * hiddenBit + m) % hiddenBit = m - hiddenBit := by
      rw [hsum, Nat.add_mul_mod_self_left, Nat.mod_eq_of_lt (by omega)]
    rw [units, hdiv, hmod, if_neg (Nat.succ_ne_zero e), Nat.add_sub_cancel,
      Nat.add_sub_cancel' hlow]
  · -- The next power of two carries into the exponent and leaves no fraction.
    have hsum : e * hiddenBit + 2 * hiddenBit = hiddenBit * (e + 2) := by ring
    have hdiv : hiddenBit * (e + 2) / hiddenBit = e + 2 := Nat.mul_div_cancel_left _ hpos
    rw [units, hsum, hdiv, Nat.mul_mod_right, if_neg (by omega), Nat.add_zero,
      Nat.add_sub_assoc (by omega), Nat.pow_succ]
    ring

/-- The next bit pattern is a larger number. -/
theorem units_lt_succ (b : Nat) : units b < units (b + 1) := by
  have hpos : 0 < hiddenBit := by decide
  have hsplit := Nat.div_add_mod b hiddenBit
  have hrest := Nat.mod_lt b hpos
  rcases he : b / hiddenBit with _ | e
  · -- Below the leading one the bits count the units themselves.
    rw [he] at hsplit
    have hb : b < hiddenBit := by omega
    rw [units, if_pos he, Nat.mod_eq_of_lt hb]
    rcases Nat.lt_or_eq_of_le (Nat.succ_le_of_lt hb) with hlt | heq
    · rw [units, if_pos (Nat.div_eq_of_lt hlt), Nat.mod_eq_of_lt hlt]
      exact Nat.lt_succ_self b
    · have hunits := units_mantissa (Nat.le_refl hiddenBit) (by decide) 0
      rw [Nat.zero_mul, Nat.zero_add, Nat.pow_zero, Nat.mul_one] at hunits
      rw [show b + 1 = hiddenBit from heq, hunits]
      exact hb
  · have hsum : b = e * hiddenBit + (hiddenBit + b % hiddenBit) := by
      rw [he, Nat.mul_succ, Nat.mul_comm] at hsplit
      omega
    have hhere := units_mantissa (m := hiddenBit + b % hiddenBit) (by omega) (by omega) e
    have hnext := units_mantissa (m := hiddenBit + b % hiddenBit + 1) (by omega) (by omega) e
    rw [← hsum] at hhere
    rw [← Nat.add_assoc, ← hsum] at hnext
    rw [hhere, hnext, Nat.succ_mul]
    exact Nat.lt_add_of_pos_right (Nat.two_pow_pos e)

theorem units_strictMono : StrictMono units := strictMono_nat_of_lt_succ units_lt_succ

@[simp] theorem units_zero : units 0 = 0 := rfl

/-! ## Values -/

/-- The bits below the sign bit. -/
def magnitude (x : Binary64) : Nat := x.bits.toNat % signBit

theorem magnitude_div (x : Binary64) : x.magnitude / hiddenBit = x.exponentField := by
  rw [magnitude, exponentField, show signBit = hiddenBit * 2048 from rfl,
    Nat.mod_mul_right_div_self]

theorem magnitude_mod (x : Binary64) : x.magnitude % hiddenBit = x.fraction :=
  Nat.mod_mod_of_dvd x.bits.toNat (Dvd.intro 2048 rfl)

/-- The place of a bit pattern, from its sign and the bits below. -/
theorem totalKey_eq (x : Binary64) :
    x.totalKey = if x.isNegative then -1 - (x.magnitude : Int) else x.magnitude := by
  have hbits := x.bits.toNat_lt
  by_cases hneg : signBit ≤ x.bits.toNat
  · rw [totalKey, isNegative, magnitude, if_neg (by omega), if_pos (decide_eq_true hneg)]
    rw [signBit] at hneg ⊢
    omega
  · rw [totalKey, isNegative, magnitude, if_pos (by omega),
      if_neg (by rw [decide_eq_true_eq]; exact hneg), Nat.mod_eq_of_lt (by omega)]

/-- A power of two that is a whole number of units. -/
theorem two_zpow_units {e : Int} (k : Nat) (h : e = k + minExponent) :
    (2 : ℚ) ^ e = 2 ^ k / unitsInOne := by
  have hmin : minExponent = -(unitExponent : Int) := by rw [unitExponent_eq]; rfl
  rw [h, hmin, zpow_add₀ two_ne_zero, zpow_neg, zpow_natCast, zpow_natCast, unitsInOne,
    Nat.cast_pow, Nat.cast_ofNat, div_eq_mul_inv]

/-- The number that finite bits denote, counted in units of the smallest float. -/
theorem value?_eq_some_iff {x : Binary64} {q : ℚ} :
    x.value? = some q ↔ x.exponentField ≠ 2047 ∧
      q = (if x.isNegative then -1 else 1) * ((units x.magnitude : ℚ) / unitsInOne) := by
  have hunits (hfinite : x.exponentField ≠ 2047) : x.value? =
      some ((if x.isNegative then -1 else 1) * ((units x.magnitude : ℚ) / unitsInOne)) := by
    rw [value?, classify, if_neg hfinite, units, magnitude_div, magnitude_mod]
    by_cases he : x.exponentField = 0
    · rw [if_pos he, if_pos he]
      dsimp only
      rw [mul_assoc, two_zpow_units 0 (Int.zero_add _).symm, pow_zero, mul_one_div]
    · rw [if_neg he, if_neg he]
      dsimp only
      rw [mul_assoc, two_zpow_units (x.exponentField - 1) (by omega),
        ← mul_div_assoc, Nat.cast_mul, Nat.cast_pow, Nat.cast_ofNat]
  constructor
  · intro hq
    by_cases hfinite : x.exponentField = 2047
    · -- Neither infinities nor NaNs denote a number.
      rw [value?, classify, if_pos hfinite] at hq
      split at hq
      next h => split at h <;> exact absurd h (by simp)
      next => exact absurd hq (by simp)
    · rw [hunits hfinite, Option.some.injEq] at hq
      exact ⟨hfinite, hq.symm⟩
  · rintro ⟨hfinite, rfl⟩
    exact hunits hfinite

/-! ## An integer between two floats -/

/-- An integer of at most 53 bits is itself a float. -/
theorem units_magnitudeBits {n : Nat} (h : n.log2 ≤ 52) :
    units (magnitudeBits n) = n * unitsInOne := by
  by_cases hn : n = 0
  · rw [hn, Nat.zero_mul]
    rfl
  · have hm := mantissa_bounds hn
    rw [magnitudeBits_eq hn, units_mantissa hm.1 hm.2, mantissa, if_pos h, Nat.shiftLeft_eq,
      Nat.mul_assoc, ← Nat.pow_add, two_pow_eq_units (k := 0) (by omega), Nat.pow_zero, Nat.one_mul]

/-- The first integer with a bit more. -/
theorem magnitudeBits_two_pow : magnitudeBits (2 ^ 53) = 1075 * hiddenBit + hiddenBit := by decide

theorem units_magnitudeBits_of_le {n : Nat} (h : n ≤ 2 ^ 53) :
    units (magnitudeBits n) = n * unitsInOne := by
  rcases Nat.lt_or_eq_of_le h with hlt | rfl
  · by_cases hn : n = 0
    · exact units_magnitudeBits (hn ▸ by decide)
    · exact units_magnitudeBits (Nat.le_of_lt_succ ((Nat.log2_lt hn).mpr hlt))
  · -- The next power of two has a bit more, which is zero.
    rw [magnitudeBits_two_pow, units_mantissa (Nat.le_refl _) (by decide),
      two_pow_eq_units (k := 1) rfl, ← Nat.mul_assoc]
    rfl

/-- A rounded magnitude is the largest float below the integer, or the one after that if
    the integer is larger than the former. -/
theorem magnitudeBits_floor (n : Nat) :
    ∃ b, units b ≤ n * unitsInOne ∧ n * unitsInOne < units (b + 1) ∧
      (magnitudeBits n = b ∨ magnitudeBits n = b + 1 ∧ units b < n * unitsInOne) := by
  by_cases he : n.log2 ≤ 52
  · refine ⟨magnitudeBits n, (units_magnitudeBits he).le, ?_, Or.inl rfl⟩
    rw [← units_magnitudeBits he]
    exact units_lt_succ _
  · -- The quotient is the mantissa of the float below, and what remains is less than a unit.
    have hn : n ≠ 0 := fun hz => he (hz ▸ by decide)
    have hpow : 2 ^ 52 * 2 ^ (n.log2 - 52) = 2 ^ n.log2 := by rw [← Nat.pow_add]; congr 1; omega
    have hpos : 0 < 2 ^ (n.log2 - 52) := Nat.two_pow_pos _
    have hq : hiddenBit ≤ n / 2 ^ (n.log2 - 52) := by
      rw [Nat.le_div_iff_mul_le hpos, show hiddenBit = 2 ^ 52 from rfl, hpow]
      exact Nat.log2_self_le hn
    have hq' : n / 2 ^ (n.log2 - 52) < 2 * hiddenBit := by
      rw [Nat.div_lt_iff_lt_mul hpos, show hiddenBit = 2 ^ 52 from rfl, Nat.mul_assoc, hpow,
        ← Nat.pow_succ']
      exact Nat.lt_log2_self
    have hbelow := units_mantissa hq hq'.le (n.log2 + 1022)
    have habove := units_mantissa (m := n / 2 ^ (n.log2 - 52) + 1) (by omega) (by omega)
      (n.log2 + 1022)
    have hexp : 2 ^ (n.log2 + 1022) = 2 ^ (n.log2 - 52) * unitsInOne :=
      two_pow_eq_units (by omega)
    rw [hexp, ← Nat.mul_assoc] at hbelow habove
    have hdiv := Nat.div_add_mod' n (2 ^ (n.log2 - 52))
    have hrest := Nat.mod_lt n hpos
    refine ⟨(n.log2 + 1022) * hiddenBit + n / 2 ^ (n.log2 - 52), ?_, ?_, ?_⟩
    · rw [hbelow]
      exact Nat.mul_le_mul_right _ (by omega)
    · rw [Nat.add_assoc, habove, Nat.succ_mul]
      exact Nat.mul_lt_mul_of_pos_right (by omega) unitsInOne_pos
    · rw [magnitudeBits_eq hn, mantissa, if_neg he, shiftRoundEven, Nat.one_shiftLeft]
      split
      next hup =>
        -- It is rounded up only if something remains.
        refine Or.inr ⟨by omega, ?_⟩
        rw [hbelow]
        exact Nat.mul_lt_mul_of_pos_right (by omega) unitsInOne_pos
      next => exact Or.inl rfl

/-- No float below an integer is above what the integer is rounded to. -/
theorem le_magnitudeBits {b n : Nat} (h : units b ≤ n * unitsInOne) : b ≤ magnitudeBits n := by
  rcases magnitudeBits_floor n with ⟨f, -, habove, hround⟩
  have hb : b < f + 1 := units_strictMono.lt_iff_lt.mp (Nat.lt_of_le_of_lt h habove)
  rcases hround with hr | ⟨hr, -⟩ <;> omega

/-- No float above an integer is below what the integer is rounded to. -/
theorem magnitudeBits_le {b n : Nat} (h : n * unitsInOne ≤ units b) : magnitudeBits n ≤ b := by
  rcases magnitudeBits_floor n with ⟨f, hbelow, -, hr | ⟨hr, hlt⟩⟩
  · rw [hr]
    exact units_strictMono.le_iff_le.mp (Nat.le_trans hbelow h)
  · rw [hr]
    exact units_strictMono.lt_iff_lt.mp (Nat.lt_of_lt_of_le hlt h)

/-! ## Rounding among all floats -/

/-- A number in units of the smallest float, with its sign. -/
def signedUnits (x : Binary64) : Int :=
  if x.isNegative then -(units x.magnitude : Int) else units x.magnitude

theorem value?_eq_signedUnits {x : Binary64} {q : ℚ} (h : x.value? = some q) :
    q * unitsInOne = x.signedUnits := by
  have hone : (unitsInOne : ℚ) ≠ 0 := Nat.cast_ne_zero.mpr unitsInOne_pos.ne'
  rw [(value?_eq_some_iff.mp h).2, signedUnits, mul_assoc, div_mul_cancel₀ _ hone]
  split <;> simp

/-- A float compares with an integer as its units do with those of the integer. -/
theorem lt_int_iff {x : Binary64} {q : ℚ} (h : x.value? = some q) (n : Int) :
    q < n ↔ x.signedUnits < n * unitsInOne := by
  have hone : (0 : ℚ) < unitsInOne := Nat.cast_pos.mpr unitsInOne_pos
  rw [← mul_lt_mul_iff_left₀ hone, value?_eq_signedUnits h]
  norm_cast

theorem int_lt_iff {x : Binary64} {q : ℚ} (h : x.value? = some q) (n : Int) :
    n < q ↔ n * unitsInOne < x.signedUnits := by
  have hone : (0 : ℚ) < unitsInOne := Nat.cast_pos.mpr unitsInOne_pos
  rw [← mul_lt_mul_iff_left₀ hone, value?_eq_signedUnits h]
  norm_cast

/-- Only the zero with a sign is a negative float of no units. -/
theorem eq_negativeZero {x : Binary64} (hneg : x.isNegative = true) (hx : units x.magnitude = 0) :
    x = negativeZero := by
  rw [← units_zero, units_strictMono.injective.eq_iff] at hx
  rw [isNegative, decide_eq_true_eq] at hneg
  have hbits := x.bits.toNat_lt
  rw [magnitude, signBit] at hx
  rw [signBit] at hneg
  refine congrArg mk (UInt64.toNat_inj.mp ?_)
  change x.bits.toNat = 9223372036854775808
  omega

section Rounded

variable {x : Binary64} {n : Int} (hlow : -2 ^ 63 ≤ n) (hhigh : n < 2 ^ 63)

include hlow hhigh

/-- A float that is not above an integer is not above what the integer is rounded to. -/
theorem totalKey_le_ofInt (h : x.signedUnits ≤ n * unitsInOne) :
    x.totalKey ≤ (ofInt n).totalKey := by
  have hone := unitsInOne_pos
  rw [totalKey_eq x, totalKey_ofInt hlow hhigh]
  rw [signedUnits] at h
  -- On either side of zero this is the same fact about magnitudes, read in opposite directions.
  rcases Int.lt_or_le n 0 with hn | hn
  · have hscale : n * unitsInOne = -((n.natAbs * unitsInOne : Nat) : Int) := by
      rw [Nat.cast_mul, Int.ofNat_natAbs_of_nonpos hn.le, Int.neg_mul, Int.neg_neg]
    have hpos : 0 < n.natAbs * unitsInOne := Nat.mul_pos (by omega) hone
    rw [hscale] at h
    rw [if_pos hn]
    split at h
    next hneg =>
      have hbits := magnitudeBits_le (b := x.magnitude) (n := n.natAbs) (by omega)
      rw [if_pos hneg]
      omega
    next => omega
  · have hscale : n * unitsInOne = ((n.natAbs * unitsInOne : Nat) : Int) := by
      rw [Nat.cast_mul, Int.natAbs_of_nonneg hn]
    rw [hscale] at h
    rw [if_neg (Int.not_lt.mpr hn)]
    split at h
    next hneg =>
      rw [if_pos hneg]
      omega
    next hpos =>
      have hbits := le_magnitudeBits (b := x.magnitude) (n := n.natAbs) (by omega)
      rw [if_neg hpos]
      omega

/-- A float that is not below an integer is not below what the integer is rounded to,
    the zero with a sign apart. -/
theorem ofInt_le_totalKey (h : n * unitsInOne ≤ x.signedUnits) :
    (ofInt n).totalKey ≤ x.totalKey ∨ x = negativeZero ∧ n = 0 := by
  rw [totalKey_eq x, totalKey_ofInt hlow hhigh]
  rw [signedUnits] at h
  rcases Int.lt_or_le n 0 with hn | hn
  · have hscale : n * unitsInOne = -((n.natAbs * unitsInOne : Nat) : Int) := by
      rw [Nat.cast_mul, Int.ofNat_natAbs_of_nonpos hn.le, Int.neg_mul, Int.neg_neg]
    rw [hscale] at h
    rw [if_pos hn]
    refine Or.inl ?_
    split at h
    next hneg =>
      have hbits := le_magnitudeBits (b := x.magnitude) (n := n.natAbs) (by omega)
      rw [if_pos hneg]
      omega
    next hpos =>
      rw [if_neg hpos]
      omega
  · have hscale : n * unitsInOne = ((n.natAbs * unitsInOne : Nat) : Int) := by
      rw [Nat.cast_mul, Int.natAbs_of_nonneg hn]
    rw [hscale] at h
    rw [if_neg (by omega)]
    split at h
    next hneg =>
      -- A negative float that is not below an integer from zero on is the zero with a sign.
      refine Or.inr ⟨eq_negativeZero hneg (by omega), ?_⟩
      have hzero : n.natAbs * unitsInOne = 0 := by omega
      rw [Nat.mul_eq_zero] at hzero
      exact Int.natAbs_eq_zero.mp (hzero.resolve_right unitsInOne_pos.ne')
    next hpos =>
      have hbits := magnitudeBits_le (b := x.magnitude) (n := n.natAbs) (by omega)
      rw [if_neg hpos]
      omega

end Rounded

/-- Up to `2 ^ 53` nothing is rounded. -/
theorem value?_ofInt {n : Int} (h : n.natAbs ≤ 2 ^ 53) : (ofInt n).value? = some (n : ℚ) := by
  have hbits := toNat_bits_ofInt (n := n) (by omega) (by omega)
  have hlt := magnitudeBits_lt (n := n.natAbs) (by omega)
  -- The sign is in the top bit alone, and the rest is the magnitude.
  have hmag : (ofInt n).magnitude = magnitudeBits n.natAbs := by
    rw [magnitude, hbits]
    split
    · rw [Nat.add_mod_right, Nat.mod_eq_of_lt hlt]
    · rw [Nat.add_zero, Nat.mod_eq_of_lt hlt]
  have hneg : (ofInt n).isNegative = decide (n < 0) := by
    rw [isNegative, hbits]
    split <;> rw [decide_eq_decide] <;> omega
  have hone : (unitsInOne : ℚ) ≠ 0 := Nat.cast_ne_zero.mpr unitsInOne_pos.ne'
  refine value?_eq_some_iff.mpr ⟨?_, ?_⟩
  · -- The exponent is not the one of infinities and NaNs.
    have hmono := magnitudeBits_mono h
    have hroom : 1075 * hiddenBit + hiddenBit < hiddenBit * 2047 := by decide
    rw [magnitudeBits_two_pow] at hmono
    rw [← magnitude_div, hmag]
    exact (Nat.div_lt_of_lt_mul (Nat.lt_of_le_of_lt hmono hroom)).ne
  · rw [hmag, units_magnitudeBits_of_le h, Nat.cast_mul, mul_div_cancel_right₀ _ hone, hneg]
    by_cases hn : n < 0
    · rw [if_pos (decide_eq_true hn), Nat.cast_natAbs, abs_of_neg hn]
      push_cast
      ring
    · rw [if_neg (by simpa using hn), Nat.cast_natAbs, abs_of_nonneg (by omega), one_mul]

end Binary64

end Actors
