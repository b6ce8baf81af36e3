import Actors.Binary64
import Mathlib.Algebra.Order.Ring.Int

/-!
# Rounding Keeps the Order

An integer that meets a float is rounded first, and above `2 ^ 53` rounding
loses something. It never turns two integers around: a larger magnitude has
larger bits. Magnitudes of one power of two are shifted by the same amount, and
rounding to even is monotone. A mantissa that is rounded up reaches the next
power of two at most, and the next power of two has the next exponent.

## Theorems

* `shiftRoundEven_mono`: Rounding to even is monotone.
* `mantissa_bounds`: A mantissa lies between two powers of two.
* `magnitudeBits_mono`: A larger magnitude has larger bits.
* `totalKey_ofInt`: The place of a rounded integer.
* `totalKey_ofInt_mono`: Rounding never turns two integers around.
-/

namespace Actors

namespace Binary64

theorem shiftRoundEven_le (n shift : Nat) : shiftRoundEven n shift ≤ n / 2 ^ shift + 1 := by
  rw [shiftRoundEven, Nat.one_shiftLeft]
  split <;> omega

theorem le_shiftRoundEven (n shift : Nat) : n / 2 ^ shift ≤ shiftRoundEven n shift := by
  rw [shiftRoundEven, Nat.one_shiftLeft]
  split <;> omega

/-- Rounding to even is monotone. -/
theorem shiftRoundEven_mono {m n : Nat} (h : m ≤ n) (shift : Nat) :
    shiftRoundEven m shift ≤ shiftRoundEven n shift := by
  rcases Nat.lt_or_eq_of_le (Nat.div_le_div_right (c := 2 ^ shift) h) with hlt | heq
  · exact Nat.le_trans (shiftRoundEven_le m shift)
      (Nat.le_trans hlt (le_shiftRoundEven n shift))
  · -- With the same quotient it is the rests that are compared.
    have hrest : m % 2 ^ shift ≤ n % 2 ^ shift := by
      have hm := Nat.div_add_mod m (2 ^ shift)
      have hn := Nat.div_add_mod n (2 ^ shift)
      rw [heq] at hm
      omega
    simp only [shiftRoundEven, Nat.one_shiftLeft, heq]
    split <;> split <;> omega

/-- The mantissa of a number with the leading one at a given place. -/
def mantissa (n e : Nat) : Nat := if e ≤ 52 then n <<< (52 - e) else shiftRoundEven n (e - 52)

theorem magnitudeBits_eq {n : Nat} (h : n ≠ 0) :
    magnitudeBits n = (n.log2 + 1022) * hiddenBit + mantissa n n.log2 := by
  rw [magnitudeBits, if_neg h]
  rfl

theorem mantissa_mono {m n : Nat} (h : m ≤ n) (e : Nat) : mantissa m e ≤ mantissa n e := by
  rw [mantissa, mantissa]
  split
  · rw [Nat.shiftLeft_eq, Nat.shiftLeft_eq]
    exact Nat.mul_le_mul_right _ h
  · exact shiftRoundEven_mono h _

/-- A mantissa has its leading one in the hidden place, or is rounded up to the
    next power of two. -/
theorem mantissa_bounds {n : Nat} (h : n ≠ 0) :
    hiddenBit ≤ mantissa n n.log2 ∧ mantissa n n.log2 ≤ 2 * hiddenBit := by
  have hlow := Nat.log2_self_le h
  have hhigh := Nat.lt_log2_self (n := n)
  have hbit : hiddenBit = 2 ^ 52 := rfl
  rw [mantissa]
  split
  next he =>
    -- The shift moves the leading one into the hidden place, and nothing is lost.
    have hpow : 2 ^ n.log2 * 2 ^ (52 - n.log2) = 2 ^ 52 := by rw [← Nat.pow_add]; congr 1; omega
    rw [Nat.shiftLeft_eq, hbit, ← hpow]
    refine ⟨Nat.mul_le_mul_right _ hlow, ?_⟩
    rw [← Nat.mul_assoc, ← Nat.pow_succ']
    exact Nat.mul_le_mul_right _ (Nat.le_of_lt hhigh)
  next he =>
    -- What is shifted out may round the rest up, by one at most.
    have hpow : 2 ^ 52 * 2 ^ (n.log2 - 52) = 2 ^ n.log2 := by rw [← Nat.pow_add]; congr 1; omega
    have hpos : 0 < 2 ^ (n.log2 - 52) := Nat.two_pow_pos _
    refine ⟨Nat.le_trans ?_ (le_shiftRoundEven n _),
      Nat.le_trans (shiftRoundEven_le n _) (Nat.succ_le_of_lt ?_)⟩
    · rwa [Nat.le_div_iff_mul_le hpos, hbit, hpow]
    · rwa [Nat.div_lt_iff_lt_mul hpos, hbit, Nat.mul_assoc, hpow, ← Nat.pow_succ']

/-- A larger magnitude has larger bits. -/
theorem magnitudeBits_mono {m n : Nat} (h : m ≤ n) : magnitudeBits m ≤ magnitudeBits n := by
  by_cases hm : m = 0
  · rw [magnitudeBits, if_pos hm]
    exact Nat.zero_le _
  · have hn : n ≠ 0 := by omega
    rw [magnitudeBits_eq hm, magnitudeBits_eq hn]
    have hlog : m.log2 ≤ n.log2 := by
      rw [Nat.le_log2 hn]
      exact Nat.le_trans (Nat.log2_self_le hm) h
    rcases Nat.lt_or_eq_of_le hlog with hlt | heq
    · -- What is rounded up reaches no further than the next power of two.
      have hexp : (m.log2 + 1022 + 1) * hiddenBit ≤ (n.log2 + 1022) * hiddenBit :=
        Nat.mul_le_mul_right _ (by omega)
      rw [Nat.succ_mul] at hexp
      have hup := (mantissa_bounds hm).2
      have hdown := (mantissa_bounds hn).1
      omega
    · rw [heq]
      exact Nat.add_le_add_left (mantissa_mono h n.log2) _

/-- The bits of a magnitude that fits a signed word leave the sign bit alone. -/
theorem magnitudeBits_lt {n : Nat} (h : n ≤ 2 ^ 63) : magnitudeBits n < signBit := by
  by_cases hn : n = 0
  · rw [magnitudeBits, if_pos hn]
    decide
  · have hlog : n.log2 ≤ 63 := by
      rw [Nat.le_iff_lt_add_one, Nat.log2_lt hn]
      exact Nat.lt_of_le_of_lt h (by decide)
    -- The exponent is far from the largest, so even a mantissa that is rounded up leaves room.
    have hexp : (n.log2 + 1022) * hiddenBit ≤ (63 + 1022) * hiddenBit :=
      Nat.mul_le_mul_right _ (by omega)
    have hup := (mantissa_bounds hn).2
    rw [magnitudeBits_eq hn]
    have hroom : (63 + 1022) * hiddenBit + 2 * hiddenBit < signBit := by decide
    omega

theorem toNat_bits_ofInt {n : Int} (hlow : -2 ^ 63 ≤ n) (hhigh : n < 2 ^ 63) :
    (ofInt n).bits.toNat = magnitudeBits n.natAbs + if n < 0 then signBit else 0 := by
  have hlt := magnitudeBits_lt (n := n.natAbs) (by omega)
  have hsign : signBit = 2 ^ 63 := rfl
  refine UInt64.toNat_ofNat_of_lt' ?_
  rw [UInt64.size]
  split <;> omega

/-- The place of a rounded integer among all floats. -/
theorem totalKey_ofInt {n : Int} (hlow : -2 ^ 63 ≤ n) (hhigh : n < 2 ^ 63) :
    (ofInt n).totalKey =
      if n < 0 then -1 - (magnitudeBits n.natAbs : Int) else magnitudeBits n.natAbs := by
  have hlt := magnitudeBits_lt (n := n.natAbs) (by omega)
  rw [totalKey, toNat_bits_ofInt hlow hhigh]
  split
  next hneg => rw [if_neg (by omega)]; push_cast; omega
  next => rw [Nat.add_zero, if_pos hlt]

/-- Rounding never turns two integers around. -/
theorem totalKey_ofInt_mono {m n : Int} (hm : -2 ^ 63 ≤ m) (hn : n < 2 ^ 63) (h : m ≤ n) :
    (ofInt m).totalKey ≤ (ofInt n).totalKey := by
  rw [totalKey_ofInt hm (by omega), totalKey_ofInt (by omega) hn]
  -- The place goes up with the magnitude on one side of zero, and down on the other.
  split <;> split
  · have hmono := magnitudeBits_mono (m := n.natAbs) (n := m.natAbs) (by omega)
    omega
  · omega
  · omega
  · have hmono := magnitudeBits_mono (m := m.natAbs) (n := n.natAbs) (by omega)
    omega

end Binary64

end Actors
