import Actors.Wire.Parser

/-!
# Numbers on the Wire

Unsigned numbers are written seven bits to a byte, the lowest first; the top
bit of a byte says that another one follows. Signed numbers are first folded
onto the unsigned ones, alternating between the two signs, so that small
numbers of either sign stay short. Floats are written as their eight bytes,
the lowest first.

A reader accepts more than the writer produces: a number may be padded with
empty groups as long as it stays within the length of its type, and only the
bits that fit the type may be set.

## Main definitions

* `Wire.VarintType`: How long a number of some type can be.
* `Wire.varint`, `Wire.readVarint`: Unsigned numbers.
* `Wire.zigzag`, `Wire.unzigzag`: Signed numbers as unsigned ones.
* `Wire.littleEndian`, `Wire.ofLittleEndian`: Numbers of fixed width.

## Theorems

* `unzigzag_zigzag`: Folding the signs loses nothing.
* `ofLittleEndian_littleEndian`: A number of fixed width is read back.
-/

namespace Actors

namespace Wire

/-- How long a number of some type can be. -/
structure VarintType where
  /-- The most bytes a number takes. -/
  maxBytes : Nat
  /-- The largest value of a last byte at that length. -/
  lastByteMax : Nat
deriving DecidableEq, Repr

/-- Numbers of 32 bits: four full groups and four bits. -/
def VarintType.word32 : VarintType := ⟨5, 15⟩

/-- Numbers of 64 bits: nine full groups and one bit. -/
def VarintType.word64 : VarintType := ⟨10, 1⟩

/-- The groups of an unsigned number, at most as many as the first argument. -/
def varintGroups : Nat → Nat → List UInt8
  | 0, _ => []
  | k + 1, n =>
      if n < 128 then [n.toUInt8] else (n % 128 + 128).toUInt8 :: varintGroups k (n / 128)

/-- An unsigned number of some type. -/
def varint (type : VarintType) (n : Nat) : List UInt8 := varintGroups type.maxBytes n

/-- Reads the groups of a number, at most as many as the second argument. -/
def readVarintGroups (lastByteMax : Nat) : Nat → Parser Nat
  | 0 => .fail .badVarint
  | k + 1 => do
      let b ← .byte
      if b.toNat < 128 then
        if k = 0 ∧ lastByteMax < b.toNat then .fail .badVarint else pure b.toNat
      else
        let high ← readVarintGroups lastByteMax k
        pure (b.toNat - 128 + 128 * high)

/-- Reads an unsigned number of some type. -/
def readVarint (type : VarintType) : Parser Nat :=
  readVarintGroups type.lastByteMax type.maxBytes

/-- A signed number as an unsigned one: 0, -1, 1, -2, 2 and so on. -/
def zigzag (n : Int) : Nat := if 0 ≤ n then 2 * n.natAbs else 2 * n.natAbs - 1

/-- The signed number behind an unsigned one. -/
def unzigzag (n : Nat) : Int := if n % 2 = 0 then (n / 2 : Nat) else -((n / 2 + 1 : Nat) : Int)

/-- A number in a fixed number of bytes, the lowest first. -/
def littleEndian : Nat → Nat → List UInt8
  | 0, _ => []
  | k + 1, n => (n % 256).toUInt8 :: littleEndian k (n / 256)

/-- The number that some bytes spell, the lowest first. -/
def ofLittleEndian : List UInt8 → Nat
  | [] => 0
  | b :: rest => b.toNat + 256 * ofLittleEndian rest

theorem unzigzag_zigzag (n : Int) : unzigzag (zigzag n) = n := by
  unfold zigzag unzigzag
  split <;> split <;> omega

theorem ofLittleEndian_littleEndian (k n : Nat) :
    ofLittleEndian (littleEndian k n) = n % Nat.pow 256 k := by
  induction k generalizing n with
  | zero => simp [littleEndian, ofLittleEndian, Nat.mod_one]
  | succ k ih =>
      have hb : (n % 256).toUInt8.toNat = n % 256 := by simp
      have hp : Nat.pow 256 (k + 1) = 256 * Nat.pow 256 k := Nat.mul_comm (Nat.pow 256 k) 256
      rw [littleEndian, ofLittleEndian, ih, hb, hp, Nat.mod_mul]

end Wire

end Actors
