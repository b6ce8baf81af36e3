import Actors.Wire.TermCodec
import Mathlib.Algebra.Order.Ring.Nat

/-!
# Reading Back What Was Written

A parser reads a value off some bytes if it gives that value whatever bytes
come after them, and leaves those bytes alone. This is what it takes for forms
to be written one after the other: `Reads.bind` puts two such facts together,
and the law of a whole format is put together from the laws of its parts.

A length that does not fit its type is refused, and a parser that refuses some
bytes refuses whatever starts with them.

## Main definitions

* `Wire.Reads`: A parser takes some bytes off the front and gives a value.
* `Wire.Refuses`: A parser refuses whatever starts with some bytes.

## Theorems

* `Reads.bind`: Values one after the other.
* `Refuses.bind`, `Reads.bind_refuses`: What is refused at the start or after it.
* `reads_varint`, `refuses_varintGroups`: Unsigned numbers, up to the largest of
  their type and beyond.
* `reads_encodeText`: Text after its length.
* `Pid.reads_encode`, `Ref.reads_encode`: Identifiers.
-/

namespace Actors

namespace Wire

variable {α β : Type}

/-- A parser takes some bytes off the front and gives a value, whatever comes
    after them. -/
def Reads (p : Parser α) (bytes : List UInt8) (a : α) : Prop :=
  ∀ rest, p.run (bytes ++ rest) = .ok (a, rest)

theorem reads_pure (a : α) : Reads (pure a) [] a := fun _ => rfl

theorem Reads.bind {p : Parser α} {f : α → Parser β} {xs ys : List UInt8} {a : α} {b : β}
    (hp : Reads p xs a) (hf : Reads (f a) ys b) : Reads (p >>= f) (xs ++ ys) b := by
  intro rest
  rw [List.append_assoc, Parser.run_bind_ok (hp _), hf]

/-- What is read is judged without reading on. -/
theorem Reads.bind_nil {p : Parser α} {f : α → Parser β} {xs : List UInt8} {a : α} {b : β}
    (hp : Reads p xs a) (hf : Reads (f a) [] b) : Reads (p >>= f) xs b := by
  rw [← List.append_nil xs]
  exact hp.bind hf

/-- What is read is turned into something else. -/
theorem Reads.map {p : Parser α} {xs : List UInt8} {a : α} (hp : Reads p xs a) (f : α → β) :
    Reads (p >>= fun a => pure (f a)) xs (f a) := hp.bind_nil (reads_pure (f a))

theorem reads_byte (b : UInt8) : Reads .byte [b] b := fun _ => rfl

theorem reads_take (front : List UInt8) : Reads (.take front.length) front front :=
  Parser.run_take front

/-- A parser refuses whatever starts with some bytes. -/
def Refuses (p : Parser α) (bytes : List UInt8) : Prop :=
  ∀ rest, ∃ e, p.run (bytes ++ rest) = .error e

theorem refuses_fail (e : DecodeError) (bytes : List UInt8) :
    Refuses (.fail e : Parser α) bytes := fun _ => ⟨e, rfl⟩

/-- What is refused at the start is refused. -/
theorem Refuses.bind {p : Parser α} {xs : List UInt8} (hp : Refuses p xs) (f : α → Parser β)
    (ys : List UInt8) : Refuses (p >>= f) (xs ++ ys) := by
  intro rest
  rcases hp (ys ++ rest) with ⟨e, he⟩
  rw [List.append_assoc]
  exact ⟨e, Parser.run_bind_error he⟩

theorem Refuses.bind_nil {p : Parser α} {xs : List UInt8} (hp : Refuses p xs)
    (f : α → Parser β) : Refuses (p >>= f) xs := by
  rw [← List.append_nil xs]
  exact hp.bind f []

/-- What is refused after a good start is refused. -/
theorem Reads.bind_refuses {p : Parser α} {f : α → Parser β} {xs ys : List UInt8} {a : α}
    (hp : Reads p xs a) (hf : Refuses (f a) ys) : Refuses (p >>= f) (xs ++ ys) := by
  intro rest
  rcases hf rest with ⟨e, he⟩
  rw [List.append_assoc, Parser.run_bind_ok (hp _)]
  exact ⟨e, he⟩

/-! ## Numbers -/

theorem toNat_toUInt8 {n : Nat} (h : n < 256) : n.toUInt8.toNat = n :=
  UInt8.toNat_ofNat_of_lt' h

theorem reads_varintGroups {last : Nat} (hlast : last < 128) (k n : Nat)
    (hn : n < 128 ^ k * (last + 1)) :
    Reads (readVarintGroups last (k + 1)) (varintGroups (k + 1) n) n := by
  induction k generalizing n with
  | zero =>
      -- The last byte a number may have holds no more than the type allows.
      rw [Nat.pow_zero, Nat.one_mul, Nat.lt_succ_iff] at hn
      have hsmall : n < 128 := Nat.lt_of_le_of_lt hn hlast
      have hbyte : n.toUInt8.toNat = n := toNat_toUInt8 (by omega)
      rw [varintGroups, if_pos hsmall]
      refine (reads_byte _).bind_nil ?_
      rw [hbyte, if_pos hsmall, if_neg fun h => Nat.not_lt.mpr hn h.2]
      exact reads_pure n
  | succ k ih =>
      by_cases hsmall : n < 128
      · have hbyte : n.toUInt8.toNat = n := toNat_toUInt8 (by omega)
        rw [varintGroups, if_pos hsmall]
        refine (reads_byte _).bind_nil ?_
        rw [hbyte, if_pos hsmall, if_neg fun h => Nat.succ_ne_zero k h.1]
        exact reads_pure n
      · -- The top bit announces the groups of what is left.
        have hbyte : (n % 128 + 128).toUInt8.toNat = n % 128 + 128 := toNat_toUInt8 (by omega)
        have hrest : n / 128 < 128 ^ k * (last + 1) := by
          refine Nat.div_lt_of_lt_mul ?_
          rwa [← Nat.mul_assoc, Nat.mul_comm 128, ← Nat.pow_succ]
        rw [varintGroups, if_neg hsmall, ← List.singleton_append]
        refine (reads_byte _).bind ?_
        rw [hbyte, if_neg (by omega)]
        have hsum : n % 128 + 128 - 128 + 128 * (n / 128) = n := by omega
        have hread := (ih (n / 128) hrest).map fun high => n % 128 + 128 - 128 + 128 * high
        rwa [hsum] at hread

theorem reads_varint {type : VarintType} {k n : Nat} (hk : type.maxBytes = k + 1)
    (hlast : type.lastByteMax < 128) (hn : n < 128 ^ k * (type.lastByteMax + 1)) :
    Reads (readVarint type) (varint type n) n := by
  rw [readVarint, varint, hk]
  exact reads_varintGroups hlast k n hn

/-- A number that is too large for its type is refused. -/
theorem refuses_varintGroups (last k n : Nat) (hn : 128 ^ k * (last + 1) ≤ n) :
    Refuses (readVarintGroups last (k + 1)) (varintGroups (k + 1) n) := by
  induction k generalizing n with
  | zero =>
      rw [Nat.pow_zero, Nat.one_mul] at hn
      by_cases hsmall : n < 128
      · -- The last byte is larger than the type allows.
        have hbyte : n.toUInt8.toNat = n := toNat_toUInt8 (by omega)
        rw [varintGroups, if_pos hsmall, ← List.append_nil [n.toUInt8]]
        refine (reads_byte _).bind_refuses ?_
        rw [hbyte, if_pos hsmall, if_pos ⟨rfl, hn⟩]
        exact refuses_fail .badVarint []
      · -- The last byte announces another one, for which there is no room.
        have hbyte : (n % 128 + 128).toUInt8.toNat = n % 128 + 128 := toNat_toUInt8 (by omega)
        rw [varintGroups, if_neg hsmall, varintGroups]
        refine (reads_byte _).bind_refuses ?_
        rw [hbyte, if_neg (by omega)]
        exact (refuses_fail .badVarint []).bind_nil _
  | succ k ih =>
      -- What is left after the first group is still too large for the groups that remain.
      have hpow : 128 ^ (k + 1) * (last + 1) = 128 ^ k * (last + 1) * 128 := by
        rw [Nat.pow_succ, Nat.mul_right_comm]
      have hrest : 128 ^ k * (last + 1) ≤ n / 128 := by
        rwa [Nat.le_div_iff_mul_le (by decide), ← hpow]
      have hpos : 0 < 128 ^ k * (last + 1) :=
        Nat.mul_pos (Nat.pow_pos (by decide)) (Nat.succ_pos last)
      have hlarge : ¬ n < 128 := by omega
      have hbyte : (n % 128 + 128).toUInt8.toNat = n % 128 + 128 := toNat_toUInt8 (by omega)
      rw [varintGroups, if_neg hlarge, ← List.singleton_append]
      refine (reads_byte _).bind_refuses ?_
      rw [hbyte, if_neg (by omega)]
      exact (ih (n / 128) hrest).bind_nil _

theorem reads_word32 (n : UInt32) : Reads readWord32 (encodeWord32 n) n := by
  have hn : Reads (readVarint .word32) (encodeWord32 n) n.toNat :=
    reads_varint (k := 4) rfl (by decide) n.toNat_lt
  have h := hn.map Nat.toUInt32
  rwa [show n.toNat.toUInt32 = n from UInt32.ofNat_toNat] at h

theorem reads_word64 {n : Nat} (hn : n < UInt64.size) :
    Reads (readVarint .word64) (varint .word64 n) n :=
  reads_varint (k := 9) rfl (by decide) hn

theorem reads_length {n : Nat} (hn : n < UInt64.size) : Reads readLength (encodeLength n) n :=
  reads_word64 hn

theorem refuses_length {n : Nat} (hn : UInt64.size ≤ n) : Refuses readLength (encodeLength n) :=
  refuses_varintGroups 1 9 n hn

/-- The number of a kind is a byte. -/
theorem reads_kind {k : Nat} (hk : k < 128) : Reads (readVarint .word32) [k.toUInt8] k := by
  have h : Reads (readVarint .word32) (varintGroups 5 k) k :=
    reads_varint (k := 4) rfl (by decide) (Nat.lt_of_lt_of_le hk (by decide))
  rwa [varintGroups, if_pos hk] at h

theorem zigzag_lt (n : Int64) : zigzag n.toInt < UInt64.size := by
  have hlow := n.le_toInt
  have hhigh := n.toInt_lt
  rw [zigzag, UInt64.size]
  split <;> omega

theorem length_littleEndian (k n : Nat) : (littleEndian k n).length = k := by
  induction k generalizing n with
  | zero => rfl
  | succ k ih => rw [littleEndian, List.length_cons, ih]

theorem reads_littleEndian (n : UInt64) :
    Reads (.take 8) (littleEndian 8 n.toNat) (littleEndian 8 n.toNat) := by
  have h := reads_take (littleEndian 8 n.toNat)
  rwa [length_littleEndian] at h

theorem ofLittleEndian_word64 (n : UInt64) :
    (ofLittleEndian (littleEndian 8 n.toNat)).toUInt64 = n := by
  have hlt : n.toNat < Nat.pow 256 8 := n.toNat_lt
  rw [ofLittleEndian_littleEndian, Nat.mod_eq_of_lt hlt]
  exact UInt64.ofNat_toNat

/-! ## Text, bytes and identifiers -/

theorem reads_encodeText {s : String} (h : (Text.bytes s).length < UInt64.size) :
    Reads readText (encodeText s) s := by
  refine (reads_length h).bind ?_
  refine (reads_take (Text.bytes s)).bind_nil ?_
  rw [Text.ofBytes?_bytes]
  exact reads_pure s

theorem refuses_encodeText {s : String} (h : UInt64.size ≤ (Text.bytes s).length) :
    Refuses readText (encodeText s) := (refuses_length h).bind _ _

/-- Four numbers, and whatever is made of them. -/
theorem reads_parts (build : UInt32 → UInt32 → UInt32 → UInt32 → α)
    (node id serial creation : UInt32) :
    Reads (do
        let node ← readWord32
        let id ← readWord32
        let serial ← readWord32
        let creation ← readWord32
        return build node id serial creation)
      (encodeParts node id serial creation) (build node id serial creation) := by
  rw [encodeParts, List.append_assoc, List.append_assoc]
  refine (reads_word32 node).bind ((reads_word32 id).bind ((reads_word32 serial).bind ?_))
  exact (reads_word32 creation).map (build node id serial)

end Wire

open Wire

theorem Pid.reads_encode (p : Pid) : Reads Pid.read p.encode p :=
  reads_parts Pid.mk p.node p.id p.serial p.creation

theorem Ref.reads_encode (r : Ref) : Reads Ref.read r.encode r :=
  reads_parts Ref.mk r.node r.id r.serial r.creation

end Actors
