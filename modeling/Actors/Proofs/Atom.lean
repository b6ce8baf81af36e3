import Actors.Term.Numbered

/-!
# Atoms and Their Texts

A table only grows, and it grows at the end, so an atom keeps its text. In one
table every known atom has its own text. Together the two say that looking the
text of an atom up and interning it again gives the same atom, in the same
table or in a later one.

The number of an atom has 32 bits. A text gets a number of its own as long as
the table has not outgrown them.

## Main definitions

* `Interner.Grows`: A table is a later state of another one.

## Theorems

* `Atom.text_of_grows`: An atom keeps its text.
* `Atom.text_inj`: Different atoms have different texts.
* `Atom.new_text`: The text of an atom gives the atom back.
* `Atom.text_new`: A new atom has the text it was made from.
* `Atom.order_eq`: Atoms stand in the order of their texts.
-/

namespace Actors

namespace Interner

/-- A table is a later state of another one. -/
def Grows (t t' : Interner) : Prop := t.names <+: t'.names

variable {t t' t'' : Interner}

theorem Grows.refl (t : Interner) : t.Grows t := List.prefix_rfl

theorem Grows.trans (h : t.Grows t') (h' : t'.Grows t'') : t.Grows t'' := List.IsPrefix.trans h h'

theorem Grows.size (h : t.Grows t') : t.size ≤ t'.size := List.IsPrefix.length_le h

/-- A number keeps its meaning. -/
theorem Grows.nameAt? (h : t.Grows t') {s : String} {index : Nat} (hi : t.nameAt? index = some s) :
    t'.nameAt? index = some s := by
  rcases h with ⟨rest, hrest⟩
  have hlt : index < t.names.length := (List.getElem?_eq_some_iff.mp hi).1
  rw [Interner.nameAt?, ← hrest, List.getElem?_append_left hlt]
  exact hi

theorem grows_intern (t : Interner) (s : String) : t.Grows (t.intern s).2 := by
  rcases intern_cases t s with ⟨index, -, h⟩ | ⟨-, -, h⟩
  · rw [h]
    exact .refl t
  · rw [Grows, h]
    exact List.prefix_append t.names [s]

theorem size_intern_le (t : Interner) (s : String) : (t.intern s).2.size ≤ t.size + 1 := by
  rcases intern_cases t s with ⟨index, -, h⟩ | ⟨-, -, h⟩
  · rw [h]
    exact Nat.le_succ t.size
  · rw [size, h]
    exact Nat.le_of_eq List.length_append

/-- A text that has a number keeps it. -/
theorem intern_of_nameAt? {s : String} {index : Nat} (h : t.nameAt? index = some s) :
    t.intern s = (index, t) := by
  rw [nameAt?_eq_some_iff] at h
  rcases intern_cases t s with ⟨index', h', hi⟩ | ⟨hnone, -, -⟩
  · rw [h, Option.some.injEq] at h'
    rw [hi, h']
  · rw [h] at hnone
    exact absurd hnone (by simp)

theorem nameAt?_of_intern (t : Interner) (s : String) :
    (t.intern s).2.nameAt? (t.intern s).1 = some s :=
  nameAt?_eq_some_iff.mpr (indexOf?_intern_self t s)

theorem lt_size_of_nameAt? {s : String} {index : Nat} (h : t.nameAt? index = some s) :
    index < t.size := (List.getElem?_eq_some_iff.mp h).1

/-- A text has only one number. -/
theorem eq_of_nameAt? {s : String} {i j : Nat} (hi : t.nameAt? i = some s)
    (hj : t.nameAt? j = some s) : i = j := by
  rw [nameAt?_eq_some_iff] at hi hj
  exact Option.some.inj (hi.symm.trans hj)

end Interner

namespace Atom

open Interner

variable {t t' : Interner} {a b : Atom}

theorem nameAt?_of_known (h : a.isKnown t = true) :
    t.nameAt? a.index.toNat = some (a.text t) := by
  have hlt : a.index.toNat < t.names.length := of_decide_eq_true h
  rw [text, nameAt?, List.getElem?_eq_getElem hlt, Option.getD_some]

theorem known_of_grows (hg : t.Grows t') (h : a.isKnown t = true) : a.isKnown t' = true :=
  decide_eq_true (Nat.lt_of_lt_of_le (of_decide_eq_true h) hg.size)

/-- An atom keeps its text. -/
theorem text_of_grows (hg : t.Grows t') (h : a.isKnown t = true) : a.text t' = a.text t := by
  have hlt : a.index.toNat < t.names.length := of_decide_eq_true h
  rcases hg with ⟨rest, hrest⟩
  rw [text, text, nameAt?, nameAt?, ← hrest, List.getElem?_append_left hlt]

/-- Different atoms have different texts. -/
theorem text_inj (ha : a.isKnown t = true) (hb : b.isKnown t = true)
    (h : a.text t = b.text t) : a = b := by
  have hna := nameAt?_of_known ha
  have hnb := nameAt?_of_known hb
  rw [nameAt?_eq_some_iff] at hna hnb
  -- One text has one number in the table, and an atom is its number.
  rw [h, hnb, Option.some.injEq, UInt32.toNat_inj] at hna
  rcases a with ⟨i⟩
  rcases b with ⟨j⟩
  rw [Atom.mk.injEq]
  exact hna.symm

/-- The text of an atom gives the atom back. -/
theorem new_text (h : a.isKnown t = true) : new t (a.text t) = (a, t) := by
  rw [new, intern_of_nameAt? (nameAt?_of_known h)]
  simp only [Nat.toUInt32_eq, UInt32.ofNat_toNat]

theorem grows_new (t : Interner) (s : String) : t.Grows (new t s).2 := grows_intern t s

theorem index_new {s : String} (h : (new t s).2.size ≤ UInt32.size) :
    (new t s).1.index.toNat = (t.intern s).1 := by
  have hlt := lt_size_of_nameAt? (nameAt?_of_intern t s)
  exact UInt32.toNat_ofNat_of_lt' (Nat.lt_of_lt_of_le hlt h)

theorem known_new {s : String} (h : (new t s).2.size ≤ UInt32.size) :
    (new t s).1.isKnown (new t s).2 = true := by
  refine decide_eq_true ?_
  rw [index_new h]
  exact lt_size_of_nameAt? (nameAt?_of_intern t s)

/-- A new atom has the text it was made from. -/
theorem text_new {s : String} (h : (new t s).2.size ≤ UInt32.size) :
    (new t s).1.text (new t s).2 = s := by
  rw [text, index_new h]
  change ((t.intern s).2.nameAt? (t.intern s).1).getD "" = s
  rw [nameAt?_of_intern, Option.getD_some]

/-- Atoms stand in the order of their texts. -/
theorem order_eq (t : Interner) (a b : Atom) : a.order t b = Text.order (a.text t) (b.text t) := by
  rw [order]
  split
  next h => rw [h, Text.order_eq_iff.mpr rfl]
  next => rfl

end Atom

end Actors
