import Actors.Dict

/-!
# Interned Names

A table that gives every name a number. Numbers are handed out in the order
in which names are first seen and never change their meaning, so a number can
stand for its name anywhere the table is at hand. The atoms of a program are
numbers of one such table, and the node part of a process identifier is a
number of another.

The table is looked up both ways, so it holds its names twice: as a vector, in
which a number finds its name, and as a map, in which a name finds its number.
The type says that the two agree. So the map is determined by the vector, and
whatever is asked of the table can be answered from the list of its names
alone: the number of a name is its position.

## Main definitions

* `Interner`: The names seen so far, by number and by name.
* `Interner.intern`: The number of a name, giving it one on first use.
* `Interner.indexOf?`: The number of a name that has one.
* `Interner.nameAt?`: The name behind a number.

## Theorems

* `nodup`: No name has two numbers.
* `nameAt?_eq_some_iff`: Looking up by number and by name are inverse.
* `nameAt?_intern`: Interning never changes what an old number means.
* `indexOf?_intern_self`: A name that was interned has the number it was given.
* `indexOf?_eq_idxOf?`, `fst_intern`, `names_intern`: The table answers as the list
  of its names does.
-/

namespace Actors

/-- A table of names with a number each. -/
structure Interner where
  /-- The names by number, in the order in which they were first seen. -/
  names : List String
  /-- The numbers by name. -/
  numbers : Dict String Nat
  /-- A name and a number point at each other or not at all. -/
  agree : ∀ name index, numbers.get? name = some index ↔ names[index]? = some name

namespace Interner

/-- The table in which some names have been seen, each of them once. -/
def ofNames (names : List String) (h : names.Nodup) : Interner where
  names := names
  numbers :=
    { entries := names.zipIdx
      nodup := by rwa [List.zipIdx_map_fst] }
  agree name index := by
    rw [← Dict.mem_entries_iff]
    exact List.mem_zipIdx_iff_getElem?

/-- The table that has seen no name. -/
def empty : Interner := ofNames [] List.nodup_nil

instance : Inhabited Interner := ⟨empty⟩

/-- The table that has seen one name, whose number is therefore zero. -/
def singleton (name : String) : Interner := ofNames [name] (by simp)

/-- How many names have a number. -/
def size (t : Interner) : Nat := t.names.length

/-- The number of a name that has been seen. -/
def indexOf? (t : Interner) (name : String) : Option Nat := t.numbers.get? name

/-- The name behind a number. -/
def nameAt? (t : Interner) (index : Nat) : Option String := t.names[index]?

/-- What stands where in a list that got one more name at its end. -/
theorem getElem?_concat_eq_some_iff {names : List String} {name name' : String} {index : Nat} :
    (names ++ [name])[index]? = some name' ↔
      names[index]? = some name' ∨ index = names.length ∧ name' = name := by
  rw [List.getElem?_append]
  split
  next hlt => exact (or_iff_left fun h => Nat.ne_of_lt hlt h.1).symm
  next hge =>
    rw [List.getElem?_eq_none (Nat.le_of_not_lt hge), or_iff_right (by simp)]
    by_cases heq : index = names.length
    · simp [heq, eq_comm]
    · -- Behind the end of the longer list there is nothing.
      have hlen : [name].length ≤ index - names.length := by
        rw [List.length_singleton]
        omega
      rw [List.getElem?_eq_none hlen]
      simp [heq]

/-- A new name is entered on both sides under the first free number. -/
theorem agree_concat {t : Interner} {name : String} (h : t.indexOf? name = none)
    (name' : String) (index : Nat) :
    (t.numbers.insert name t.size).get? name' = some index ↔
      (t.names ++ [name])[index]? = some name' := by
  rw [Dict.get?_insert, getElem?_concat_eq_some_iff, ← t.agree name' index]
  split
  next heq =>
    -- The map did not know the name, so only the last place of the vector holds it.
    rw [heq, show t.numbers.get? name = none from h, Option.some.injEq, or_iff_right (by simp)]
    exact ⟨fun hi => ⟨hi.symm, rfl⟩, fun hi => hi.1.symm⟩
  next hne => exact (or_iff_left fun hi => hne hi.2).symm

/-- The number of a name. A name that is new is given the next number, and the
    vector and the map both learn of it. -/
def intern (t : Interner) (name : String) : Nat × Interner :=
  match h : t.indexOf? name with
  | some index => (index, t)
  | none =>
      (t.size,
        { names := t.names ++ [name]
          numbers := t.numbers.insert name t.size
          agree := agree_concat h })

/-- A number and a name point at each other or not at all. -/
theorem nameAt?_eq_some_iff {t : Interner} {name : String} {index : Nat} :
    t.nameAt? index = some name ↔ t.indexOf? name = some index :=
  (t.agree name index).symm

/-- A name is interned by finding its number or by making one, and never both. -/
theorem intern_cases (t : Interner) (name : String) :
    (∃ index, t.indexOf? name = some index ∧ t.intern name = (index, t)) ∨
      t.indexOf? name = none ∧ (t.intern name).1 = t.size ∧
        (t.intern name).2.names = t.names ++ [name] := by
  rw [intern]
  split
  next index h => exact Or.inl ⟨index, h, rfl⟩
  next h => exact Or.inr ⟨h, rfl, rfl⟩

/-- Interning never changes what an old number means. -/
theorem nameAt?_intern {t : Interner} {name old : String} {index : Nat}
    (h : t.nameAt? index = some old) : (t.intern name).2.nameAt? index = some old := by
  rcases intern_cases t name with ⟨i, -, hi⟩ | ⟨-, -, hnames⟩
  · rw [hi]
    exact h
  · rw [nameAt?, hnames, getElem?_concat_eq_some_iff]
    exact Or.inl h

/-- A name that was interned has the number it was given. -/
theorem indexOf?_intern_self (t : Interner) (name : String) :
    (t.intern name).2.indexOf? name = some (t.intern name).1 := by
  rcases intern_cases t name with ⟨index, h, hi⟩ | ⟨-, hsize, hnames⟩
  · rw [hi]
    exact h
  · rw [← nameAt?_eq_some_iff, nameAt?, hnames, hsize, getElem?_concat_eq_some_iff]
    exact Or.inr ⟨rfl, rfl⟩

/-! ## The list of names

The map adds nothing to what the vector says. -/

/-- No name has two numbers, because the map has room for one. -/
theorem nodup (t : Interner) : t.names.Nodup := by
  rw [List.Nodup, List.pairwise_iff_getElem]
  intro i j hi hj hij heq
  have hfirst := (t.agree t.names[i] i).mpr (List.getElem?_eq_getElem hi)
  have hsecond := (t.agree t.names[j] j).mpr (List.getElem?_eq_getElem hj)
  rw [heq, hsecond, Option.some.injEq] at hfirst
  exact Nat.ne_of_lt hij hfirst.symm

/-- The number of a name is the place of its first and only occurrence. -/
theorem indexOf?_eq_idxOf? (t : Interner) (name : String) :
    t.indexOf? name = t.names.idxOf? name := by
  refine Option.ext fun index => ?_
  rw [indexOf?, t.agree, List.idxOf?_eq_some_iff, List.getElem?_eq_some_iff]
  constructor
  · rintro ⟨hi, rfl⟩
    refine ⟨hi, rfl, fun j hj hjk => ?_⟩
    -- Two positions of one name would be a repetition.
    have hjlt : j < t.names.length := Nat.lt_trans hj hi
    exact Nat.ne_of_lt hj ((@List.getElem_inj _ j index t.names hjlt hi t.nodup).mp hjk)
  · rintro ⟨hi, hname, -⟩
    exact ⟨hi, hname⟩

theorem mem_names_iff {t : Interner} {name : String} :
    name ∈ t.names ↔ (t.indexOf? name).isSome := by
  rw [indexOf?_eq_idxOf?, List.isSome_idxOf?]

/-- Interning as an operation on the list: the number is the place of the name,
    which for a new name is behind all others. -/
theorem fst_intern (t : Interner) (name : String) : (t.intern name).1 = t.names.idxOf name := by
  rcases intern_cases t name with ⟨index, h, hi⟩ | ⟨h, hsize, -⟩
  · have hmem : name ∈ t.names := by
      rw [mem_names_iff, h]
      rfl
    have hlt := List.idxOf_lt_length_of_mem hmem
    have hplace := (t.agree name (t.names.idxOf name)).mpr
      (List.getElem?_eq_some_iff.mpr ⟨hlt, List.getElem_idxOf hlt⟩)
    rw [hi]
    exact Option.some.inj (h.symm.trans hplace)
  · have hnot : name ∉ t.names := by
      rw [mem_names_iff, h]
      simp
    rw [hsize, List.idxOf_eq_length hnot]
    rfl

/-- A name that is new goes to the end of the list, and any other one changes nothing. -/
theorem names_intern (t : Interner) (name : String) :
    (t.intern name).2.names = if name ∈ t.names then t.names else t.names ++ [name] := by
  rcases intern_cases t name with ⟨index, h, hi⟩ | ⟨h, -, hnames⟩
  · rw [hi, if_pos (mem_names_iff.mpr (by rw [h]; rfl))]
  · rw [hnames, if_neg fun hmem => ?_]
    rw [mem_names_iff, h] at hmem
    exact absurd hmem (by simp)

end Interner

end Actors
