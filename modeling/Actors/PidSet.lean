import Actors.Identifier

/-!
# Sets of Processes

A finite set of process names that remembers in which order they were added.
No name occurs twice, and the type says so. The partners a process is linked
with are such a set, and its order is the order in which they are told that
the process ended.

## Main definitions

* `PidSet`: A set of process names.
* `PidSet.insert`, `PidSet.erase`: Adding a name and removing it.
* `PidSet.sorted`: The names in their order.

## Theorems

* `mem_insert`, `mem_erase`: The operations through membership.
-/

namespace Actors

/-- A set of process names, in the order in which they were added. -/
structure PidSet where
  /-- The names. -/
  toList : List Pid
  /-- No name occurs twice. -/
  nodup : toList.Nodup
deriving DecidableEq, Repr

namespace PidSet

/-- The set of no names. -/
def empty : PidSet := ⟨[], List.nodup_nil⟩

instance : EmptyCollection PidSet := ⟨empty⟩

instance : Inhabited PidSet := ⟨empty⟩

instance : Membership Pid PidSet := ⟨fun s p => p ∈ s.toList⟩

instance (p : Pid) (s : PidSet) : Decidable (p ∈ s) := inferInstanceAs (Decidable (p ∈ s.toList))

/-- How many names are in the set. -/
def size (s : PidSet) : Nat := s.toList.length

/-- Adds a name, at the end if it is new. -/
def insert (s : PidSet) (p : Pid) : PidSet :=
  if h : p ∈ s.toList then s
  else
    { toList := s.toList ++ [p]
      nodup := by
        rw [List.nodup_append]
        refine ⟨s.nodup, by simp, fun a ha b hb hab => ?_⟩
        rw [List.mem_singleton] at hb
        rw [hab, hb] at ha
        exact h ha }

/-- Removes a name. -/
def erase (s : PidSet) (p : Pid) : PidSet where
  toList := s.toList.filter fun q => q ≠ p
  nodup := s.nodup.sublist List.filter_sublist

/-- The names in the order of process names. -/
def sorted (s : PidSet) : List Pid := s.toList.mergeSort Pid.le

@[simp] theorem not_mem_empty (p : Pid) : p ∉ (∅ : PidSet) := List.not_mem_nil

@[simp] theorem mem_insert {s : PidSet} {p q : Pid} : q ∈ s.insert p ↔ q ∈ s ∨ q = p := by
  change q ∈ (s.insert p).toList ↔ q ∈ s.toList ∨ q = p
  rw [insert]
  split
  next h => exact ⟨Or.inl, fun hq => hq.elim id fun heq => heq ▸ h⟩
  next => rw [List.mem_append, List.mem_singleton]

@[simp] theorem mem_erase {s : PidSet} {p q : Pid} : q ∈ s.erase p ↔ q ∈ s ∧ q ≠ p := by
  change q ∈ (s.erase p).toList ↔ q ∈ s.toList ∧ q ≠ p
  rw [erase, List.mem_filter, decide_eq_true_iff]

end PidSet

end Actors
