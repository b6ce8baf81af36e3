import Actors.Dict
import Actors.Failure

/-!
# The Process Table

The table from which process names are taken. A name is a slot and the
generation of the slot. When a slot is freed its generation goes up before the
slot is used again, so no name is given out twice, and a name that outlived its
process stops resolving at once. A slot whose generation cannot go up any more
is retired.

The table does not keep its entries alive. An entry whose last handle is gone
can no longer be reached, but it holds its slot, and counts against the limit,
until it is removed.

## Main definitions

* `Slot`: A generation and what holds the slot.
* `ProcessTable`: The slots, the free ones among them, and the limit.
* `ProcessTable.insert`: A slot for a new entry.
* `ProcessTable.mint`: A name that no entry will ever have.
* `ProcessTable.resolves`: Whether a name belongs to an entry in reach.
* `ProcessTable.abandon`: The last handle of an entry is gone.
* `ProcessTable.remove`: Frees the slot of an entry.
-/

namespace Actors

/-- What holds a slot. -/
inductive Occupant where
  /-- Nothing. -/
  | none
  /-- An entry that somebody has a handle of. -/
  | reachable
  /-- An entry whose last handle is gone. -/
  | abandoned
deriving DecidableEq, Inhabited, Repr

/-- One slot of the table. -/
structure Slot where
  /-- How often the slot has been freed. -/
  serial : UInt32
  /-- What holds it. -/
  occupant : Occupant
deriving DecidableEq, Inhabited, Repr

/-- The largest value of a slot number and of a generation. -/
def maxWord : UInt32 := 0xffffffff

/-- The slots, the free ones among them, and the limit. -/
structure ProcessTable where
  /-- The slots, by number. -/
  slots : List Slot
  /-- The free slots, the one freed last in front. -/
  free : List UInt32
  /-- How many entries hold a slot. -/
  live : Nat
  /-- The most entries there may be, if there is a limit. -/
  limit : Option Nat
deriving DecidableEq, Repr

namespace ProcessTable

/-- A table without entries. Slot zero is never given out. -/
def new (limit : Option Nat) : ProcessTable := ⟨[⟨maxWord, .none⟩], [], 0, limit⟩

instance : Inhabited ProcessTable := ⟨new none⟩

/-- The slot with a number. -/
def slot? (t : ProcessTable) (id : UInt32) : Option Slot := t.slots[id.toNat]?

/-- Replaces the slot with a number. -/
def setSlot (t : ProcessTable) (id : UInt32) (s : Slot) : ProcessTable :=
  { t with slots := t.slots.set id.toNat s }

/-- The generation of a slot. -/
def serialOf (t : ProcessTable) (id : UInt32) : UInt32 := ((t.slot? id).getD default).serial

/-- Whether there are as many entries as there may be. -/
def isFull (t : ProcessTable) : Bool :=
  match t.limit with
  | none => false
  | some limit => limit ≤ t.live

/-- Takes a free slot, the one freed last if there is one and a new one if not. -/
def claim (t : ProcessTable) : Except Failure UInt32 × ProcessTable :=
  match t.free with
  | id :: rest => (.ok id, { t with free := rest })
  | [] =>
      -- A new slot needs a number, and there are none above the largest word.
      if maxWord.toNat < t.slots.length then (.error .systemLimit, t)
      else (.ok t.slots.length.toUInt32, { t with slots := t.slots ++ [⟨0, .none⟩] })

/-- Gives a slot back under its next generation, or retires it if there is none. -/
def giveBack (t : ProcessTable) (id : UInt32) : ProcessTable :=
  let serial := t.serialOf id
  if serial = maxWord then t.setSlot id ⟨serial, .none⟩
  else { t.setSlot id ⟨serial + 1, .none⟩ with free := id :: t.free }

/-- A slot for a new entry, with its generation. Refused at the limit. -/
def insert (t : ProcessTable) : Except Failure (UInt32 × UInt32) × ProcessTable :=
  if t.isFull then (.error .systemLimit, t)
  else
    match t.claim with
    | (.error e, t') => (.error e, t')
    | (.ok id, t') =>
        let serial := t'.serialOf id
        (.ok (id, serial), { t'.setSlot id ⟨serial, .reachable⟩ with live := t'.live + 1 })

/-- A slot and generation that no entry will ever have. There is no limit to these. -/
def mint (t : ProcessTable) : Except Failure (UInt32 × UInt32) × ProcessTable :=
  match t.claim with
  | (.error e, t') => (.error e, t')
  -- The slot goes back at once, and under its next generation: nobody gets the name.
  | (.ok id, t') => (.ok (id, t'.serialOf id), t'.giveBack id)

/-- What holds a slot in a given generation. -/
def occupant (t : ProcessTable) (id serial : UInt32) : Occupant :=
  match t.slot? id with
  | some s => if s.serial = serial then s.occupant else .none
  | none => .none

/-- Whether a slot and generation belong to an entry in reach. -/
def resolves (t : ProcessTable) (id serial : UInt32) : Bool :=
  t.occupant id serial = .reachable

/-- The last handle of an entry is gone. -/
def abandon (t : ProcessTable) (id serial : UInt32) : ProcessTable :=
  if t.resolves id serial then t.setSlot id ⟨serial, .abandoned⟩ else t

/-- Frees the slot of an entry, and says whether there was one. -/
def remove (t : ProcessTable) (id serial : UInt32) : Bool × ProcessTable :=
  if t.occupant id serial = .none then (false, t)
  else (true, { t with live := t.live - 1 }.giveBack id)

/-- The slots and generations of all entries in reach, by slot. -/
def occupied (t : ProcessTable) : List (UInt32 × UInt32) :=
  t.slots.zipIdx.filterMap fun (s, i) =>
    if s.occupant = .reachable then some (i.toUInt32, s.serial) else none

end ProcessTable

/-- A process table and the entries somebody holds, by label. Every label has
    the only handle of its entry. -/
structure HeldTable where
  /-- The table. -/
  table : ProcessTable
  /-- The slot and generation a label stands for, and whether its handle is
      still there. -/
  labels : Dict String ((UInt32 × UInt32) × Bool)

namespace HeldTable

/-- A table without entries. -/
def new (limit : Option Nat) : HeldTable := ⟨.new limit, ∅⟩

/-- Lets go of the handle of a label, and says whether there was one. -/
def drop (h : HeldTable) (label : String) : Bool × HeldTable :=
  match h.labels.get? label with
  | some ((id, serial), true) =>
      (true, ⟨h.table.abandon id serial, h.labels.insert label ((id, serial), false)⟩)
  | _ => (false, h)

/-- A new entry under a label. What the label held before is let go. -/
def insert (h : HeldTable) (label : String) : Except Failure (UInt32 × UInt32) × HeldTable :=
  match h.table.insert with
  | (.error e, table) => (.error e, { h with table })
  | (.ok name, table) =>
      let h' := (drop { h with table } label).2
      (.ok name, { h' with labels := h'.labels.insert label (name, true) })

/-- The slot and generation a label stands for. -/
def named? (h : HeldTable) (label : String) : Option (UInt32 × UInt32) :=
  (h.labels.get? label).map Prod.fst

end HeldTable

end Actors
