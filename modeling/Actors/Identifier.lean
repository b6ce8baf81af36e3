/-!
# Process Identifiers and References

The two kinds of identifier a node gives out. A `Pid` names a process: the
number of the node it lives on, the slot it occupies in that node's process
table, the generation of the slot, and the incarnation of the node. A `Ref`
has the same four parts and names a monitor, or anything else that needs a
name nobody else has. The two are different types, so they are never confused.

Identifiers are compared part by part, in the order in which the parts are
listed.

## Main definitions

* `Pid`, `Ref`: The two kinds of identifier.
* `Pid.isLocal`, `Ref.isLocal`: Whether the identifier is of this node.
* `Pid.withNode`: The same process, addressed through another node number.
* `Pid.order`, `Ref.order`: The order by parts.
* `Ref.ofCounter`: The reference of a counter value.
-/

namespace Actors

/-- The node number every node uses for itself. -/
def localNode : UInt32 := 0

/-- The name of a process. -/
structure Pid where
  /-- The number of the node the process lives on. -/
  node : UInt32
  /-- The slot the process occupies. -/
  id : UInt32
  /-- The generation of the slot. -/
  serial : UInt32
  /-- The incarnation of the node. -/
  creation : UInt32
deriving DecidableEq, Inhabited, Repr

/-- A name that nobody else has. -/
structure Ref where
  /-- The number of the node that made the reference. -/
  node : UInt32
  /-- The high half of the counter. -/
  id : UInt32
  /-- The low half of the counter. -/
  serial : UInt32
  /-- The incarnation of the node. -/
  creation : UInt32
deriving DecidableEq, Inhabited, Repr

namespace Pid

/-- The identifier of a process of this node. -/
def ofSlot (id serial creation : UInt32) : Pid := ⟨localNode, id, serial, creation⟩

/-- Whether the process belongs to this node. -/
def isLocal (p : Pid) : Bool := p.node == localNode

/-- The same process, addressed through another node number. -/
def withNode (p : Pid) (node : UInt32) : Pid := { p with node }

/-- Identifiers compared by node, then slot, then generation, then incarnation. -/
def order : Pid → Pid → Ordering :=
  compareLex (compareOn Pid.node) <| compareLex (compareOn Pid.id) <|
    compareLex (compareOn Pid.serial) (compareOn Pid.creation)

/-- Whether one identifier stands before or beside another. -/
def le (p q : Pid) : Bool := (order p q).isLE

theorem order_eq_iff {p q : Pid} : order p q = .eq ↔ p = q := by
  rcases p with ⟨n, i, s, c⟩
  rcases q with ⟨n', i', s', c'⟩
  simp only [order, compareLex_eq_eq, compareOn, Std.LawfulEqOrd.compare_eq_iff_eq, Pid.mk.injEq]

end Pid

namespace Ref

/-- The reference of a counter value. The high half becomes `id` and the low
    half `serial`, so references of one node are ordered like their counter. -/
def ofCounter (value : UInt64) (creation : UInt32) : Ref :=
  ⟨localNode, (value >>> 32).toUInt32, value.toUInt32, creation⟩

/-- Whether the reference was made on this node. -/
def isLocal (r : Ref) : Bool := r.node == localNode

/-- References compared by node, then the counter halves, then incarnation. -/
def order : Ref → Ref → Ordering :=
  compareLex (compareOn Ref.node) <| compareLex (compareOn Ref.id) <|
    compareLex (compareOn Ref.serial) (compareOn Ref.creation)

/-- Whether one reference stands before or beside another. -/
def le (q r : Ref) : Bool := (order q r).isLE

theorem order_eq_iff {q r : Ref} : order q r = .eq ↔ q = r := by
  rcases q with ⟨n, i, s, c⟩
  rcases r with ⟨n', i', s', c'⟩
  simp only [order, compareLex_eq_eq, compareOn, Std.LawfulEqOrd.compare_eq_iff_eq, Ref.mk.injEq]

end Ref

end Actors
