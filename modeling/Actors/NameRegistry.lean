import Actors.Dict
import Actors.Identifier
import Actors.Text.Utf8

/-!
# Registered Names

Which process holds which name. A name has at most one holder, a process may
hold many names, and a name that is held cannot be claimed again, not even by
its holder.

## Main definitions

* `NameRegistry`: The holder of each name.
* `NameRegistry.register`: Claims a name.
* `NameRegistry.unregister`: Gives up one name.
* `NameRegistry.unregisterAll`: Gives up every name of a process.
* `NameRegistry.whereis`: The holder of a name.
* `NameRegistry.registered`: The names that are held, in order.
-/

namespace Actors

/-- The holder of each name. -/
structure NameRegistry where
  /-- The names with their holders. -/
  holders : Dict String Pid

namespace NameRegistry

/-- No name is held. -/
def empty : NameRegistry := ⟨∅⟩

instance : Inhabited NameRegistry := ⟨empty⟩

/-- The holder of a name. -/
def whereis (r : NameRegistry) (name : String) : Option Pid := r.holders.get? name

/-- Claims a name, unless it is held. -/
def register (r : NameRegistry) (name : String) (p : Pid) : Bool × NameRegistry :=
  match r.whereis name with
  | some _ => (false, r)
  | none => (true, ⟨r.holders.insert name p⟩)

/-- Gives up a name, if the given process holds it. -/
def unregister (r : NameRegistry) (name : String) (p : Pid) : Bool × NameRegistry :=
  if r.whereis name = some p then (true, ⟨r.holders.erase name⟩) else (false, r)

/-- Gives up every name of a process. -/
def unregisterAll (r : NameRegistry) (p : Pid) : NameRegistry :=
  ⟨r.holders.filter fun _ holder => holder ≠ p⟩

/-- How many names are held. -/
def size (r : NameRegistry) : Nat := r.holders.size

/-- How many names a process holds. -/
def countOf (r : NameRegistry) (p : Pid) : Nat := r.holders.values.count p

/-- The names that are held, in order. -/
def registered (r : NameRegistry) : List String := r.holders.keys.mergeSort Text.le

/-- A summary of the registry. -/
def debug (r : NameRegistry) : String :=
  String.ofList
    ("NameRegistry \x7b name_count: ".toList ++ Nat.toDigits 10 r.size ++ " \x7d".toList)

end NameRegistry

end Actors
