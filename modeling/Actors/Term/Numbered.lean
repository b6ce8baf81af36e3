import Actors.Atom
import Actors.Term.Order

/-!
# Terms with Numbered Atoms

A term as it is held in memory. Its atoms are numbers of the atom table, and
everything else is as in `Term`, which holds an atom by its text. Such a term
means something only together with the table its numbers are of: `spell` looks
the texts up, and `number` gives the texts of a term their numbers, from the
first to the last.

Two atoms with the same number are the same without a look at the table. Only
atoms with different numbers are compared by their texts, and what a hash
function is fed is the number.

## Main definitions

* `NumberedTerm`: A term whose atoms are numbers.
* `NumberedTerm.isKnown`: Whether a table has a text for every atom of a term.
* `NumberedTerm.spell`: The term with the texts of its atoms.
* `Term.number`: The term with the numbers of its atoms, interning new texts.
* `NumberedTerm.order`: The order of terms of one table.
* `NumberedTerm.hashInput`: What a hash function is fed for a term.
-/

namespace Actors

/-- A term whose atoms are numbers of an atom table. -/
inductive NumberedTerm where
  /-- A symbol. -/
  | atom (a : Atom)
  /-- A signed integer. -/
  | int (value : Int64)
  /-- A float. -/
  | float (value : Binary64)
  /-- Text. -/
  | text (value : String)
  /-- Raw bytes. -/
  | binary (bytes : List UInt8)
  /-- The name of a process. -/
  | pid (pid : Pid)
  /-- A reference. -/
  | ref (ref : Ref)
  /-- A tuple. -/
  | tuple (elements : List NumberedTerm)
  /-- A list. -/
  | list (elements : List NumberedTerm)
deriving Inhabited, Repr

/-- Whether a table has a text for an atom. -/
def Atom.isKnown (t : Interner) (a : Atom) : Bool := a.index.toNat < t.size

namespace NumberedTerm

variable (t : Interner)

mutual

/-- Whether a table has a text for every atom of a term. -/
def isKnown : NumberedTerm → Bool
  | .atom a => a.isKnown t
  | .tuple elements => areKnown elements
  | .list elements => areKnown elements
  | .int _ | .float _ | .text _ | .binary _ | .pid _ | .ref _ => true

/-- The same for all of some terms. -/
def areKnown : List NumberedTerm → Bool
  | [] => true
  | a :: rest => isKnown a && areKnown rest

end

mutual

/-- The term with the texts of its atoms. -/
def spell : NumberedTerm → Term
  | .atom a => .atom (a.text t)
  | .int value => .int value
  | .float value => .float value
  | .text value => .text value
  | .binary bytes => .binary bytes
  | .pid p => .pid p
  | .ref r => .ref r
  | .tuple elements => .tuple (spellAll elements)
  | .list elements => .list (spellAll elements)

/-- Some terms with the texts of their atoms. -/
def spellAll : List NumberedTerm → List Term
  | [] => []
  | a :: rest => spell a :: spellAll rest

end

/-- The place of a kind among the kinds. -/
def rank : NumberedTerm → Nat
  | .int _ | .float _ => 0
  | .atom _ => 1
  | .ref _ => 2
  | .pid _ => 3
  | .tuple _ => 4
  | .list _ => 5
  | .text _ | .binary _ => 6

mutual

/-- The order of terms of one table. -/
def order : NumberedTerm → NumberedTerm → Ordering
  | .int a, .int b => compare a b
  | .float a, .float b => a.totalOrder b
  | .int a, .float b => ((Binary64.ofInt a.toInt).totalOrder b).then .lt
  | .float a, .int b => (a.totalOrder (Binary64.ofInt b.toInt)).then .gt
  | .atom a, .atom b => a.order t b
  | .ref a, .ref b => a.order b
  | .pid a, .pid b => a.order b
  | .tuple as, .tuple bs => (compare as.length bs.length).then (orderList as bs)
  | .list as, .list bs => orderList as bs
  | .text a, .text b => Text.order a b
  | .binary a, .binary b => compare a b
  | .text a, .binary b => (compare (Text.bytes a) b).then .lt
  | .binary a, .text b => (compare a (Text.bytes b)).then .gt
  | a, b => compare a.rank b.rank

/-- Terms compared element by element, a list before its own extensions. -/
def orderList : List NumberedTerm → List NumberedTerm → Ordering
  | [], [] => .eq
  | [], _ :: _ => .lt
  | _ :: _, [] => .gt
  | a :: as, b :: bs => (order a b).then (orderList as bs)

end

open Term (HashWord)

mutual

/-- What a hash function is fed for a term: its kind, then its contents. Of an
    atom that is the number. -/
def hashInput : NumberedTerm → List HashWord
  | .atom a => [.kind 0, .word a.index.toNat]
  | .int value => [.kind 1, .word value.toUInt64.toNat]
  | .float value => [.kind 2, .word value.bits.toNat]
  | .text value => [.kind 3, .text value]
  | .binary bytes => .kind 4 :: .length bytes.length :: bytes.map fun b => .word b.toNat
  | .pid p => .kind 5 :: [p.node, p.id, p.serial, p.creation].map fun n => .word n.toNat
  | .ref r => .kind 6 :: [r.node, r.id, r.serial, r.creation].map fun n => .word n.toNat
  | .tuple elements => .kind 7 :: .length elements.length :: hashInputList elements
  | .list elements => .kind 8 :: .length elements.length :: hashInputList elements

/-- What a hash function is fed for some terms, one after the other. -/
def hashInputList : List NumberedTerm → List HashWord
  | [] => []
  | a :: rest => hashInput a ++ hashInputList rest

end

end NumberedTerm

namespace Term

mutual

/-- The term with the numbers of its atoms, interning the texts that are new. -/
def number (t : Interner) : Term → NumberedTerm × Interner
  | .atom name =>
      let (a, t') := Atom.new t name
      (.atom a, t')
  | .int value => (.int value, t)
  | .float value => (.float value, t)
  | .text value => (.text value, t)
  | .binary bytes => (.binary bytes, t)
  | .pid p => (.pid p, t)
  | .ref r => (.ref r, t)
  | .tuple elements =>
      let (as, t') := numberAll t elements
      (.tuple as, t')
  | .list elements =>
      let (as, t') := numberAll t elements
      (.list as, t')

/-- Some terms with the numbers of their atoms, from the first to the last. -/
def numberAll (t : Interner) : List Term → List NumberedTerm × Interner
  | [] => ([], t)
  | s :: rest =>
      let (a, t₁) := number t s
      let (as, t₂) := numberAll t₁ rest
      (a :: as, t₂)

end

end Term

end Actors
