import Actors.Interner
import Actors.Text.Utf8

/-!
# Atoms

An atom is a name that is compared by its number. Everything else in the
library holds an atom by its text, which is the same thing: two atoms of one
table are equal exactly when their texts are, and atoms are ordered by text,
not by number. This module is the table that makes the two views agree.

## Main definitions

* `Atom`: A number of the atom table.
* `Atom.new`: The atom of a text, interning the text.
* `Atom.existing?`: The atom of a text that has been interned.
* `Atom.text`: The text of an atom.
* `Atom.order`: Atoms compared by text.
-/

namespace Actors

/-- An atom: the number of its text in the atom table. -/
structure Atom where
  /-- The number. -/
  index : UInt32
deriving DecidableEq, Inhabited, Repr

namespace Atom

/-- The atom of a text, interning the text if it is new. -/
def new (t : Interner) (text : String) : Atom × Interner :=
  let (index, t') := t.intern text
  (⟨index.toUInt32⟩, t')

/-- The atom of a text, only if the text has been interned before. -/
def existing? (t : Interner) (text : String) : Option Atom :=
  (t.indexOf? text).map fun index => ⟨index.toUInt32⟩

/-- The text of an atom. A number the table never gave out has no text. -/
def text (t : Interner) (a : Atom) : String := (t.nameAt? a.index.toNat).getD ""

/-- Atoms compared: equal numbers are equal atoms, and different atoms stand
    in the order of their texts. -/
def order (t : Interner) (a b : Atom) : Ordering :=
  if a = b then .eq else Text.order (a.text t) (b.text t)

/-- The atoms of some texts, interned from the first to the last. -/
def newAll (t : Interner) : List String → List Atom × Interner
  | [] => ([], t)
  | s :: rest =>
      let (a, t₁) := new t s
      let (as, t₂) := newAll t₁ rest
      (a :: as, t₂)

/-- The atoms of some texts, interned in order and then sorted. -/
def sorted (t : Interner) (texts : List String) : List Atom × Interner :=
  let (as, t') := newAll t texts
  (as.mergeSort fun a b => (order t' a b).isLE, t')

end Atom

end Actors
