import Actors.Term.Numbered
import Actors.Wire.TermCodec

/-!
# Atoms on the Wire

The number of an atom means nothing outside of its table, so an atom travels
as its text, and the reader interns what it reads. The same goes for the atoms
of a term. They are interned in the order in which they are read, which is the
order in which they stand in the term.

A reader gives back the table as well as what it read.

## Main definitions

* `Atom.encode`, `Atom.decode`: An atom as its text.
* `NumberedTerm.encode`, `NumberedTerm.decode`: A term as it is held in memory.
-/

namespace Actors

open Wire

namespace Atom

/-- The bytes of an atom. -/
def encode (t : Interner) (a : Atom) : List UInt8 := encodeText (a.text t)

/-- Reads an atom, interning its text. -/
def read (t : Interner) : Parser (Atom × Interner) := do
  let s ← readText
  pure (new t s)

/-- The atom that some bytes start with, and the bytes after it. -/
def decode (t : Interner) (bytes : List UInt8) :
    Except DecodeError ((Atom × Interner) × List UInt8) := (read t).run bytes

end Atom

namespace NumberedTerm

/-- The bytes of a term. -/
def encode (t : Interner) (a : NumberedTerm) : List UInt8 := (a.spell t).encode

/-- The term that some bytes start with, its atoms interned, and the bytes after it. -/
def decode (t : Interner) (bytes : List UInt8) :
    Except DecodeError ((NumberedTerm × Interner) × List UInt8) :=
  match Term.decode bytes with
  | .ok (s, rest) => .ok (s.number t, rest)
  | .error e => .error e

end NumberedTerm

end Actors
