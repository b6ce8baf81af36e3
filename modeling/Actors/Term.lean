import Actors.Binary64
import Actors.Identifier

/-!
# Terms

The values that processes exchange: messages, exit reasons and the contents
of errors are all terms. A term is an atom, a number, a text, raw bytes, an
identifier, or a tuple or list of terms.

An atom is held by its text, a float by its bits, and raw bytes as a list, so
that two terms with the same contents are the same term.

## Main definitions

* `Term`: A dynamically typed value.
* `Term.asAtom?` and its neighbours: The contents, if the term is of that kind.
* `Term.isAtom`: Whether the term is a given atom.
* `Term.isTagged`: Whether the term is a tuple that starts with a given atom.
-/

namespace Actors

/-- A dynamically typed value. The order of the constructors is the order in
    which the wire format numbers them. -/
inductive Term where
  /-- A symbol. -/
  | atom (name : String)
  /-- A signed integer. -/
  | int (value : Int64)
  /-- A float. -/
  | float (value : Binary64)
  /-- Text. -/
  | text (value : String)
  /-- Raw bytes. -/
  | binary (bytes : List UInt8)
  /-- The name of a process. -/
  | pid (pid : Pid)
  /-- A reference. -/
  | ref (ref : Ref)
  /-- A tuple, whose size is part of its shape. -/
  | tuple (elements : List Term)
  /-- A list. The empty list is also called nil. -/
  | list (elements : List Term)
deriving Inhabited, Repr

namespace Term

/-- The empty list. -/
def nil : Term := .list []

/-- A truth value, as one of the atoms for it. -/
def ofBool (b : Bool) : Term := .atom (if b then "true" else "false")

/-- The text of an atom. -/
def asAtom? : Term → Option String
  | .atom name => some name
  | _ => none

/-- The value of an integer. -/
def asInt? : Term → Option Int64
  | .int value => some value
  | _ => none

/-- The characters of a text. -/
def asText? : Term → Option String
  | .text value => some value
  | _ => none

/-- The process a term names. -/
def asPid? : Term → Option Pid
  | .pid p => some p
  | _ => none

/-- The reference a term is. -/
def asRef? : Term → Option Ref
  | .ref r => some r
  | _ => none

/-- The elements of a tuple. -/
def asTuple? : Term → Option (List Term)
  | .tuple elements => some elements
  | _ => none

/-- The elements of a list. -/
def asList? : Term → Option (List Term)
  | .list elements => some elements
  | _ => none

/-- Whether the term is the atom with the given text. -/
def isAtom (name : String) : Term → Bool
  | .atom name' => name' == name
  | _ => false

/-- Whether the term is a tuple whose first element is the given atom. -/
def isTagged (tag : String) : Term → Bool
  | .tuple (head :: _) => head.isAtom tag
  | _ => false

@[simp] theorem isAtom_iff {name : String} {t : Term} : t.isAtom name = true ↔ t = .atom name := by
  cases t <;> simp [isAtom]

end Term

end Actors
