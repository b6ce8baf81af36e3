import Actors.Dict
import Actors.Term.Order

/-!
# Patterns

The shape of a term, with names for its parts. A pattern either matches a
term or not, and when it does it says which part of the term each name stands
for. A name may occur more than once, and then all its parts must be equal.

There are two ways to ask whether a pattern matches. One collects the names
from left to right and fails when a name would have to stand for two different
terms; the other looks at the shape alone, which is enough for a pattern
without names. `accepts` takes the cheaper one where it may.

## Main definitions

* `Pattern`: The shape of a term, with names for its parts.
* `Bindings`: What the names of a pattern stand for.
* `Pattern.bind`: Matches a term and says what the names stand for.
* `Pattern.fits`: Matches the shape of a term, names standing for anything.
* `Pattern.hasCaptures`: Whether a pattern has names.
* `Pattern.accepts`: Whether a pattern matches a term.
-/

namespace Actors

/-- The shape of a term. -/
inductive Pattern where
  /-- A term equal to this one. -/
  | literal (term : Term)
  /-- Any term. -/
  | wildcard
  /-- Any term, under a name. -/
  | capture (name : String)
  /-- A tuple of exactly these shapes. -/
  | tuple (elements : List Pattern)
  /-- A list of exactly these shapes. -/
  | list (elements : List Pattern)
deriving Inhabited, Repr

/-- What the names of a pattern stand for. -/
abbrev Bindings := Dict String Term

namespace Pattern

mutual

/-- Matches a term, adding to what the names already stand for. -/
def bindInto : Pattern → Term → Bindings → Option Bindings
  | .wildcard, _, b => some b
  | .literal expected, actual, b => if expected = actual then some b else none
  -- A name that stands for a term already has to stand for the same one.
  | .capture name, actual, b =>
      match b.get? name with
      | some bound => if bound = actual then some b else none
      | none => some (b.insert name actual)
  | .tuple ps, .tuple ts, b => bindAll ps ts b
  | .list ps, .list ts, b => bindAll ps ts b
  | _, _, _ => none

/-- Matches as many terms as there are patterns, from left to right. -/
def bindAll : List Pattern → List Term → Bindings → Option Bindings
  | [], [], b => some b
  | p :: ps, t :: ts, b =>
      match bindInto p t b with
      | some b' => bindAll ps ts b'
      | none => none
  | _, _, _ => none

end

/-- Matches a term and says what the names stand for. -/
def bind (p : Pattern) (t : Term) : Option Bindings := bindInto p t ∅

mutual

/-- Matches the shape of a term, each name standing for anything. -/
def fits : Pattern → Term → Bool
  | .wildcard, _ => true
  | .capture _, _ => true
  | .literal expected, actual => expected = actual
  | .tuple ps, .tuple ts => fitsAll ps ts
  | .list ps, .list ts => fitsAll ps ts
  | _, _ => false

/-- Matches the shapes of as many terms as there are patterns. -/
def fitsAll : List Pattern → List Term → Bool
  | [], [] => true
  | p :: ps, t :: ts => fits p t && fitsAll ps ts
  | _, _ => false

end

mutual

/-- Whether a pattern has names. -/
def hasCaptures : Pattern → Bool
  | .capture _ => true
  | .tuple ps => anyHasCaptures ps
  | .list ps => anyHasCaptures ps
  | .literal _ => false
  | .wildcard => false

/-- Whether one of some patterns has names. -/
def anyHasCaptures : List Pattern → Bool
  | [] => false
  | p :: ps => hasCaptures p || anyHasCaptures ps

end

/-- Whether a pattern matches a term. -/
def accepts (p : Pattern) (t : Term) : Bool :=
  if p.hasCaptures then (p.bind t).isSome else p.fits t

mutual

/-- Whether two patterns are the same. -/
def beq : Pattern → Pattern → Bool
  | .literal s, .literal t => s = t
  | .wildcard, .wildcard => true
  | .capture m, .capture n => m = n
  | .tuple ps, .tuple qs => beqAll ps qs
  | .list ps, .list qs => beqAll ps qs
  | _, _ => false

/-- Whether two rows of patterns are the same. -/
def beqAll : List Pattern → List Pattern → Bool
  | [], [] => true
  | p :: ps, q :: qs => beq p q && beqAll ps qs
  | _, _ => false

end

instance : BEq Pattern := ⟨beq⟩

end Pattern

end Actors
