import Actors.Pattern
import Actors.Verdict

/-!
# Predicates

Tests on terms that can be written down. A receiver may test messages by any
function whatsoever; these are the ones there is a notation for: a pattern,
equality, a bound on integers, a tag, the opposite of another test, and tests
that break down.

## Main definitions

* `Predicate`: A test on terms, written down.
* `Predicate.test`: What a test says about a term.
* `Predicate.testAll`: What a test says about some terms, up to the first one
  it breaks down on.
-/

namespace Actors

/-- A test on terms, written down. -/
inductive Predicate where
  /-- Accepts every term. -/
  | any
  /-- Accepts what a pattern matches. -/
  | pattern (p : Pattern)
  /-- Accepts one term. -/
  | equals (t : Term)
  /-- Accepts the integers above a bound. -/
  | intAbove (bound : Int64)
  /-- Accepts the tuples that start with an atom. -/
  | tagged (tag : String)
  /-- Accepts what another test rejects. -/
  | not (p : Predicate)
  /-- Breaks down on every term. -/
  | panics (message : String)
  /-- Breaks down on one term and accepts all others. -/
  | panicsOn (t : Term)
deriving Inhabited, Repr

namespace Predicate

/-- What a test says about a term. -/
def test : Predicate → Matcher Term
  | .any, _ => .accept
  | .pattern p, t => .ofBool (p.accepts t)
  | .equals expected, t => .ofBool (t = expected)
  | .intAbove bound, .int value => .ofBool (bound < value)
  | .intAbove _, _ => .reject
  | .tagged tag, t => .ofBool (t.isTagged tag)
  | .not p, t => (p.test t).negate
  | .panics message, _ => .panic message
  | .panicsOn expected, t => if t = expected then .panic "panic_on" else .accept

/-- What a test says about some terms, or the text of the first breakdown. -/
def testAll (p : Predicate) : List Term → Except String (List Bool)
  | [] => .ok []
  | t :: rest =>
      match p.test t with
      | .panic message => .error message
      | v => (p.testAll rest).map (v.accepts :: ·)

end Predicate

end Actors
