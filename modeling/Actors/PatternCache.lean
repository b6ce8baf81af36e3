import Actors.Pattern

/-!
# A Cache of Compiled Patterns

Compiling a pattern gives an object that can be shared between receivers. The
cache keeps one such object for every pattern it has been asked about, where
two patterns that look alike but live in different places count as different.
A place is a number. An object that is thrown out and asked for again is a new
object, and its stamp says so.

## Main definitions

* `PatternCache`: The objects in use, by the place of their pattern.
* `PatternCache.get`: The object of a pattern, compiling it on first use.
* `PatternCache.evict`: Throws out the object of a pattern.
* `PatternCache.firstGet?`: The earliest of some requests that got an object.
-/

namespace Actors

/-- A compiled pattern: an object with an identity of its own. -/
structure CompiledPattern where
  /-- Tells this object from every other object of the cache. -/
  stamp : Nat
  /-- What was compiled. -/
  pattern : Pattern
deriving Inhabited, Repr

/-- The compiled patterns in use, by the place of the pattern. -/
structure PatternCache where
  /-- The objects. -/
  compiled : Dict Nat CompiledPattern
  /-- The stamp of the next object. -/
  nextStamp : Nat

namespace PatternCache

/-- The cache that has compiled nothing. -/
def empty : PatternCache := ⟨∅, 0⟩

instance : Inhabited PatternCache := ⟨empty⟩

/-- The object of the pattern at a place, compiling it on first use. -/
def get (c : PatternCache) (place : Nat) (p : Pattern) : CompiledPattern × PatternCache :=
  match c.compiled.get? place with
  | some object => (object, c)
  | none =>
      let object := ⟨c.nextStamp, p⟩
      (object, ⟨c.compiled.insert place object, c.nextStamp + 1⟩)

/-- Throws out the object of the pattern at a place. -/
def evict (c : PatternCache) (place : Nat) : PatternCache :=
  { c with compiled := c.compiled.erase place }

/-- How many objects are in use. -/
def size (c : PatternCache) : Nat := c.compiled.size

/-- The text of a cache. -/
def debug (c : PatternCache) : String :=
  String.ofList ("PatternCache \x7b len: ".toList ++ Nat.toDigits 10 c.size ++ " \x7d".toList)

/-- The position of the first of some objects that is the given one. -/
def firstGet? (earlier : List CompiledPattern) (object : CompiledPattern) : Option Nat :=
  earlier.findIdx? fun other => other.stamp == object.stamp

end PatternCache

end Actors
