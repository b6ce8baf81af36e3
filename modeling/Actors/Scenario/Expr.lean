import Actors.Predicate
import Actors.Signal

/-!
# Expressions

Terms, patterns and predicates in which a label may stand for a term. Labels
are given meaning while a scenario runs, as processes and references come into
being, so a scenario is written with expressions and each of them is evaluated
when it is needed.

Signals and destinations need no expressions of their own: they are written as
their term forms.

## Main definitions

* `TermExpr`, `PatternExpr`, `PredicateExpr`: Expressions.
* `Labels`: What labels stand for.
* `TermExpr.eval` and its neighbours: The value of an expression, if every
  label in it stands for something.
-/

namespace Actors

/-- What labels stand for. -/
abbrev Labels := String → Option Term

/-- A term in which labels may stand for terms. -/
inductive TermExpr where
  /-- A term without labels. -/
  | const (t : Term)
  /-- What a label stands for. -/
  | label (name : String)
  /-- A tuple. -/
  | tuple (elements : List TermExpr)
  /-- A list. -/
  | list (elements : List TermExpr)
deriving Inhabited, Repr

namespace TermExpr

mutual

/-- The term of an expression. -/
def eval (labels : Labels) : TermExpr → Option Term
  | .const t => some t
  | .label name => labels name
  | .tuple es => (evalAll labels es).map .tuple
  | .list es => (evalAll labels es).map .list

/-- The terms of some expressions. -/
def evalAll (labels : Labels) : List TermExpr → Option (List Term)
  | [] => some []
  | e :: es =>
      match eval labels e, evalAll labels es with
      | some t, some ts => some (t :: ts)
      | _, _ => none

end

/-- The process an expression names. -/
def evalPid (labels : Labels) (e : TermExpr) : Option Pid := (e.eval labels).bind Term.asPid?

/-- The reference an expression names. -/
def evalRef (labels : Labels) (e : TermExpr) : Option Ref := (e.eval labels).bind Term.asRef?

/-- The destination an expression is the term form of. -/
def evalDest (labels : Labels) (e : TermExpr) : Option Dest := (e.eval labels).bind Dest.ofTerm?

/-- The signal an expression is the term form of. -/
def evalSignal (labels : Labels) (e : TermExpr) : Option Signal :=
  (e.eval labels).bind Signal.ofTerm?

end TermExpr

/-- A pattern in which labels may stand for terms. -/
inductive PatternExpr where
  | literal (e : TermExpr)
  | wildcard
  | capture (name : String)
  | tuple (elements : List PatternExpr)
  | list (elements : List PatternExpr)
deriving Inhabited, Repr

namespace PatternExpr

mutual

/-- The pattern of an expression. -/
def eval (labels : Labels) : PatternExpr → Option Pattern
  | .literal e => (e.eval labels).map .literal
  | .wildcard => some .wildcard
  | .capture name => some (.capture name)
  | .tuple es => (evalAll labels es).map .tuple
  | .list es => (evalAll labels es).map .list

/-- The patterns of some expressions. -/
def evalAll (labels : Labels) : List PatternExpr → Option (List Pattern)
  | [] => some []
  | e :: es =>
      match eval labels e, evalAll labels es with
      | some p, some ps => some (p :: ps)
      | _, _ => none

end

end PatternExpr

/-- A predicate in which labels may stand for terms. -/
inductive PredicateExpr where
  | any
  | pattern (e : PatternExpr)
  | equals (e : TermExpr)
  | intAbove (bound : Int64)
  | tagged (tag : String)
  | not (e : PredicateExpr)
  | panics (message : String)
  | panicsOn (e : TermExpr)
deriving Inhabited, Repr

namespace PredicateExpr

/-- The predicate of an expression. -/
def eval (labels : Labels) : PredicateExpr → Option Predicate
  | .any => some .any
  | .pattern e => (e.eval labels).map .pattern
  | .equals e => (e.eval labels).map .equals
  | .intAbove bound => some (.intAbove bound)
  | .tagged tag => some (.tagged tag)
  | .not e => (e.eval labels).map .not
  | .panics message => some (.panics message)
  | .panicsOn e => (e.eval labels).map .panicsOn

end PredicateExpr

end Actors
