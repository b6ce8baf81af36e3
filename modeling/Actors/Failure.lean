import Actors.Reason
import Actors.Term.Order
import Actors.Term.Rendering

/-!
# Failures

What an operation answers when it cannot be done. A failure carries a term,
not a message, so that callers can tell failures apart the way they tell exit
reasons apart, and so that a process can end with the term as its reason.

## Main definitions

* `Failure`: An operation could not be done.
* `Failure.badarg` and its neighbours: The failures of the library itself.
* `Failure.hasTag`: Whether a failure is of a given kind.
* `Failure.display`, `Failure.debug`: The texts of a failure.
-/

namespace Actors

/-- An operation could not be done, for the reason given. -/
structure Failure where
  /-- Why. -/
  reason : Term
deriving DecidableEq, Inhabited, Repr

namespace Failure

/-- An argument makes no sense. -/
def badarg : Failure := ⟨Reason.badarg⟩

/-- An argument makes no sense, with the argument. -/
def badargWith (detail : Term) : Failure := ⟨.tuple [Reason.badarg, detail]⟩

/-- There is no such process. -/
def noproc : Failure := ⟨Reason.noproc⟩

/-- The node cannot be reached. -/
def noconnection : Failure := ⟨Reason.noconnection⟩

/-- A bounded wait ran out. -/
def timeout : Failure := ⟨Reason.timeout⟩

/-- There is no room for more. -/
def systemLimit : Failure := ⟨Reason.systemLimit⟩

/-- Whether the reason is an atom, or a tuple that starts with it. -/
def hasTag (f : Failure) (tag : String) : Bool := f.reason.isAtom tag || f.reason.isTagged tag

/-- The text of a failure is the text of its reason. -/
def display (f : Failure) : String := f.reason.display

/-- The text of a failure with the name of its type. -/
def debug (f : Failure) : String :=
  String.ofList ("OtpError \x7b term: ".toList ++ f.reason.debug.toList ++ " \x7d".toList)

end Failure

end Actors
