import Actors.Term

/-!
# Exit Reasons

Why a process ended is a term of any kind. A few atoms have a meaning of
their own. Two of them belong together: `kill` asks a process to end and
cannot be refused, and a process that ends this way reports `killed`, so that
the request itself never travels on to its partners.

## Main definitions

* `Reason.normal` and its neighbours: The reasons with a meaning of their own.
* `Reason.isNormal`, `Reason.isKill`: Recognising them.
* `Reason.recorded`: The reason a process reports when it is ended for one.

## Theorems

* `recorded_ne_kill`: No process reports `kill`.
* `recorded_of_ne_kill`: Every other reason is reported as it is.
-/

namespace Actors

namespace Reason

/-- The process finished its work. -/
def normal : Term := .atom "normal"

/-- The process was told to end and had no say in it. -/
def kill : Term := .atom "kill"

/-- The process ended because of `kill`. -/
def killed : Term := .atom "killed"

/-- The process was asked to end in good order. -/
def shutdown : Term := .atom "shutdown"

/-- There is no such process. -/
def noproc : Term := .atom "noproc"

/-- The node of the process cannot be reached. -/
def noconnection : Term := .atom "noconnection"

/-- The node went away. -/
def nodedown : Term := .atom "nodedown"

/-- Something took too long. -/
def timeout : Term := .atom "timeout"

/-- An argument makes no sense. -/
def badarg : Term := .atom "badarg"

/-- There is no room for more. -/
def systemLimit : Term := .atom "system_limit"

/-- All reasons with a meaning of their own. -/
def all : List Term :=
  [normal, kill, killed, shutdown, noproc, noconnection, nodedown, timeout, badarg, systemLimit]

/-- Whether a reason is `normal`. -/
def isNormal (reason : Term) : Bool := reason.isAtom "normal"

/-- Whether a reason is `kill`. -/
def isKill (reason : Term) : Bool := reason.isAtom "kill"

/-- The reason a process reports when it is ended for the given one. -/
def recorded (reason : Term) : Term := if isKill reason then killed else reason

@[simp] theorem isKill_iff {reason : Term} : isKill reason = true ↔ reason = kill :=
  Term.isAtom_iff

theorem recorded_ne_kill (reason : Term) : recorded reason ≠ kill := by
  rw [recorded]
  split
  next => simp [killed, kill]
  next h => exact fun hk => h (isKill_iff.mpr hk)

theorem recorded_of_ne_kill {reason : Term} (h : reason ≠ kill) : recorded reason = reason := by
  rw [recorded, if_neg (fun hk => h (isKill_iff.mp hk))]

end Reason

end Actors
