import Actors.Node.Summary

/-!
# Answers

What is answered to a command of a scenario, and what a process body notes
down about each of its steps.

## Main definitions

* `Answer`: An answer.
* `Answer.failure?`: The failure an answer reports.
* `Answer.ofSent`, `Answer.ofReceived`: Answers about signals and messages.
-/

namespace Actors

/-- An answer. -/
inductive Answer where
  /-- Nothing to say. -/
  | nothing
  /-- It was done. -/
  | ok
  /-- A truth value. -/
  | bool (b : Bool)
  /-- A number. -/
  | number (n : Nat)
  /-- A text. -/
  | text (s : String)
  /-- A name, if there is one. -/
  | name (s : Option String)
  /-- Some names. -/
  | names (ss : List String)
  /-- A term, if there is one. -/
  | term (t : Option Term)
  /-- Some processes. -/
  | pids (ps : List Pid)
  /-- It could not be done. -/
  | failed (f : Failure)
  /-- A test broke down. -/
  | panicked (text : String)
  /-- A message was received. -/
  | received (t : Term)
  /-- A process ended, or there was none. -/
  | exited (reason : Option Term)
  /-- The answer is not there yet. -/
  | pending
  /-- Nobody waits under that name. -/
  | unknown
  /-- The command makes no sense here. -/
  | invalid (text : String)
  /-- A process was created, perhaps with a monitor. -/
  | spawned (p : Pid) (ref : Option Ref)
  /-- The node: its name, its incarnation, and a line about it. -/
  | about (name : String) (creation : UInt32) (debug : String)
  /-- What can be seen of a process. -/
  | info (i : ProcessInfo)
  /-- No process is running. -/
  | noCurrent
  /-- The running process. -/
  | current (p : Pid)
  /-- The notes of every body that has started, by label. -/
  | logs (entries : List (String × List Answer))
deriving Repr

namespace Answer

instance : Inhabited Answer := ⟨.nothing⟩

/-- The failure an answer reports. -/
def failure? : Answer → Option Failure
  | .failed f => some f
  | _ => none

/-- The answer to sending something. -/
def ofSent : Except Failure Unit → Answer
  | .ok () => .ok
  | .error f => .failed f

/-- The answer to a receiver. -/
def ofReceived : Except ReceiveError Term → Answer
  | .ok t => .received t
  | .error e => .failed e.toFailure

/-- The answer that names a process, or says why there is none. -/
def ofPid : Except Failure Pid → Answer
  | .ok p => .term (some (.pid p))
  | .error f => .failed f

end Answer

end Actors
