import Actors.Dict
import Actors.Mailbox
import Actors.PidSet
import Actors.Signal

/-!
# Processes

What a node keeps about one process: its mailbox, whom it is linked with, whom
it watches and who watches it, whether it traps exits, whether it is alive,
and how many handles there are to it.

A process changes only by the signals it handles, by what it does itself and
by its death. Handling a signal is decided here, by the process alone: it
changes, or it dies, or it sends an answer. What that means for the rest of
the node is decided by the node.

A process dies once. It then forgets its links and monitors, closes its
mailbox, and bids farewell: an exit signal to every partner it was linked
with, and after those a notice to everyone who watched it.

## Main definitions

* `Process`: What a node keeps about one process.
* `Process.react`: What a process does about a signal.
* `Process.die`: The process after its death.
* `Process.farewells`: What is sent when the process dies.
* `ProcessFlag`: A setting of a process that has a name.
-/

namespace Actors

/-- Whether a process is alive. -/
inductive Life where
  /-- It is. -/
  | alive
  /-- It ended, for the reason given. -/
  | dead (reason : Term)
deriving DecidableEq, Inhabited, Repr

/-- What a node keeps about one process. -/
structure Process where
  /-- The messages for the process. -/
  mailbox : Mailbox Term
  /-- The partners it is linked with. -/
  links : PidSet
  /-- Whom it watches, by the reference of the monitor. -/
  monitors : Dict Ref Pid
  /-- Who watches it, by the reference of the monitor. -/
  monitoredBy : Dict Ref Pid
  /-- Whether exit signals become messages. -/
  trapExit : Bool
  /-- Whether it is alive. -/
  life : Life
  /-- The reason announced to those who wait for its end. -/
  exitNotice : Option Term
  /-- How many handles there are, the queued signals for it not counted. -/
  handles : Nat

/-- A setting of a process that has a name. -/
inductive ProcessFlag where
  /-- Whether exit signals become messages. -/
  | trapExit
deriving DecidableEq, Repr

namespace ProcessFlag

/-- The setting with a name. -/
def ofName? (name : String) : Option ProcessFlag :=
  if name = "trap_exit" then some .trapExit else none

/-- The name of a setting. -/
def name : ProcessFlag → String
  | .trapExit => "trap_exit"

/-- The text of a setting. -/
def debug : ProcessFlag → String
  | .trapExit => "TrapExit"

end ProcessFlag

namespace Process

/-- A process that was just made, with one handle to it. -/
def fresh : Process :=
  { mailbox := .empty
    links := ∅
    monitors := ∅
    monitoredBy := ∅
    trapExit := false
    life := .alive
    exitNotice := none
    handles := 1 }

instance : Inhabited Process := ⟨fresh⟩

/-- Whether a process is alive. -/
def isAlive (c : Process) : Bool := c.life = .alive

/-- Why a process ended, if it did. -/
def exitReason (c : Process) : Option Term :=
  match c.life with
  | .alive => none
  | .dead reason => some reason

/-- The value of a setting. -/
def flag (c : Process) : ProcessFlag → Bool
  | .trapExit => c.trapExit

/-- Changes a setting. -/
def setFlag (c : Process) (f : ProcessFlag) (value : Bool) : Process :=
  match f with
  | .trapExit => { c with trapExit := value }

/-- The message a trapped exit signal becomes. -/
def exitMessage (sender : Pid) (reason : Term) : Term :=
  .tuple [.atom "EXIT", .pid sender, reason]

/-- The message that tells a watcher of an end. -/
def downMessage (ref : Ref) (sender : Pid) (reason : Term) : Term :=
  .tuple [.atom "DOWN", .ref ref, .atom "process", .pid sender, reason]

/-- A message arrives. -/
def receive (c : Process) (message : Term) : Process :=
  { c with mailbox := c.mailbox.push message }

/-- Remembers whom the process watches, as long as it is alive. -/
def trackMonitor (c : Process) (ref : Ref) (watchee : Pid) : Process :=
  if c.isAlive then { c with monitors := c.monitors.insert ref watchee } else c

/-! ## Signals -/

/-- What a process does about a signal. -/
inductive Reaction where
  /-- It goes on, changed or not. -/
  | become (c : Process)
  /-- It ends for a reason, after a change. -/
  | die (c : Process) (reason : Term)
  /-- It sends an answer to the sender. -/
  | answer (s : Signal)

/-- Whether an exit signal becomes a message: the process asked for that, and
    the signal can be refused. -/
def traps (c : Process) (reason : Term) : Bool := c.trapExit && !Reason.isKill reason

/-- What a living process does about a signal. An exit signal ends the link
    with its sender first, whatever comes of it. -/
def reactAlive (c : Process) (sender : Pid) : Signal → Reaction
  | .relay message => .become (c.receive message)
  | .link => .become { c with links := c.links.insert sender }
  | .unlink => .become { c with links := c.links.erase sender }
  | .monitor ref => .become { c with monitoredBy := c.monitoredBy.insert ref sender }
  | .demonitor ref => .become { c with monitoredBy := c.monitoredBy.erase ref }
  | .exit reason =>
      let c' := { c with links := c.links.erase sender }
      if c.traps reason then .become (c'.receive (exitMessage sender reason))
      else .die c' reason
  | .down ref reason =>
      .become ({ c with monitors := c.monitors.erase ref }.receive (downMessage ref sender reason))

/-- What a dead process does about a signal: a link or a monitor is answered,
    so that the sender is not left waiting, and all else is ignored. -/
def reactDead (c : Process) : Signal → Reaction
  | .link => .answer (.exit Reason.noproc)
  | .monitor ref => .answer (.down ref Reason.noproc)
  | _ => .become c

/-- What a process does about a signal. -/
def react (c : Process) (sender : Pid) (s : Signal) : Reaction :=
  if c.isAlive then c.reactAlive sender s else c.reactDead s

/-! ## Death -/

/-- The process after its death. -/
def die (c : Process) (reason : Term) : Process :=
  { c with
    mailbox := c.mailbox.clear reason
    links := ∅
    monitors := ∅
    monitoredBy := ∅
    life := .dead reason
    exitNotice := some reason }

/-- What is sent when the process dies: the exit signals first, then the
    notices to watchers. -/
def farewells (c : Process) (reason : Term) : List (Pid × Signal) :=
  c.links.toList.map (fun p => (p, .exit reason)) ++
    c.monitoredBy.entries.map fun (ref, watcher) => (watcher, .down ref reason)

end Process

end Actors
