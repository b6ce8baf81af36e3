import Actors.Node
import Actors.Term.Rendering

/-!
# Summaries of Nodes and Processes

What can be seen of a node and of its processes: a line of text for each, and
for a process the whole of its tables, in an order that does not depend on how
they came about.

## Main definitions

* `Node.debug`: A line about a node.
* `Process.debug`: A line about a process.
* `ProcessInfo`: All that can be seen of a process.
* `Process.info`: What can be seen of a process.
-/

namespace Actors

/-- A line about a node. -/
def Node.debug (n : Node) : String :=
  String.ofList ("Node \x7b name: ".toList ++ (Atom.debugText n.name).toList ++
    ", creation: ".toList ++ Rendering.digits n.creation ++
    ", processes: ".toList ++ Nat.toDigits 10 n.processCount ++
    ", names: ".toList ++ Nat.toDigits 10 n.names.size ++
    ", pending_signals: ".toList ++ Nat.toDigits 10 n.queue.pending.length ++ " \x7d".toList)

/-- All that can be seen of a process. -/
structure ProcessInfo where
  /-- Its name. -/
  pid : Pid
  /-- The name of its node. -/
  node : String
  /-- Whether it is alive. -/
  alive : Bool
  /-- Why it ended, if it did. -/
  reason : Option Term
  /-- The partners it is linked with, in order. -/
  links : List Pid
  /-- Whom it watches, by reference. -/
  monitors : List (Ref × Pid)
  /-- Who watches it, by reference. -/
  monitoredBy : List (Ref × Pid)
  /-- Whether it traps exits. -/
  trapExit : Bool
  /-- Its buffered messages. -/
  messages : List Term
  /-- How many receivers are waiting. -/
  waiting : Nat
  /-- Whether its mailbox is closed. -/
  closed : Bool
deriving Repr

namespace Process

/-- Monitors in the order of their references. -/
def sortedMonitors (d : Dict Ref Pid) : List (Ref × Pid) :=
  d.entries.mergeSort fun e f => Ref.le e.1 f.1

/-- What can be seen of a process. -/
def info (c : Process) (node : String) (p : Pid) : ProcessInfo :=
  { pid := p
    node := node
    alive := c.isAlive
    reason := c.exitReason
    links := c.links.sorted
    monitors := sortedMonitors c.monitors
    monitoredBy := sortedMonitors c.monitoredBy
    trapExit := c.trapExit
    messages := c.mailbox.messages
    waiting := c.mailbox.waiting
    closed := c.mailbox.isClosed }

/-- A line about a process. -/
def debug (c : Process) (p : Pid) : String :=
  String.ofList ("Context \x7b pid: ".toList ++ p.debug.toList ++
    ", alive: ".toList ++ Mailbox.flagText c.isAlive ++
    ", links: ".toList ++ Nat.toDigits 10 c.links.size ++
    ", monitors: ".toList ++ Nat.toDigits 10 c.monitors.size ++
    ", monitored_by: ".toList ++ Nat.toDigits 10 c.monitoredBy.size ++
    ", flags: ProcessFlags \x7b trap_exit: ".toList ++ Mailbox.flagText c.trapExit ++
    " \x7d, mailbox: ".toList ++ c.mailbox.render ++ " \x7d".toList)

end Process

end Actors
