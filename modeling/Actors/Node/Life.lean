import Actors.Node

/-!
# The Life of a Process

How processes handle signals, die, and disappear.

A process dies once. Its farewells are sent while it can still be found, and
then everything the node holds for it is given back: its slot, its names and
its routes. The process itself stays as long as somebody has a handle to it.

A process can also disappear without dying. When the last handle to a living
process is gone nothing can reach it any more, so what the node holds for it
is given back, and nobody is told.

Signals are handled in the order in which they were queued. A signal that is
queued is a handle to the process it is for, and that handle goes when the
signal has been handled.

## Main definitions

* `Node.die`: Ends a process.
* `Node.handle`: A process handles a signal.
* `Node.retain`, `Node.letGo`: One handle more, and one less.
* `Node.handleNext`: The signal that waits longest is handled.
* `Node.turn`: The draining task takes a turn.
* `Node.drainBound`: More signals than can be handled before the queue is empty.
* `Node.drain`: Signals are handled until none waits.
-/

namespace Actors

namespace Node

/-- Gives back what the node holds for a process: its slot, names and routes. -/
def release (n : Node) (p : Pid) : Node :=
  { n with
    table := (n.table.remove p.id p.serial).2
    names := n.names.unregisterAll p
    routers := n.routers.unregister p }

/-! ## Death -/

/-- Ends a living process: it is dead, its farewells are queued, and what the
    node held for it is given back. A dead process stays as it is. -/
def die (n : Node) (p : Pid) (reason : Term) : Node :=
  match n.process? p with
  | none => n
  | some c =>
      if c.isAlive then
        let recorded := Reason.recorded reason
        ((n.update p fun c => c.die recorded).postAll p (c.farewells recorded)).release p
      else n

/-- A process handles a signal. -/
def handle (n : Node) (d : Delivery) : Node :=
  match n.process? d.target with
  | none => n
  | some c =>
      match c.react d.sender d.signal with
      | .become c' => n.update d.target fun _ => c'
      | .die c' reason => (n.update d.target fun _ => c').die d.target reason
      | .answer s => n.post d.target s d.sender

/-! ## Handles -/

/-- Removes a process to which there is no handle any more. What the node holds
    for it is given back, if it has not been. -/
def reclaim (n : Node) (p : Pid) : Node :=
  match n.process? p with
  | none => n
  | some c =>
      if c.handles = 0 ∧ n.queue.targets p = false then
        let n' := { n with processes := n.processes.erase p }
        if c.isAlive then n'.release p else n'
      else n

/-- One handle to a process more. -/
def retain (n : Node) (p : Pid) : Node :=
  n.update p fun c => { c with handles := c.handles + 1 }

/-- One handle to a process less. -/
def letGo (n : Node) (p : Pid) : Node :=
  (n.update p fun c => { c with handles := c.handles - 1 }).reclaim p

/-! ## Dispatch -/

/-- Handles the next signal of the batch that is in hand, and lets go of the
    process it was for. -/
def handleInHand (n : Node) : Node :=
  match n.queue.next? with
  | none => n
  | some (d, queue) => ({ n with queue }.handle d).reclaim d.target

/-- The draining task starts a turn. -/
def beginTurn (n : Node) : Node := { n with queue := n.queue.beginTurn }

/-- Handles the signal that waits longest. If no batch is in hand the draining
    task first takes one. -/
def handleNext (n : Node) : Node :=
  if n.queue.inHand.isEmpty then n.beginTurn.handleInHand else n.handleInHand

/-- Handles the next signals of the batch in hand, as many as given. -/
def handleBatch : Nat → Node → Node
  | 0, n => n
  | k + 1, n => handleBatch k n.handleInHand

/-- The draining task takes a turn: it takes a batch and handles all of it.
    Without a draining task nothing happens. -/
def turn (n : Node) : Node :=
  if n.queue.tasks = 0 then n
  else
    let n' := n.beginTurn
    handleBatch n'.queue.inHand.length n'

/-- Whether a signal may be answered when it reaches a dead process. -/
def mayBeAnswered (d : Delivery) : Bool :=
  match d.signal with
  | .link | .monitor _ => true
  | _ => false

/-- How many farewells a process can still send. -/
def farewellCount (c : Process) : Nat :=
  if c.isAlive then c.links.size + c.monitoredBy.size else 0

/-- More signals than can be handled before the queue is empty: those that
    wait, one answer to each link and monitor among them, and the farewells of
    all living processes. -/
def drainBound (n : Node) : Nat :=
  n.queue.signals.length + n.queue.signals.countP mayBeAnswered +
    n.processes.total farewellCount

/-- Handles the signals that wait longest, as many as given. -/
def handleMany : Nat → Node → Node
  | 0, n => n
  | k + 1, n => handleMany k n.handleNext

/-- Handles signals until none waits. -/
def drain (n : Node) : Node := handleMany n.drainBound n

end Node

end Actors
