import Actors.Mailbox.Timed
import Actors.Node.Naming
import Actors.Node.Relations
import Actors.Scenario.Answer
import Actors.Scenario.Body

/-!
# The State of a Scenario

A node and what surrounds it: a clock that moves only when told to, the
handles that are held, the receivers that are waiting, the process bodies that
are running, and what they have noted down.

Every body runs in a task of its own, and the task has a handle to its
process. A task runs until its body waits for something, and is made ready
again when that has come.

## Main definitions

* `Task`, `Task.start`: A body that is running, and one that has not begun.
* `Waiter`: Somebody outside who waits for a message or for the end of a process.
* `Scenario`: The state.
* `Scenario.wake`: Makes the tasks ready that have something to do.
* `Scenario.startTask`: A body is about to run.
-/

namespace Actors

/-- What a body waits for. -/
inductive Wait where
  /-- A message, as the receiver of the given number, until a deadline. If a
      pattern is given, its names are bound to the message. -/
  | message (id : Nat) (deadline : Option Nat) (pattern : Option Pattern)
  /-- Nothing but its next turn. -/
  | turn
deriving Repr

/-- A body that is running. -/
structure Task where
  /-- The label its notes are kept under. -/
  label : String
  /-- Its process. -/
  pid : Pid
  /-- The steps it has not completed. -/
  rest : List BodyStep
  /-- The labels that only the body knows. -/
  locals : Dict String Term
  /-- What it waits for in the first of these steps, if it has begun. -/
  wait : Option Wait

/-- A body that has not begun. The label `self` stands for its own process. -/
def Task.start (label : String) (p : Pid) (body : List BodyStep) : Task :=
  { label, pid := p, rest := body, locals := (∅ : Dict String Term).insert "self" (.pid p),
    wait := none }

/-- Somebody outside who waits. -/
inductive Waiter where
  /-- For a message to a process, until a deadline. -/
  | message (p : Pid) (id : Nat) (deadline : Option Nat)
  /-- For the end of a process. -/
  | exit (p : Pid)
deriving DecidableEq, Repr

/-- Something that can run. -/
inductive Runnable where
  /-- The task that drains the signal queue. -/
  | drain
  /-- The body of a process. -/
  | body (p : Pid)
deriving DecidableEq, Repr

/-- A node and what surrounds it. -/
structure Scenario where
  /-- The node. -/
  node : Node
  /-- The time, in milliseconds. -/
  now : Nat
  /-- What labels stand for. -/
  labels : Dict String Term
  /-- The handles that are held, by label. -/
  handles : Dict String Pid
  /-- Those who wait, by name. -/
  waiters : Dict String Waiter
  /-- The bodies that are running, by process. -/
  tasks : Dict Pid Task
  /-- What can run, the longest ready first. -/
  ready : List Runnable
  /-- The notes of every body that has started, by label. -/
  logs : Dict String (List Answer)

namespace Scenario

/-- A node that was just started, and nothing around it. -/
def new (config : NodeConfig) : Scenario :=
  { node := .new config
    now := 0
    labels := ∅
    handles := ∅
    waiters := ∅
    tasks := ∅
    ready := []
    logs := ∅ }

/-- What labels stand for outside of bodies. -/
def meaning (s : Scenario) : Labels := s.labels.get?

/-- What labels stand for in a body: its own labels come first. -/
def meaningIn (s : Scenario) (locals : Dict String Term) : Labels := fun name =>
  (locals.get? name).or (s.labels.get? name)

/-- Gives a label a meaning. -/
def bind (s : Scenario) (label : String) (t : Term) : Scenario :=
  { s with labels := s.labels.insert label t }

/-- Changes the mailbox of a process. -/
def setMailbox (s : Scenario) (p : Pid) (box : Mailbox Term) : Scenario :=
  { s with node := s.node.update p fun c => { c with mailbox := box } }

/-- The mailbox of a process. -/
def mailboxOf (s : Scenario) (p : Pid) : Mailbox Term :=
  match s.node.process? p with
  | some c => c.mailbox
  | none => .empty

/-- Whether a process has ended. A process that is not there has. -/
def hasEnded (s : Scenario) (p : Pid) : Bool :=
  match s.node.process? p with
  | some c => !c.isAlive
  | none => true

/-! ## Tasks -/

/-- Whether a task that is not running has something to do. -/
def canResume (s : Scenario) (t : Task) : Bool :=
  s.hasEnded t.pid ||
    match t.wait with
    | some (.message id deadline _) =>
        (s.mailboxOf t.pid).isResolved id || deadlinePassed deadline s.now
    | _ => true

/-- Makes something ready, unless it is. -/
def makeReady (s : Scenario) (r : Runnable) : Scenario :=
  if s.ready.contains r then s else { s with ready := s.ready ++ [r] }

/-- Makes the draining task ready, if there is one. -/
def wakeDrain (s : Scenario) : Scenario :=
  if s.node.queue.tasks = 0 then s else s.makeReady .drain

/-- Makes everything ready that has something to do. -/
def wake (s : Scenario) : Scenario :=
  (s.tasks.values.foldl
    (fun s t => if s.canResume t then s.makeReady (.body t.pid) else s) s).wakeDrain

/-- A body is about to run in a process. -/
def startTask (s : Scenario) (label : String) (p : Pid) (body : List BodyStep) : Scenario :=
  let s' := s.wakeDrain
  { s' with
    tasks := s'.tasks.insert p (.start label p body)
    ready := s'.ready ++ [.body p] }

/-- A task is over, and its handle is gone. -/
def dropTask (s : Scenario) (t : Task) : Scenario :=
  { s with tasks := s.tasks.erase t.pid, node := s.node.letGo t.pid }

/-- A body has ended, and its process with it. -/
def endTask (s : Scenario) (t : Task) (o : Outcome) : Scenario :=
  dropTask { s with node := s.node.die t.pid o.reason } t

/-- The process of a body ended while the body was waiting, so the body stops
    where it is. -/
def abandonTask (s : Scenario) (t : Task) : Scenario :=
  match t.wait with
  | some (.message id _ _) => (s.setMailbox t.pid ((s.mailboxOf t.pid).cancel id)).dropTask t
  | _ => s.dropTask t

/-! ## Notes -/

/-- A body has started, so it has notes, even if there are none yet. -/
def openLog (s : Scenario) (label : String) : Scenario :=
  if s.logs.contains label then s else { s with logs := s.logs.insert label [] }

/-- Notes down the answer to a step. -/
def note (s : Scenario) (label : String) (a : Answer) : Scenario :=
  { s with logs := s.logs.modify label (· ++ [a]) }

end Scenario

end Actors
