import Actors.Dispatcher
import Actors.NameRegistry
import Actors.NodeConfig
import Actors.Process
import Actors.ProcessTable
import Actors.RouterTable

/-!
# Nodes

A node owns its processes, their names, the routes to other nodes and the
queue of signals, and is the only way for one process to affect another. This
module holds the state of a node and the two things everything else is built
from: finding a process, and sending a signal.

A process name resolves while its process is alive and somebody has a handle
to it. A destination resolves to a process of this node, or to the router that
carries signals to its node. Sending a signal queues it for the process it
resolves to at that moment; a signal for another node is put into an envelope
and queued as a message for the router.

An operation that can fail gives back the node together with its answer, also
when it fails, so that what a failure leaves behind can be stated.

## Main definitions

* `Node`: The state of a node.
* `Node.lookup`: The process a name resolves to.
* `Node.processFlag`, `Node.processFlagNamed`: The settings of a process.
* `Node.resolve`: What a destination resolves to.
* `Node.signal`: Sends a signal.
* `Node.post`: Sends a signal and does not mind if that fails.
* `Node.makeRef`, `Node.makePid`, `Node.makeProcess`: New identifiers and processes.
-/

namespace Actors

/-- The state of a node. -/
structure Node where
  /-- The name of the node. -/
  name : String
  /-- The incarnation, part of every identifier the node makes. -/
  creation : UInt32
  /-- The slots that process names are taken from. -/
  table : ProcessTable
  /-- The registered names. -/
  names : NameRegistry
  /-- The routes to other nodes, and their numbers. -/
  routers : RouterTable
  /-- How many references were made. -/
  refs : UInt64
  /-- The queued signals. -/
  queue : Dispatcher
  /-- Every process that somebody has a handle to, dead or alive. -/
  processes : Dict Pid Process

/-- What a destination resolves to. -/
inductive Resolved where
  /-- A process of this node. -/
  | process (p : Pid)
  /-- The router that carries signals to the node of the destination. -/
  | router (p : Pid)
deriving DecidableEq, Repr

namespace Node

/-- A node that was just started. -/
def new (config : NodeConfig) : Node :=
  { name := config.name
    creation := config.creation
    table := .new config.maxProcesses
    names := .empty
    routers := .new config.name
    refs := 0
    queue := .new config.dispatchBatch
    processes := ∅ }

instance : Inhabited Node := ⟨new .standard⟩

/-- The sender of signals that no process sent. It never names a process. -/
def systemPid (n : Node) : Pid := .ofSlot 0 0 n.creation

/-! ## Processes -/

/-- The process with a name, dead or alive. -/
def process? (n : Node) (p : Pid) : Option Process := n.processes.get? p

/-- Changes a process. -/
def update (n : Node) (p : Pid) (f : Process → Process) : Node :=
  { n with processes := n.processes.modify p f }

/-- Whether a name belongs to a process of this node that is in reach. -/
def resolves (n : Node) (p : Pid) : Bool :=
  p.isLocal && p.creation == n.creation && n.table.resolves p.id p.serial

/-- The process a name resolves to. -/
def lookup (n : Node) (p : Pid) : Option Process := if n.resolves p then n.process? p else none

/-- Whether a name resolves to a living process. -/
def isAlive (n : Node) (p : Pid) : Bool :=
  match n.lookup p with
  | some c => c.isAlive
  | none => false

/-- The names of all processes in reach, by slot. -/
def living (n : Node) : List Pid :=
  n.table.occupied.map fun (id, serial) => .ofSlot id serial n.creation

/-- How many processes hold a slot. -/
def processCount (n : Node) : Nat := n.table.live

/-! ## Settings -/

/-- Reads a setting of a process, first changing it if a value is given. -/
def processFlag (n : Node) (p : Pid) (f : ProcessFlag) (value : Option Bool) : Bool × Node :=
  let n' := match value with
    | some value => n.update p fun c => c.setFlag f value
    | none => n
  (((n'.process? p).map fun c => c.flag f).getD false, n')

/-- The same for a setting that is given by its name. -/
def processFlagNamed (n : Node) (p : Pid) (name : String) (value : Option Bool) :
    Except Failure Bool × Node :=
  match ProcessFlag.ofName? name with
  -- A name that stands for no setting is refused before anything is changed.
  | none => (.error (.badargWith (.atom name)), n)
  | some f =>
      let (b, n') := n.processFlag p f value
      (.ok b, n')

/-! ## New identifiers and processes -/

/-- A reference that was never made before. -/
def makeRef (n : Node) : Ref × Node :=
  (.ofCounter n.refs n.creation, { n with refs := n.refs + 1 })

/-- A process name that no process will ever have. -/
def makePid (n : Node) : Except Failure Pid × Node :=
  match n.table.mint with
  | (.error e, table) => (.error e, { n with table })
  | (.ok (id, serial), table) => (.ok (.ofSlot id serial n.creation), { n with table })

/-- A new process with one handle to it. -/
def makeProcess (n : Node) : Except Failure Pid × Node :=
  match n.table.insert with
  | (.error e, table) => (.error e, { n with table })
  | (.ok (id, serial), table) =>
      -- The one who asks has the first handle.
      let p : Pid := .ofSlot id serial n.creation
      (.ok p, { n with table, processes := n.processes.insert p .fresh })

/-! ## Destinations -/

/-- The holder of a registered name. -/
def whereis (n : Node) (name : String) : Option Pid := n.names.whereis name

/-- The router to use for a node, if there is one in reach. -/
def routerFor (n : Node) (node : String) : Except Failure Resolved :=
  match n.routers.route node with
  | none => .error .noconnection
  | some router =>
      if (n.lookup router).isSome then .ok (.router router) else .error .noconnection

/-- What a process name resolves to. -/
def resolvePid (n : Node) (p : Pid) : Except Failure Resolved :=
  if p.isLocal then
    if (n.lookup p).isSome then .ok (.process p) else .error .noproc
  else
    match n.routers.nameAt? p.node.toNat with
    | none => .error .noconnection
    | some node => n.routerFor node

/-- What a registered name resolves to. -/
def resolveName (n : Node) (name : String) : Except Failure Resolved :=
  match n.whereis name with
  | none => .error .noproc
  | some p => if (n.lookup p).isSome then .ok (.process p) else .error .noproc

/-- What a destination resolves to. -/
def resolve (n : Node) : Dest → Except Failure Resolved
  | .pid p => n.resolvePid p
  | .name name => n.resolveName name
  -- A name on this node is a name like any other, whether the node is named or not.
  | .remote name node => if node = n.name then n.resolveName name else n.routerFor node

/-! ## Signals -/

/-- Queues a signal. -/
def enqueue (n : Node) (d : Delivery) : Node := { n with queue := n.queue.enqueue d }

/-- Sends a signal. That it was sent means that it was queued, not that it was
    handled. -/
def signal (n : Node) (sender : Pid) (s : Signal) (target : Dest) : Except Failure Unit × Node :=
  match n.resolve target with
  | .error e => (.error e, n)
  | .ok (.process p) => (.ok (), n.enqueue ⟨p, sender, s⟩)
  -- The router gets the signal with the destination, since it resolves to nobody here.
  | .ok (.router p) =>
      (.ok (), n.enqueue ⟨p, sender, .relay (Routed.toTerm ⟨sender, target, s⟩)⟩)

/-- Sends a signal and does not mind if that fails. -/
def post (n : Node) (sender : Pid) (s : Signal) (target : Pid) : Node :=
  (n.signal sender s (.pid target)).2

/-- Sends some signals of one sender, in order. -/
def postAll (n : Node) (sender : Pid) (signals : List (Pid × Signal)) : Node :=
  signals.foldl (fun n (target, s) => n.post sender s target) n

/-- Sends a message that no process sent. -/
def deliver (n : Node) (target : Dest) (message : Term) : Node :=
  (n.signal n.systemPid (.relay message) target).2

/-- Sends a message. -/
def send (n : Node) (sender : Pid) (target : Dest) (message : Term) : Except Failure Unit × Node :=
  n.signal sender (.relay message) target

end Node

end Actors
