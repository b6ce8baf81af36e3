import Actors.Node.Naming
import Actors.Proofs.Node.Life
import Actors.Proofs.Registries

/-!
# Runs of a Node

Everything that can happen to a node, as one type of operations: the requests
that can be made to it, what its processes do to themselves, handles that come
and go, and the two things the draining task does. A run is a list of
operations, so a statement about all runs is an induction over a list.

Messages, exit requests and whatever else one process sends to another are all
the operation `signal`. A process changes its own mailbox only by its
receivers.

The links and the watchers of a process are tables without an order of their
own. The model keeps them as lists, and `reorder` puts the entries of a process
into any other order, at any moment. What holds for all runs therefore holds
for every order in which the tables might be walked.

## Main definitions

* `NodeOp`: Something that happens to a node.
* `Node.step`, `Node.run`: One thing happens, or some, one after the other.
* `Node.states`: The states a run goes through.
* `Node.Reachable`: Some run of a new node leads to a state.
* `Node.issues`, `Node.makes`: The process names and references an operation
  gives out.
* `Node.attends`, `Node.deaths`: The signals it makes living processes handle,
  and the processes it ends.
* `Node.collect`: What the operations of a run give, in order.

## Theorems

* `register_cases`, `registerRouter_cases`: A claim or a route is refused, or entered.
* `clerical_step`, `posting_step`: What the operations do that keep books or send.
* `processes_step`, `registries_step`: What operations of one kind leave alone.
* `run_append`, `collect_append`: Runs one after the other.
* `drain_eq_run`: Draining the queue is a run of dispatch operations.
-/

namespace Actors

/-- A process whose tables are walked in another order. The change is refused
    if it is more than that. -/
def Process.reorder (c : Process) (links : PidSet) (watchers : Dict Ref Pid) : Process :=
  if links.toList.Perm c.links.toList ∧ watchers.entries.Perm c.monitoredBy.entries then
    { c with links, monitoredBy := watchers }
  else c

namespace Process

/-- An order that is not one of the same entries is refused, so what `reorder` can do is exactly to
    permute. -/
theorem reorder_cases (c : Process) (links : PidSet) (watchers : Dict Ref Pid) :
    c.reorder links watchers = c ∨
    links.toList.Perm c.links.toList ∧ watchers.entries.Perm c.monitoredBy.entries ∧
      c.reorder links watchers = { c with links, monitoredBy := watchers } := by
  rw [reorder]
  split
  next h => exact Or.inr ⟨h.1, h.2, rfl⟩
  next => exact Or.inl rfl

@[simp] theorem life_reorder (c : Process) (links : PidSet) (watchers : Dict Ref Pid) :
    (c.reorder links watchers).life = c.life := by
  rcases reorder_cases c links watchers with h | ⟨-, -, h⟩ <;> rw [h]

@[simp] theorem handles_reorder (c : Process) (links : PidSet) (watchers : Dict Ref Pid) :
    (c.reorder links watchers).handles = c.handles := by
  rcases reorder_cases c links watchers with h | ⟨-, -, h⟩ <;> rw [h]

/-- A table without entries has only one order. -/
theorem sound_reorder {c : Process} (h : c.Sound) (links : PidSet) (watchers : Dict Ref Pid) :
    (c.reorder links watchers).Sound := by
  rcases reorder_cases c links watchers with hr | ⟨hl, hw, hr⟩ <;> rw [hr]
  · exact h
  · refine ⟨h.alive, fun reason hd => ?_⟩
    have he := h.ended reason hd
    refine ⟨?_, he.monitors, ?_, he.shut, he.notice, he.not_kill⟩
    · rcases links with ⟨ps, hps⟩
      rw [he.links] at hl
      have hnil : ps = [] := hl.eq_nil
      subst hnil
      rfl
    · rcases watchers with ⟨es, hes⟩
      rw [he.monitoredBy] at hw
      have hnil : es = [] := hw.eq_nil
      subst hnil
      rfl

end Process

/-- Something that happens to a node. -/
inductive NodeOp where
  /-- A reference is made. -/
  | makeRef
  /-- A process name is made that no process will have. -/
  | makePid
  /-- A process is made, with a body or without one. -/
  | spawn
  /-- A process is made in a link. -/
  | spawnLink (linked : Pid)
  /-- A process is made and watched. -/
  | spawnMonitor (watcher : Pid)
  /-- A signal is sent. -/
  | signal (sender : Pid) (s : Signal) (target : Dest)
  /-- Two processes are to be linked. -/
  | link (a b : Pid)
  /-- Two processes are not to be linked any more. -/
  | unlink (a b : Pid)
  /-- One process is to watch another. -/
  | monitor (watcher watchee : Pid)
  /-- A process is not to watch any more. -/
  | demonitor (watcher : Pid) (ref : Ref)
  /-- A name is claimed. -/
  | register (p : Pid) (name : String)
  /-- A name is given up, or all names of a process. -/
  | unregister (p : Pid) (name : Option String)
  /-- A route is added. -/
  | registerRouter (node : String) (cost : UInt32) (router : Pid) (options : RouterOptions)
  /-- The routes of a router are removed. -/
  | unregisterRouter (router : Pid)
  /-- The number of a node is asked for. -/
  | nodeIndex (node : String)
  /-- The name of a process of a node is asked for. -/
  | remotePid (node : String) (id serial creation : UInt32)
  /-- A process ends. -/
  | die (p : Pid) (reason : Term)
  /-- A setting of a process is changed. -/
  | setFlag (p : Pid) (f : ProcessFlag) (value : Bool)
  /-- A receiver of a process does something. -/
  | receive (p : Pid) (r : Receive Term)
  /-- The tables of a process are walked in another order from now on. -/
  | reorder (p : Pid) (links : PidSet) (watchers : Dict Ref Pid)
  /-- There is one handle to a process more. -/
  | retain (p : Pid)
  /-- There is one handle to a process less. -/
  | letGo (p : Pid)
  /-- The draining task takes a batch, or ends. -/
  | beginTurn
  /-- The next signal of the batch is handled. -/
  | handleInHand

/-- Whether an operation is about handling signals only. -/
def NodeOp.isDispatch : NodeOp → Bool
  | .beginTurn | .handleInHand | .reorder .. => true
  | _ => false

/-- Whether an operation is one of a draining task. -/
def NodeOp.isTurn : NodeOp → Bool
  | .beginTurn | .handleInHand => true
  | _ => false

/-- Whether an operation neither ends a process nor takes a handle or a queued
    signal away. -/
def NodeOp.isPlain : NodeOp → Bool
  | .die .. | .handleInHand | .letGo _ => false
  | _ => true

/-- Whether an operation is one of names, routes and numbers of nodes. -/
def NodeOp.isClerical : NodeOp → Bool
  | .register .. | .unregister .. | .registerRouter .. | .unregisterRouter .. | .nodeIndex ..
  | .remotePid .. => true
  | _ => false

/-- Whether all that an operation does is to send. -/
def NodeOp.isPosting : NodeOp → Bool
  | .signal .. | .link .. | .unlink .. => true
  | _ => false

namespace Node

/-- One thing happens. -/
def step (n : Node) : NodeOp → Node
  | .makeRef => n.makeRef.2
  | .makePid => n.makePid.2
  | .spawn => n.spawn.2
  | .spawnLink linked => (n.spawnLink linked).2
  | .spawnMonitor watcher => (n.spawnMonitor watcher).2
  | .signal sender s target => (n.signal sender s target).2
  | .link a b => n.link a b
  | .unlink a b => n.unlink a b
  | .monitor watcher watchee => (n.monitor watcher watchee).2
  | .demonitor watcher ref => n.demonitor watcher ref
  | .register p name => (n.register p name).2
  | .unregister p name => n.unregister p name
  | .registerRouter node cost router options => (n.registerRouter node cost router options).2
  | .unregisterRouter router => n.unregisterRouter router
  | .nodeIndex node => (n.nodeIndex node).2
  | .remotePid node id serial creation => (n.remotePid node id serial creation).2
  | .die p reason => n.die p reason
  | .setFlag p f value => n.update p (·.setFlag f value)
  | .receive p r => n.update p (·.serve r)
  | .reorder p links watchers => n.update p (·.reorder links watchers)
  | .retain p => n.retain p
  | .letGo p => n.letGo p
  | .beginTurn => n.beginTurn
  | .handleInHand => n.handleInHand

/-! ## Names and routes -/

/-- A claim is refused and changes nothing, or the name is fit, the process is alive, and
    the name is entered for it. -/
theorem register_cases (n : Node) (p : Pid) (name : String) :
    n.register p name = (.error .badarg, n) ∨
    ∃ names, isValidName name = true ∧ n.isAlive p = true ∧
      n.names.register name p = (true, names) ∧ n.register p name = (.ok (), { n with names }) := by
  rw [register]
  -- The three checks of a claim come one after the other, and each ends it.
  split
  next => exact Or.inl rfl
  next hvalid =>
    split
    next => exact Or.inl rfl
    next halive =>
      split
      next => exact Or.inl rfl
      next names hr =>
        dsimp only
        split
        next =>
          -- The name that was just entered is given up, so nothing was entered.
          refine Or.inl ?_
          rw [unregister, NameRegistry.unregister_of_register hr]
        next =>
          rw [Bool.not_eq_true', Bool.not_eq_false] at hvalid halive
          exact Or.inr ⟨names, hvalid, halive, hr, rfl⟩

/-- Who lives is a matter of the process table, whatever the routes are. -/
theorem isAlive_withRouters (n : Node) (routers : RouterTable) (p : Pid) :
    ({ n with routers } : Node).isAlive p = n.isAlive p := rfl

/-- A route is refused and changes nothing, or the router is alive and the route is entered.
    No route is removed again after it was entered: the node does one thing at a time, so a
    router that was alive when it was looked up still is when it has its route. -/
theorem registerRouter_cases (n : Node) (node : String) (cost : UInt32) (router : Pid)
    (options : RouterOptions) :
    n.registerRouter node cost router options = (.error .badarg, n) ∨
    n.isAlive router = true ∧ n.registerRouter node cost router options =
      (.ok (), { n with routers := n.routers.register node ⟨router, cost, options⟩ }) := by
  rw [registerRouter]
  split
  next => exact Or.inl rfl
  next =>
    split
    next => exact Or.inl rfl
    next halive =>
      rw [Bool.not_eq_true', Bool.not_eq_false] at halive
      refine Or.inr ⟨halive, ?_⟩
      -- The second look at the router sees what the first one saw.
      dsimp only
      rw [isAlive_withRouters, halive, if_neg (by simp)]

/-- A process of another node is known under the number of that node. -/
theorem remotePid_cases (n : Node) (node : String) (id serial creation : UInt32) :
    (n.remotePid node id serial creation).2 = n ∨
    (n.remotePid node id serial creation).2 = (n.nodeIndex node).2 := by
  rw [remotePid]
  split
  next => exact Or.inl rfl
  next => exact Or.inr rfl

/-! ## Operations of one kind

Of the operations that can happen to a node, many are of no concern to a given statement,
and for one of two reasons: they only keep books, or they only send. Either reason is
stated once here, so that a proof by cases has one case for all of them. -/

/-- To keep books changes names and routes, and nothing else. -/
theorem clerical_step (n : Node) {op : NodeOp} (h : op.isClerical = true) :
    ∃ names routers, n.step op = { n with names, routers } := by
  cases op with
  | register p name =>
      rw [step]
      rcases register_cases n p name with he | ⟨names, -, -, -, he⟩ <;> rw [he]
      · exact ⟨n.names, n.routers, rfl⟩
      · exact ⟨names, n.routers, rfl⟩
  | unregister p name => cases name <;> exact ⟨_, n.routers, rfl⟩
  | registerRouter node cost router options =>
      rw [step]
      rcases registerRouter_cases n node cost router options with he | ⟨-, he⟩ <;> rw [he]
      · exact ⟨n.names, n.routers, rfl⟩
      · exact ⟨n.names, _, rfl⟩
  | unregisterRouter router => exact ⟨n.names, _, rfl⟩
  | nodeIndex node => exact ⟨n.names, _, rfl⟩
  | remotePid node id serial creation =>
      rw [step]
      rcases remotePid_cases n node id serial creation with he | he <;> rw [he]
      · exact ⟨n.names, n.routers, rfl⟩
      · exact ⟨n.names, _, rfl⟩
  | _ => exact absurd h Bool.false_ne_true

/-- To send changes the queue, and nothing else. -/
theorem posting_step (n : Node) {op : NodeOp} (h : op.isPosting = true) :
    ∃ ds, n.step op = n.queueAll ds := by
  cases op with
  | signal sender s target => exact ⟨_, signal_snd n sender s target⟩
  | link a b => exact ⟨_, link_eq n a b⟩
  | unlink a b => exact ⟨_, unlink_eq n a b⟩
  | _ => exact absurd h Bool.false_ne_true

/-- To keep books or to send leaves processes, slots and references as they are. -/
theorem processes_step (n : Node) {op : NodeOp}
    (h : op.isClerical = true ∨ op.isPosting = true) :
    (n.step op).processes = n.processes ∧ (n.step op).table = n.table ∧
      (n.step op).refs = n.refs := by
  rcases h with hclerical | hposting
  · rcases clerical_step n hclerical with ⟨names, routers, he⟩
    rw [he]
    exact ⟨rfl, rfl, rfl⟩
  · rcases posting_step n hposting with ⟨ds, he⟩
    rw [he]
    exact ⟨rfl, rfl, rfl⟩

theorem registries_track (n : Node) (watcher : Pid) (ref : Ref) (watchee : Pid) :
    (n.track watcher ref watchee).name = n.name ∧
      (n.track watcher ref watchee).names = n.names ∧
      (n.track watcher ref watchee).routers = n.routers := by
  rcases track_cases n watcher ref watchee with ht | ht <;> rw [ht] <;> exact ⟨rfl, rfl, rfl⟩

/-- What neither keeps books nor takes somebody out leaves names and routes as they are. -/
theorem registries_step (n : Node) {op : NodeOp} (hplain : op.isPlain = true)
    (hclerical : op.isClerical = false) :
    (n.step op).name = n.name ∧ (n.step op).names = n.names ∧ (n.step op).routers = n.routers := by
  by_cases hposting : op.isPosting = true
  · rcases posting_step n hposting with ⟨ds, he⟩
    rw [he]
    exact ⟨rfl, rfl, rfl⟩
  cases op with
  | makePid =>
      rw [step]
      rcases makePid_cases n with he | ⟨id, serial, table, -, he⟩ <;> rw [he] <;>
        exact ⟨rfl, rfl, rfl⟩
  | spawn =>
      rw [step, spawn]
      rcases makeProcess_cases n with he | ⟨id, serial, table, -, he⟩ <;> rw [he] <;>
        exact ⟨rfl, rfl, rfl⟩
  | spawnLink linked =>
      rw [step]
      rcases spawnLink_cases n linked with he | ⟨p, n₁, hm, he⟩ <;> rw [he]
      · exact ⟨rfl, rfl, rfl⟩
      · rcases makeProcess_ok hm with ⟨id, serial, table, -, -, rfl⟩
        exact ⟨rfl, rfl, rfl⟩
  | spawnMonitor watcher =>
      rw [step]
      rcases spawnMonitor_cases n watcher with he | ⟨p, n₁, hm, he⟩ <;> rw [he]
      · exact ⟨rfl, rfl, rfl⟩
      · rcases makeProcess_ok hm with ⟨id, serial, table, -, -, rfl⟩
        exact registries_track _ watcher n.nextRef p
  | monitor watcher watchee =>
      rw [step, monitor_eq]
      exact registries_track n.countRef watcher n.nextRef watchee
  | demonitor watcher ref =>
      rw [step]
      rcases demonitor_cases n watcher ref with hd | ⟨c, watchee, -, -, hd⟩ <;> rw [hd] <;>
        exact ⟨rfl, rfl, rfl⟩
  | signal | link | unlink => exact absurd rfl hposting
  | makeRef | setFlag | receive | reorder | retain | beginTurn => exact ⟨rfl, rfl, rfl⟩
  | register | unregister | registerRouter | unregisterRouter | nodeIndex | remotePid =>
      exact absurd hclerical (by simp [NodeOp.isClerical])
  | die | letGo | handleInHand => exact absurd hplain (by simp [NodeOp.isPlain])

/-! ## One after the other -/

/-- Some things happen, one after the other. -/
def run (n : Node) (ops : List NodeOp) : Node := ops.foldl step n

@[simp] theorem run_nil (n : Node) : n.run [] = n := rfl

@[simp] theorem run_cons (n : Node) (op : NodeOp) (ops : List NodeOp) :
    n.run (op :: ops) = (n.step op).run ops := rfl

/-- What comes first runs first, and the rest starts where it ended. -/
theorem run_append (n : Node) (ops ops' : List NodeOp) :
    n.run (ops ++ ops') = (n.run ops).run ops' := List.foldl_append

/-- What every operation keeps, a run keeps. -/
theorem run_induction {P : Node → Prop} (hstep : ∀ n op, P n → P (n.step op)) {n : Node} (h : P n)
    (ops : List NodeOp) : P (n.run ops) := by
  induction ops generalizing n with
  | nil => exact h
  | cons op rest ih => exact ih (hstep n op h)

/-- The states a run goes through, the first and the last among them. -/
def states (n : Node) : List NodeOp → List Node
  | [] => [n]
  | op :: rest => n :: (n.step op).states rest

/-- The last state of a run is one it goes through. -/
theorem mem_states_run (n : Node) (ops : List NodeOp) : n.run ops ∈ n.states ops := by
  induction ops generalizing n with
  | nil => exact List.mem_singleton.mpr rfl
  | cons op rest ih => exact List.mem_cons_of_mem n (ih (n.step op))

/-- One operation more is one state more, at the end. -/
theorem states_concat (n : Node) (ops : List NodeOp) (op : NodeOp) :
    n.states (ops ++ [op]) = n.states ops ++ [n.run (ops ++ [op])] := by
  induction ops generalizing n with
  | nil => rfl
  | cons op' rest ih =>
      rw [List.cons_append, states, states, ih, List.cons_append, run_cons]

/-- A state a run goes through splits the run in two. -/
theorem mem_states {n : Node} {ops : List NodeOp} {m : Node} (hm : m ∈ n.states ops) :
    ∃ before after, ops = before ++ after ∧ m = n.run before := by
  -- The state is the first one, or a run of the rest goes through it.
  induction ops generalizing n with
  | nil => exact ⟨[], [], rfl, List.mem_singleton.mp hm⟩
  | cons op rest ih =>
      rw [states, List.mem_cons] at hm
      rcases hm with rfl | hm
      · exact ⟨[], op :: rest, rfl, rfl⟩
      · rcases ih hm with ⟨before, after, rfl, rfl⟩
        exact ⟨op :: before, after, rfl, rfl⟩

/-- Some run of a new node leads to a state. -/
def Reachable (n : Node) : Prop := ∃ config ops, n = (new config).run ops

/-! ## What operations give -/

/-- What the operations of a run give, in order. -/
def collect {α : Type} (f : Node → NodeOp → List α) (n : Node) : List NodeOp → List α
  | [] => []
  | op :: rest => f n op ++ (n.step op).collect f rest

/-- What two runs give one after the other is what each of them gives. -/
theorem collect_append {α : Type} (f : Node → NodeOp → List α) (n : Node) (ops ops' : List NodeOp) :
    n.collect f (ops ++ ops') = n.collect f ops ++ (n.run ops).collect f ops' := by
  induction ops generalizing n with
  | nil => rfl
  | cons op rest ih =>
      rw [List.cons_append, collect, collect, ih, List.append_assoc, run_cons]

/-- What a run gives was given by one of its operations. -/
theorem mem_collect {α : Type} {f : Node → NodeOp → List α} {n : Node} {ops : List NodeOp} {x : α}
    (h : x ∈ n.collect f ops) :
    ∃ before op after, ops = before ++ op :: after ∧ x ∈ f (n.run before) op := by
  induction ops generalizing n with
  | nil => exact absurd h List.not_mem_nil
  | cons op rest ih =>
      -- It was given by the first operation or by the rest, and in the second case the first
      -- operation is one of those before it.
      rcases List.mem_append.mp h with hnow | hlater
      · exact ⟨[], op, rest, rfl, hnow⟩
      · rcases ih hlater with ⟨before, op', after, rfl, hx⟩
        exact ⟨op :: before, op', after, rfl, hx⟩

/-- What one operation gives of a kind, a run gives of that kind. -/
theorem collect_mono {α : Type} {n : Node} {f g : Node → NodeOp → List α} {x : α}
    (hfg : ∀ m op, x ∈ f m op → x ∈ g m op) {ops : List NodeOp} (h : x ∈ n.collect f ops) :
    x ∈ n.collect g ops := by
  induction ops generalizing n with
  | nil => exact h
  | cons op rest ih =>
      rw [collect, List.mem_append] at h ⊢
      exact h.imp (hfg n op) ih

/-- The process names that an operation gives out. -/
def issues (n : Node) : NodeOp → List Pid
  | .makePid => n.makePid.1.toOption.toList
  | .spawn => n.spawn.1.toOption.toList
  | .spawnLink linked => (n.spawnLink linked).1.toOption.toList
  | .spawnMonitor watcher => (n.spawnMonitor watcher).1.toOption.toList.map Prod.fst
  | _ => []

/-- The references that an operation gives out. -/
def makes (n : Node) : NodeOp → List Ref
  | .makeRef => [n.makeRef.1]
  | .monitor watcher watchee => [(n.monitor watcher watchee).1]
  | .spawnMonitor watcher => (n.spawnMonitor watcher).1.toOption.toList.map Prod.snd
  | _ => []

/-- Whether a process is alive, in reach or not. -/
def lives (n : Node) (p : Pid) : Bool := (n.process? p).any Process.isAlive

/-- The signal that an operation makes a living process handle. -/
def attends (n : Node) : NodeOp → List Delivery
  | .handleInHand =>
      match n.queue.next? with
      | some (d, _) => if n.lives d.target then [d] else []
      | none => []
  | _ => []

/-- The processes that an operation ends, with the reasons they report. -/
def deaths (n : Node) : NodeOp → List (Pid × Term)
  | .die p reason => if n.lives p then [(p, Reason.recorded reason)] else []
  | .handleInHand =>
      match n.queue.next? with
      | none => []
      | some (d, _) =>
          match n.process? d.target with
          | none => []
          | some c =>
              match c.react d.sender d.signal with
              | .die _ reason => [(d.target, Reason.recorded reason)]
              | _ => []
  | _ => []

/-! ## Draining is a run -/

/-- The operations that handle the signal that waits longest. -/
def nextOps (n : Node) : List NodeOp :=
  if n.queue.inHand.isEmpty then [.beginTurn, .handleInHand] else [.handleInHand]

/-- A batch is opened when none is in hand, and then its first signal is handled. -/
theorem handleNext_eq_run (n : Node) : n.handleNext = n.run n.nextOps := by
  rw [handleNext, nextOps]
  split <;> rfl

/-- Nothing but the draining task is at work when a signal is handled. -/
theorem isTurn_nextOps {n : Node} {op : NodeOp} (hop : op ∈ n.nextOps) : op.isTurn = true := by
  rw [nextOps] at hop
  split at hop <;> simp only [List.mem_cons, List.not_mem_nil, or_false] at hop
  · rcases hop with rfl | rfl <;> rfl
  · rw [hop]
    rfl

theorem isDispatch_of_isTurn {op : NodeOp} (h : op.isTurn = true) : op.isDispatch = true := by
  cases op with
  | beginTurn | handleInHand => rfl
  | _ => exact absurd h (by simp [NodeOp.isTurn])

/-- Some signals handled one after the other are a run of the draining task. -/
theorem handleMany_eq_run (k : Nat) (n : Node) :
    ∃ ops : List NodeOp, (∀ op ∈ ops, op.isTurn = true) ∧ handleMany k n = n.run ops := by
  -- Over how many signals are handled.
  induction k generalizing n with
  | zero => exact ⟨[], fun op h => absurd h List.not_mem_nil, rfl⟩
  | succ k ih =>
      rcases ih n.handleNext with ⟨ops, hops, hrun⟩
      -- What handles one signal comes first, and then the operations of the rest.
      refine ⟨n.nextOps ++ ops, fun op h => ?_, ?_⟩
      · exact (List.mem_append.mp h).elim isTurn_nextOps (hops op)
      · rw [run_append, ← handleNext_eq_run, ← hrun]
        rfl

/-- Draining the queue is what a task does. -/
theorem drain_eq_turns (n : Node) :
    ∃ ops : List NodeOp, (∀ op ∈ ops, op.isTurn = true) ∧ n.drain = n.run ops :=
  handleMany_eq_run n.drainBound n

/-- Draining the queue is a run in which nothing but dispatch happens. -/
theorem drain_eq_run (n : Node) :
    ∃ ops : List NodeOp, (∀ op ∈ ops, op.isDispatch = true) ∧ n.drain = n.run ops := by
  rcases drain_eq_turns n with ⟨ops, hops, hdrain⟩
  exact ⟨ops, fun op hop => isDispatch_of_isTurn (hops op hop), hdrain⟩

end Node

end Actors
