import Actors.Scenario.Schedule

/-!
# Commands

What can be asked of a scenario, and the answers. Commands come from outside:
no process body gives them. They create processes and hold on to them, send
signals in the name of any process, wait for messages and for the end of
processes, look at everything, and let time pass.

Nothing runs by itself. Signals are handled and bodies run only on `tick`,
`settle` and `advance`.

A process is meant either through a handle, which is named by its label, or by
its name. Through a handle a dead process can still be reached.

## Main definitions

* `Subject`: A process, through a handle or by name.
* `Command`: What can be asked.
* `Scenario.exec`: Carries out a command.
* `Scenario.status`: Three numbers that are shown after each command.
* `Scenario.execAll`: Carries out some commands, one after the other.
-/

namespace Actors

/-- A process, through a handle or by name. -/
inductive Subject where
  /-- The process whose handle has a label. -/
  | handle (label : String)
  /-- The process an expression names. -/
  | named (e : TermExpr)
deriving Inhabited, Repr

/-- What can be asked of a scenario. -/
inductive Command where
  /-- Creates a process without a body and holds it. -/
  | makeProcess (label : String)
  /-- Lets go of a handle. -/
  | drop (label : String)
  /-- Makes a name that no process will have. -/
  | makePid (label : String)
  /-- Makes a reference. -/
  | makeRef (label : Option String)
  /-- Gives a label a meaning. -/
  | define (label : String) (e : TermExpr)
  /-- The sender of signals that no process sent. -/
  | systemPid (label : Option String)
  /-- The node. -/
  | about
  /-- Creates a process with a body, in relation to another one. -/
  | spawn (relation : Relation) (other : Option Subject) (label : String)
      (refLabel : Option String) (body : List BodyStep)
  /-- Registers a name. -/
  | register (who : Subject) (name : String)
  /-- Gives up a name, or all of them. -/
  | unregister (who : Subject) (name : Option String)
  /-- Looks up a name. -/
  | whereis (name : String)
  /-- The registered names. -/
  | registered
  /-- Sends a message that no process sent. -/
  | deliver (target message : TermExpr)
  /-- Sends a signal. -/
  | signal (sender : Subject) (signal target : TermExpr)
  /-- Sends a message. -/
  | send (sender : Subject) (target message : TermExpr)
  /-- Sends the numbers below a bound, in order. -/
  | flood (sender : Subject) (target : TermExpr) (count : Nat)
  /-- Links two processes. -/
  | link (a : Subject) (b : TermExpr)
  /-- Removes the link between two processes. -/
  | unlink (a : Subject) (b : TermExpr)
  /-- Makes a process watch another. -/
  | monitor (a : Subject) (b : TermExpr) (label : String)
  /-- Ends a monitor. -/
  | demonitor (a : Subject) (ref : TermExpr)
  /-- Asks a process to end. -/
  | exit (a : Subject) (b reason : TermExpr)
  /-- Ends a process, which answers with its reason. -/
  | exitSelf (who : String) (reason : TermExpr)
  /-- Ends a process. -/
  | die (who : String) (reason : TermExpr)
  /-- Sets whether exit signals become messages. -/
  | trapExit (who : String) (value : Bool)
  /-- Reads a setting by its name, first changing it if a value is given. -/
  | flag (who name : String) (value : Option Bool)
  /-- Reads whether exit signals become messages, first changing it if a value
      is given. -/
  | processFlag (who : String) (value : Option Bool)
  /-- Begins to receive a message. -/
  | receive (who waiter : String) (test : PredicateExpr) (timeout : Option Nat)
  /-- Begins to wait for the end of a process that a name resolves to. -/
  | awaitExit (who : TermExpr) (waiter : String)
  /-- Begins to wait for the end of a process that is held. -/
  | exited (who waiter : String)
  /-- Looks for an answer. -/
  | poll (waiter : String)
  /-- Gives up waiting. -/
  | cancel (waiter : String)
  /-- Takes a message without waiting. -/
  | tryPop (who : String) (test : PredicateExpr)
  /-- Puts a message into a mailbox. -/
  | push (who : String) (message : TermExpr)
  /-- Closes a mailbox. -/
  | clear (who : String) (reason : TermExpr)
  /-- Registers a route. -/
  | registerRouter (node : String) (cost : UInt32) (router : TermExpr) (hidden : Bool)
  /-- Removes every route of a router. -/
  | unregisterRouter (router : TermExpr)
  /-- The nodes that can be listed. -/
  | nodes
  /-- The number of a node. -/
  | nodeIndex (node : String)
  /-- The node with a number. -/
  | nodeNameAt (index : UInt32)
  /-- The name by which a process of a node is known here. -/
  | remotePid (label node : String) (id serial creation : UInt32)
  /-- Whether a process is alive. -/
  | isAlive (who : Subject)
  /-- The processes in reach. -/
  | processes
  /-- How many processes hold a slot. -/
  | processCount
  /-- A line about a process. -/
  | debug (who : String)
  /-- The process that is running. -/
  | current
  /-- What can be seen of a process, its messages in order if asked for. -/
  | info (who : String) (sorted : Bool)
  /-- The notes of all bodies. -/
  | log
  /-- Some turns of the draining task. -/
  | tick (count : Nat)
  /-- Runs until everybody waits. -/
  | settle
  /-- Runs until everybody waits, lets time pass, and runs again. -/
  | advance (ms : Nat)
deriving Inhabited, Repr

namespace Scenario

/-- The process a subject means. -/
def subject? (s : Scenario) : Subject → Option Pid
  | .handle label => s.handles.get? label
  | .named e => e.evalPid s.meaning

/-- The answer to a command that means something that is not there. -/
def nowhere (s : Scenario) : Answer × Scenario := (.invalid "nothing has this label", s)

/-- Carries on with a value, if there is one. -/
def given {α : Type} (s : Scenario) (value : Option α) (k : α → Answer × Scenario) :
    Answer × Scenario :=
  match value with
  | some a => k a
  | none => s.nowhere

/-- Changes the node and gives no answer. -/
def silently (s : Scenario) (node : Node) : Answer × Scenario := (.nothing, { s with node })

/-- Lets go of the handle with a label, if there is one. -/
def dropHandle (s : Scenario) (label : String) : Bool × Scenario :=
  match s.handles.get? label with
  | some p => (true, { s with handles := s.handles.erase label, node := s.node.letGo p })
  | none => (false, s)

/-- Creates a process and holds it. What the label held before is let go. -/
def makeProcess (s : Scenario) (label : String) : Answer × Scenario :=
  match s.node.makeProcess with
  | (.error f, node) => (.failed f, { s with node })
  | (.ok p, node) =>
      let s' := (dropHandle { s with node } label).2
      (.term (some (.pid p)),
        bind { s' with handles := s'.handles.insert label p } label (.pid p))

/-- Gives a label a meaning, if there is a label. -/
def bindIf (s : Scenario) (label : Option String) (t : Term) : Scenario :=
  match label with
  | some label => s.bind label t
  | none => s

/-- Sends the numbers from one to another, in order, and counts those that
    could be sent. -/
def floodFrom (sender : Pid) (target : Dest) : Nat → Nat → Node → Nat × Node
  | _, 0, n => (0, n)
  | next, k + 1, n =>
      match n.send sender target (.int (Int64.ofNat next)) with
      | (.ok (), n') =>
          let (count, n'') := floodFrom sender target (next + 1) k n'
          (count + 1, n'')
      | (.error _, n') => floodFrom sender target (next + 1) k n'

/-! ## Waiting -/

/-- Somebody begins to wait, and holds on to the process. -/
def startWaiting (s : Scenario) (name : String) (p : Pid) (w : Waiter) : Scenario :=
  { s with waiters := s.waiters.insert name w, node := s.node.retain p }

/-- Somebody does not wait any more, and lets go of the process. -/
def stopWaiting (s : Scenario) (name : String) (p : Pid) : Scenario :=
  { s with waiters := s.waiters.erase name, node := s.node.letGo p }

/-- Looks for the answer to somebody who waits. -/
def pollWaiter (s : Scenario) (name : String) : Waiter → Answer × Scenario
  | .message p id deadline =>
      match (s.mailboxOf p).poll id (deadlinePassed deadline s.now) with
      | (none, box) => (.pending, s.setMailbox p box)
      | (some result, box) => (.ofReceived result, (s.setMailbox p box).stopWaiting name p)
  | .exit p =>
      match (s.node.process? p).bind Process.exitNotice with
      | some reason => (.exited (some reason), s.stopWaiting name p)
      | none => (.pending, s)

/-- Begins to receive a message, and looks for it once. -/
def receive (s : Scenario) (p : Pid) (name : String) (test : Predicate) (timeout : Option Nat) :
    Answer × Scenario :=
  match (s.mailboxOf p).pop test.test with
  | (.panic text, _) => (.panicked text, s)
  | (.done result, box) => (.ofReceived result, s.setMailbox p box)
  | (.waiting id, box) =>
      let w : Waiter := .message p id (timeout.map (s.now + ·))
      ((s.setMailbox p box).startWaiting name p w).pollWaiter name w

/-- Begins to wait for the end of a process, and looks for it once. -/
def awaitExit (s : Scenario) (p : Pid) (name : String) : Answer × Scenario :=
  (s.startWaiting name p (.exit p)).pollWaiter name (.exit p)

/-- Gives up waiting. A message that was already there goes back. -/
def cancel (s : Scenario) (name : String) : Answer × Scenario :=
  match s.waiters.get? name with
  | none => (.bool false, s)
  | some (.exit p) => (.bool true, s.stopWaiting name p)
  | some (.message p id _) =>
      (.bool true, (s.setMailbox p ((s.mailboxOf p).cancel id)).stopWaiting name p)

/-- Takes a message without waiting. -/
def tryPop (s : Scenario) (p : Pid) (test : Predicate) : Answer × Scenario :=
  match (s.mailboxOf p).tryPop test.test with
  | (.nothing, _) => (.term none, s)
  | (.message m, box) => (.term (some m), s.setMailbox p box)
  | (.panic text, _) => (.panicked text, s)

/-! ## Looking -/

/-- What can be seen of a process. -/
def info (s : Scenario) (p : Pid) (sorted : Bool) : Answer :=
  match s.node.process? p with
  | none => .invalid "the process is gone"
  | some c =>
      let i := c.info s.node.name p
      .info (if sorted then { i with messages := Term.sort i.messages } else i)

/-- Whether a process is alive: through a handle a dead process is seen to be
    dead, and by name it is not seen at all. -/
def isAlive (s : Scenario) (who : Subject) : Answer × Scenario :=
  match who with
  | .handle label => s.given (s.handles.get? label) fun p => (.bool (!s.hasEnded p), s)
  | .named e => s.given (e.evalPid s.meaning) fun p => (.bool (s.node.isAlive p), s)

/-- Some turns of the draining task. -/
def tick : Nat → Scenario → Scenario
  | 0, s => s
  | k + 1, s => tick k { s with node := s.node.turn }

/-! ## Commands -/

/-- Reads a setting of a process, first changing it if a value is given. -/
def flag (s : Scenario) (p : Pid) (f : ProcessFlag) (value : Option Bool) : Answer × Scenario :=
  let (b, node) := s.node.processFlag p f value
  (.bool b, { s with node })

/-- Carries out a command. -/
def exec (s : Scenario) : Command → Answer × Scenario
  | .makeProcess label => s.makeProcess label
  | .drop label =>
      let (held, s') := s.dropHandle label
      (.bool held, s')
  | .makePid label =>
      match s.node.makePid with
      | (.ok p, node) => (.term (some (.pid p)), bind { s with node } label (.pid p))
      | (.error f, node) => (.failed f, { s with node })
  | .makeRef label =>
      let (ref, node) := s.node.makeRef
      (.term (some (.ref ref)), bindIf { s with node } label (.ref ref))
  | .define label e => s.given (e.eval s.meaning) fun t => (.nothing, s.bind label t)
  | .systemPid label =>
      (.term (some (.pid s.node.systemPid)), s.bindIf label (.pid s.node.systemPid))
  | .about => (.about s.node.name s.node.creation s.node.debug, s)
  | .spawn relation other label refLabel body =>
      let created (other : Pid) : Answer × Scenario :=
        match s.spawnFor relation other label body, refLabel with
        | (.spawned p (some ref), s'), some refLabel =>
            (.spawned p (some ref), s'.bind refLabel (.ref ref))
        | result, _ => result
      match other with
      | some other => s.given (s.subject? other) created
      | none => created s.node.systemPid
  | .register who name => s.given (s.subject? who) fun p =>
      let (done, node) := s.node.register p name
      (.ofSent done, { s with node })
  | .unregister who name => s.given (s.subject? who) fun p => s.silently (s.node.unregister p name)
  | .whereis name => (.term ((s.node.whereis name).map .pid), s)
  | .registered => (.names s.node.registered, s)
  | .deliver target message => s.given (target.evalDest s.meaning) fun target =>
      s.given (message.eval s.meaning) fun message => s.silently (s.node.deliver target message)
  | .signal sender signal target => s.given (s.subject? sender) fun sender =>
      s.given (signal.evalSignal s.meaning) fun signal =>
        s.given (target.evalDest s.meaning) fun target =>
          let (sent, node) := s.node.signal sender signal target
          (.ofSent sent, { s with node })
  | .send sender target message => s.given (s.subject? sender) fun sender =>
      s.given (target.evalDest s.meaning) fun target =>
        s.given (message.eval s.meaning) fun message =>
          let (sent, node) := s.node.send sender target message
          (.ofSent sent, { s with node })
  | .flood sender target count => s.given (s.subject? sender) fun sender =>
      s.given (target.evalDest s.meaning) fun target =>
        let (sent, node) := floodFrom sender target 0 count s.node
        (.number sent, { s with node })
  | .link a b => s.given (s.subject? a) fun a =>
      s.given (b.evalPid s.meaning) fun b => s.silently (s.node.link a b)
  | .unlink a b => s.given (s.subject? a) fun a =>
      s.given (b.evalPid s.meaning) fun b => s.silently (s.node.unlink a b)
  | .monitor a b label => s.given (s.subject? a) fun a => s.given (b.evalPid s.meaning) fun b =>
      let (ref, node) := s.node.monitor a b
      (.term (some (.ref ref)), bind { s with node } label (.ref ref))
  | .demonitor a ref => s.given (s.subject? a) fun a =>
      s.given (ref.evalRef s.meaning) fun ref => s.silently (s.node.demonitor a ref)
  | .exit a b reason => s.given (s.subject? a) fun a => s.given (b.evalPid s.meaning) fun b =>
      s.given (reason.eval s.meaning) fun reason =>
        let (sent, node) := s.node.exit a b reason
        (.ofSent sent, { s with node })
  | .exitSelf who reason => s.given (s.handles.get? who) fun p =>
      s.given (reason.eval s.meaning) fun reason =>
        (.failed ⟨reason⟩, { s with node := s.node.die p reason })
  | .die who reason => s.given (s.handles.get? who) fun p =>
      s.given (reason.eval s.meaning) fun reason => s.silently (s.node.die p reason)
  | .trapExit who value => s.given (s.handles.get? who) fun p => s.flag p .trapExit (some value)
  | .flag who name value => s.given (s.handles.get? who) fun p =>
      match s.node.processFlagNamed p name value with
      | (.ok b, node) => (.bool b, { s with node })
      | (.error f, node) => (.failed f, { s with node })
  | .processFlag who value => s.given (s.handles.get? who) fun p => s.flag p .trapExit value
  | .receive who waiter test timeout => s.given (s.handles.get? who) fun p =>
      s.given (test.eval s.meaning) fun test => s.receive p waiter test timeout
  | .awaitExit who waiter => s.given (who.evalPid s.meaning) fun p =>
      if (s.node.lookup p).isSome then s.awaitExit p waiter else (.exited none, s)
  | .exited who waiter => s.given (s.handles.get? who) fun p => s.awaitExit p waiter
  | .poll waiter =>
      match s.waiters.get? waiter with
      | some w => s.pollWaiter waiter w
      | none => (.unknown, s)
  | .cancel waiter => s.cancel waiter
  | .tryPop who test => s.given (s.handles.get? who) fun p =>
      s.given (test.eval s.meaning) fun test => s.tryPop p test
  | .push who message => s.given (s.handles.get? who) fun p =>
      s.given (message.eval s.meaning) fun message =>
        (.nothing, s.setMailbox p ((s.mailboxOf p).push message))
  | .clear who reason => s.given (s.handles.get? who) fun p =>
      s.given (reason.eval s.meaning) fun reason =>
        (.nothing, s.setMailbox p ((s.mailboxOf p).clear reason))
  | .registerRouter node cost router hidden => s.given (router.evalPid s.meaning) fun router =>
      let (done, n) := s.node.registerRouter node cost router ⟨hidden⟩
      (.ofSent done, { s with node := n })
  | .unregisterRouter router => s.given (router.evalPid s.meaning) fun router =>
      s.silently (s.node.unregisterRouter router)
  | .nodes => (.names s.node.nodes, s)
  | .nodeIndex node =>
      let (index, n) := s.node.nodeIndex node
      (.number index.toNat, { s with node := n })
  | .nodeNameAt index => (.name (s.node.nodeNameAt index), s)
  | .remotePid label node id serial creation =>
      let (p, n) := s.node.remotePid node id serial creation
      (.term (some (.pid p)), bind { s with node := n } label (.pid p))
  | .isAlive who => s.isAlive who
  | .processes => (.pids s.node.living, s)
  | .processCount => (.number s.node.processCount, s)
  | .debug who => s.given (s.handles.get? who) fun p =>
      match s.node.process? p with
      | some c => (.text (c.debug p), s)
      | none => s.nowhere
  | .current => (.noCurrent, s)
  | .info who sorted => s.given (s.handles.get? who) fun p => (s.info p sorted, s)
  | .log => (.logs s.logs.entries, s)
  | .tick count => (.nothing, s.tick count)
  | .settle => (.nothing, s.settle)
  | .advance ms =>
      let s' := s.settle
      (.nothing, settle { s' with now := s'.now + ms })

/-- The number of processes, of registered names and of queued signals. -/
def status (s : Scenario) : Nat × Nat × Nat :=
  (s.node.processCount, s.node.names.size, s.node.queue.signals.length)

/-- Carries out some commands, one after the other, and collects the answers,
    each with the numbers after it. -/
def execAll (s : Scenario) : List Command → List (Answer × Nat × Nat × Nat)
  | [] => []
  | c :: rest =>
      let (answer, s') := s.exec c
      (answer, s'.status) :: execAll s' rest

end Scenario

end Actors
