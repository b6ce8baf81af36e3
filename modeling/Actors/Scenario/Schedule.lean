import Actors.Scenario.State

/-!
# Running Bodies

How process bodies run, and how they take turns with the handling of signals.

A body runs step by step until it has to wait. What runs next is whatever has
been ready longest: one turn of the draining task, or one body. A body whose
process has ended is not run any more; that is looked at each time before it
would run, and never in between, so a body that ends its own process still
gets as far as its next wait.

## Main definitions

* `Scenario.runStep`: One step of a body.
* `Scenario.runBody`: A body, until it waits or ends.
* `Scenario.advanceOne`: Whatever has been ready longest.
* `Scenario.workBound`: More than can be done before everybody waits.
* `Scenario.settle`: Runs until everybody waits.
-/

namespace Actors

/-- What a step of a body comes to. -/
inductive StepResult where
  /-- It is complete, with an answer and the labels of the body from here on. -/
  | complete (a : Answer) (locals : Dict String Term)
  /-- It waits. -/
  | waits (w : Wait)
  /-- It is the last. -/
  | last (o : Outcome)

namespace Scenario

/-- The labels of a body after it received a message through a pattern. -/
def bindCaptures (locals : Dict String Term) (pattern : Option Pattern) (message : Term) :
    Dict String Term :=
  match pattern.bind fun p => p.bind message with
  | some bindings => bindings.entries.foldl (fun d e => d.insert e.1 e.2) locals
  | none => locals

/-- A body looks for the message it waits for. -/
def lookForMessage (s : Scenario) (t : Task) (id : Nat) (deadline : Option Nat)
    (pattern : Option Pattern) : StepResult × Scenario :=
  match (s.mailboxOf t.pid).poll id (deadlinePassed deadline s.now) with
  | (none, box) => (.waits (.message id deadline pattern), s.setMailbox t.pid box)
  | (some result, box) =>
      let locals := match result with
        | .ok message => bindCaptures t.locals pattern message
        | .error _ => t.locals
      (.complete (.ofReceived result) locals, s.setMailbox t.pid box)

/-- A body begins to receive. -/
def beginReceive (s : Scenario) (t : Task) (test : Predicate) (timeout : Option Nat) :
    StepResult × Scenario :=
  let pattern := match test with
    | .pattern p => some p
    | _ => none
  match (s.mailboxOf t.pid).pop test.test with
  | (.panic text, _) => (.last (.panicked (some text)), s)
  | (.done result, box) =>
      let locals := match result with
        | .ok message => bindCaptures t.locals pattern message
        | .error _ => t.locals
      (.complete (.ofReceived result) locals, s.setMailbox t.pid box)
  | (.waiting id, box) =>
      lookForMessage (s.setMailbox t.pid box) t id (timeout.map (s.now + ·)) pattern

/-- A process is created for a body, in relation to another one. -/
def spawnFor (s : Scenario) (relation : Relation) (other : Pid) (label : String)
    (body : List BodyStep) : Answer × Scenario :=
  match relation with
  | .unrelated =>
      match s.node.spawn with
      | (.error f, node) => (.failed f, { s with node })
      | (.ok p, node) =>
          (.spawned p none, (bind { s with node } label (.pid p)).startTask label p body)
  | .linked =>
      match s.node.spawnLink other with
      | (.error f, node) => (.failed f, { s with node })
      | (.ok p, node) =>
          (.spawned p none, (bind { s with node } label (.pid p)).startTask label p body)
  | .monitored =>
      match s.node.spawnMonitor other with
      | (.error f, node) => (.failed f, { s with node })
      | (.ok (p, ref), node) =>
          (.spawned p (some ref), (bind { s with node } label (.pid p)).startTask label p body)

/-- The answer to a step whose expressions have no value. -/
def noMeaning : StepResult := .last (.panicked (some "a label stands for nothing"))

/-- One step of a body. -/
def runStep (s : Scenario) (t : Task) : BodyStep → StepResult × Scenario
  | .catching step => runStep s t step
  | .send target message =>
      match target.evalDest (s.meaningIn t.locals), message.eval (s.meaningIn t.locals) with
      | some target, some message =>
          let (sent, node) := s.node.send t.pid target message
          (.complete (.ofSent sent) t.locals, { s with node })
      | _, _ => (noMeaning, s)
  | .receive test timeout =>
      match t.wait with
      | some (.message id deadline pattern) => lookForMessage s t id deadline pattern
      | _ =>
          match test.eval (s.meaningIn t.locals) with
          | some test => beginReceive s t test timeout
          | none => (noMeaning, s)
  | .trapExit value =>
      (.complete (.bool value) t.locals,
        { s with node := s.node.update t.pid fun c => c.setFlag .trapExit value })
  | .link other =>
      match other.evalPid (s.meaningIn t.locals) with
      | some other => (.complete .nothing t.locals, { s with node := s.node.link t.pid other })
      | none => (noMeaning, s)
  | .unlink other =>
      match other.evalPid (s.meaningIn t.locals) with
      | some other => (.complete .nothing t.locals, { s with node := s.node.unlink t.pid other })
      | none => (noMeaning, s)
  | .monitor other label =>
      match other.evalPid (s.meaningIn t.locals) with
      | some other =>
          let (ref, node) := s.node.monitor t.pid other
          (.complete (.term (some (.ref ref))) (t.locals.insert label (.ref ref)), { s with node })
      | none => (noMeaning, s)
  | .demonitor ref =>
      match ref.evalRef (s.meaningIn t.locals) with
      | some ref => (.complete .nothing t.locals, { s with node := s.node.demonitor t.pid ref })
      | none => (noMeaning, s)
  | .register name =>
      let (done, node) := s.node.register t.pid name
      (.complete (.ofSent done) t.locals, { s with node })
  | .whereis name => (.complete (.term ((s.node.whereis name).map .pid)) t.locals, s)
  | .exit other reason =>
      match other.evalPid (s.meaningIn t.locals), reason.eval (s.meaningIn t.locals) with
      | some other, some reason =>
          let (sent, node) := s.node.exit t.pid other reason
          (.complete (.ofSent sent) t.locals, { s with node })
      | _, _ => (noMeaning, s)
  | .exitSelf reason =>
      match reason.eval (s.meaningIn t.locals) with
      | some reason =>
          (.complete (.failed ⟨reason⟩) t.locals, { s with node := s.node.die t.pid reason })
      | none => (noMeaning, s)
  | .spawn relation label refLabel body =>
      let (answer, s') := s.spawnFor relation t.pid label body
      let locals := match answer, refLabel with
        | .spawned _ (some ref), some refLabel => t.locals.insert refLabel (.ref ref)
        | _, _ => t.locals
      (.complete answer locals, s')
  | .self => (.complete (.current t.pid) t.locals, s)
  | .pause =>
      match t.wait with
      | some .turn => (.complete .nothing t.locals, s)
      | _ => (.waits .turn, s)
  | .finish => (.last .finished, s)
  | .fail reason =>
      match reason.eval (s.meaningIn t.locals) with
      | some reason => (.last (.failed ⟨reason⟩), s)
      | none => (noMeaning, s)
  | .panic text => (.last (.panicked text), s)

/-- A body, until it waits or ends. The answer to each step that completes is
    noted down; a failure that is not caught ends the body. -/
def runBody : List BodyStep → Task → Scenario → Scenario
  | [], t, s => s.endTask t .finished
  | step :: rest, t, s =>
      match s.runStep t step with
      | (.complete a locals, s') =>
          let s'' := s'.note t.label a
          match a.failure?, step.catches with
          | some f, false => s''.endTask t (.failed f)
          | _, _ => runBody rest { t with locals, wait := none } s''
      | (.waits w, s') =>
          { s' with tasks := s'.tasks.insert t.pid { t with rest := step :: rest, wait := some w } }
      | (.last o, s') => s'.endTask t o

/-- A task runs: its body goes on, unless its process has ended. -/
def runTask (s : Scenario) (p : Pid) : Scenario :=
  match s.tasks.get? p with
  | none => s
  | some t => if s.hasEnded p then s.abandonTask t else runBody t.rest t (s.openLog t.label)

/-- Runs whatever has been ready longest. -/
def advanceOne (s : Scenario) : Scenario :=
  match s.ready with
  | [] => s
  | .drain :: rest => wake { s with node := s.node.turn, ready := rest }
  | .body p :: rest => wake (runTask { s with ready := rest } p)

/-- More than can be done before everybody waits. A signal is handled in some
    turn of the draining task, a step of a body queues at most four signals and
    answers, and a body is run once for each step it waits in, once to start
    and once to be told that its process ended. -/
def workBound (s : Scenario) : Nat :=
  2 * s.node.drainBound +
    12 * s.tasks.total (fun t => 1 + BodyStep.weightAll t.rest) + 8

/-- Runs what is ready, as often as given. -/
def advanceMany : Nat → Scenario → Scenario
  | 0, s => s
  | k + 1, s => if s.ready.isEmpty then s else advanceMany k s.advanceOne

/-- Runs until no signal is queued and everybody waits. -/
def settle (s : Scenario) : Scenario :=
  let s' := s.wake
  advanceMany s'.workBound s'

end Scenario

end Actors
