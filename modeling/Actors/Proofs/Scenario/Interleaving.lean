import Actors.Proofs.Node.Run
import Actors.Scenario.Schedule

/-!
# Bodies Among Others

A body runs between other things: signals are handled, and others make requests, some
of them about the process of the body. This module says in which ways all this can
come in turn, and what it does to the node.

`ScenarioOp` is anything that can happen next. Bodies are polled when somebody thinks
fit, not only when they have something to do, and while a body runs others may act
before each of its steps and before its end. `play` lets one thing happen, with the
functions that run bodies in a scenario, and writes down the operations that the node
sees. That it writes down all of them, in the right order, is `node_play`: the node is
what these operations make of it. So laws about all runs of a node become laws about
bodies.

What a step of a body asks of the node is read off the step, and how a body ends is
written out: in good order, with the reason of its failure, or in a panic.

The scheduler of a scenario polls what is ready and otherwise drains the queue. It is
one of the ways in which things can come in turn, `exists_playAll_settle`.

## Main definitions

* `ScenarioOp`: Something that happens to a scenario.
* `Scenario.stepOps`, `Scenario.endOps`: What a step of a body and its end ask of the node.
* `Scenario.runAmid`: A body runs while others act.
* `Scenario.play`, `Scenario.playAll`: Things happen, and what the node sees of them.

## Theorems

* `node_runStep`, `node_runAmid`, `node_playAll`: The node is what the operations make of it.
* `runAmid_nil`: When others keep still, a body runs as it does in a scenario.
* `play_poll_of_hasEnded`: The body of a process that ended is not run.
* `exists_playAll_settle`: What the scheduler does can happen.
-/

namespace Actors

/-- Something that happens to a scenario. -/
inductive ScenarioOp where
  /-- A request is made to the node, a process is ended by somebody who holds it, or the
      draining task does something. -/
  | call (op : NodeOp)
  /-- A process with a body is created. -/
  | spawn (relation : Relation) (other : Pid) (label : String) (body : List BodyStep)
  /-- The task of a process is polled. While its body runs, others act before each step. -/
  | poll (p : Pid) (others : List (List NodeOp))
  /-- Time passes. -/
  | pass (ms : Nat)
  /-- A label gets a meaning. -/
  | define (label : String) (t : Term)
  /-- It is decided what is to run, and in which order. -/
  | arrange (ready : List Runnable)

namespace Scenario

/-- Some operations of the node happen. -/
def act (s : Scenario) (ops : List NodeOp) : Scenario := { s with node := s.node.run ops }

/-! ## What bodies ask of the node -/

/-- How a process is created for a body. -/
def spawnOps (other : Pid) : Relation → List NodeOp
  | .unrelated => [.spawn]
  | .linked => [.spawnLink other]
  | .monitored => [.spawnMonitor other]

/-- What the end of a body does: its process ends, normally, for the reason of the
    failure, or with the message of the panic, and the handle of the task is gone. -/
def endOps (p : Pid) : Outcome → List NodeOp
  | .finished => [.die p (.atom "normal"), .letGo p]
  | .failed f => [.die p f.reason, .letGo p]
  | .panicked text =>
      [.die p (.tuple [.atom "panic", .text (text.getD "unknown panic")]), .letGo p]

/-- What a task does that is not to go on: its receiver gives up, and its handle is gone. -/
def leaveOps (t : Task) : List NodeOp :=
  match t.wait with
  | some (.message id _ _) => [.receive t.pid (.leave id), .letGo t.pid]
  | _ => [.letGo t.pid]

/-- What a body asks of the node when it begins to receive. If it has to wait it looks for
    its answer once right away, and if its test breaks down it has not arrived. -/
def receiveOps (s : Scenario) (t : Task) (test : Predicate) (timeout : Option Nat) :
    List NodeOp :=
  match ((s.mailboxOf t.pid).pop test.test).1 with
  | .done _ => [.receive t.pid (.arrive test.test)]
  | .waiting id =>
      [.receive t.pid (.arrive test.test),
        .receive t.pid (.look id (deadlinePassed (timeout.map (s.now + ·)) s.now))]
  | .panic _ => []

/-- What a step of a body asks of the node. -/
def stepOps (s : Scenario) (t : Task) : BodyStep → List NodeOp
  | .catching step => stepOps s t step
  | .send target message =>
      match target.evalDest (s.meaningIn t.locals), message.eval (s.meaningIn t.locals) with
      | some target, some message => [.signal t.pid (.relay message) target]
      | _, _ => []
  | .receive test timeout =>
      match t.wait with
      | some (.message id deadline _) =>
          [.receive t.pid (.look id (deadlinePassed deadline s.now))]
      | _ =>
          match test.eval (s.meaningIn t.locals) with
          | some test => s.receiveOps t test timeout
          | none => []
  | .trapExit value => [.setFlag t.pid .trapExit value]
  | .link other =>
      match other.evalPid (s.meaningIn t.locals) with
      | some other => [.link t.pid other]
      | none => []
  | .unlink other =>
      match other.evalPid (s.meaningIn t.locals) with
      | some other => [.unlink t.pid other]
      | none => []
  | .monitor other _ =>
      match other.evalPid (s.meaningIn t.locals) with
      | some other => [.monitor t.pid other]
      | none => []
  | .demonitor ref =>
      match ref.evalRef (s.meaningIn t.locals) with
      | some ref => [.demonitor t.pid ref]
      | none => []
  | .register name => [.register t.pid name]
  | .exit other reason =>
      match other.evalPid (s.meaningIn t.locals), reason.eval (s.meaningIn t.locals) with
      | some other, some reason => [.signal t.pid (.exit reason) (.pid other)]
      | _, _ => []
  | .exitSelf reason =>
      match reason.eval (s.meaningIn t.locals) with
      | some reason => [.die t.pid reason]
      | none => []
  | .spawn relation _ _ _ => spawnOps t.pid relation
  | _ => []

/-! ## Bodies run -/

/-- A body ends after others have acted. -/
def endAmid (others : List (List NodeOp)) (t : Task) (o : Outcome) (s : Scenario) :
    List NodeOp × Scenario :=
  let before := others.headD []
  (before ++ endOps t.pid o, (s.act before).endTask t o)

/-- A body runs until it waits or ends, and others act before each of its steps and before
    its end. The node sees the operations in the list. -/
def runAmid : List (List NodeOp) → List BodyStep → Task → Scenario → List NodeOp × Scenario
  | others, [], t, s => endAmid others t .finished s
  | others, step :: rest, t, s =>
      let before := others.headD []
      let s₀ := s.act before
      let ops := before ++ s₀.stepOps t step
      match s₀.runStep t step with
      | (.complete a locals, s₁) =>
          let s₂ := s₁.note t.label a
          let (more, s₃) :=
            match a.failure?, step.catches with
            | some f, false => endAmid others.tail t (.failed f) s₂
            | _, _ => runAmid others.tail rest { t with locals, wait := none } s₂
          (ops ++ more, s₃)
      | (.waits w, s₁) =>
          (ops, { s₁ with
            tasks := s₁.tasks.insert t.pid { t with rest := step :: rest, wait := some w } })
      | (.last o, s₁) =>
          let (more, s₂) := endAmid others.tail t o s₁
          (ops ++ more, s₂)

/-- One thing happens, and the node sees the operations in the list. -/
def play (s : Scenario) : ScenarioOp → List NodeOp × Scenario
  | .call op => ([op], s.act [op])
  | .spawn relation other label body =>
      (spawnOps other relation, (s.spawnFor relation other label body).2)
  | .poll p others =>
      match s.tasks.get? p with
      | none => ([], s)
      | some t =>
          if s.hasEnded p then (leaveOps t, s.abandonTask t)
          else runAmid others t.rest t (s.openLog t.label)
  | .pass ms => ([], { s with now := s.now + ms })
  | .define label t => ([], s.bind label t)
  | .arrange ready => ([], { s with ready })

/-- Some things happen, one after the other. -/
def playAll (s : Scenario) : List ScenarioOp → List NodeOp × Scenario
  | [] => ([], s)
  | e :: rest =>
      let (ops, s₁) := s.play e
      let (more, s₂) := s₁.playAll rest
      (ops ++ more, s₂)

variable {s : Scenario} {t : Task} {p : Pid}

/-! ## The node sees all of it -/

/-- Where nothing is asked of the node nothing happens to it. -/
@[simp] theorem act_nil (s : Scenario) : s.act [] = s := rfl

/-- A receiver of a process does something. -/
theorem setMailbox_serve (s : Scenario) (p : Pid) (r : Receive Term) :
    s.setMailbox p ((s.mailboxOf p).serve r) = s.act [.receive p r] := by
  change _ = { s with node := s.node.update p (·.serve r) }
  rw [setMailbox, mailboxOf]
  rcases hc : s.node.process? p with _ | c
  · -- Nobody is there to be changed.
    simp only [Node.update, Dict.modify_of_get?_none hc]
  · have hsame : ∀ f : Process → Process, f c = c.serve r →
        s.node.update p f = s.node.update p (·.serve r) := fun f hf => Node.update_congr hc hf
    dsimp only
    rw [hsame _ rfl]

/-- When a body looks for its message the node sees a receiver that looks. -/
theorem node_lookForMessage (s : Scenario) (t : Task) (id : Nat) (deadline : Option Nat)
    (pattern : Option Pattern) : (s.lookForMessage t id deadline pattern).2.node =
      s.node.run [.receive t.pid (.look id (deadlinePassed deadline s.now))] := by
  have hserve := setMailbox_serve s t.pid (.look id (deadlinePassed deadline s.now))
  rw [Mailbox.serve] at hserve
  rw [lookForMessage]
  rcases hp : (s.mailboxOf t.pid).poll id (deadlinePassed deadline s.now) with ⟨_ | result, box⟩ <;>
    rw [hp] at hserve <;> exact congrArg Scenario.node hserve

/-- When a body begins to receive the node sees a receiver that arrives, and that looks once if it
    has to wait. -/
theorem node_beginReceive (s : Scenario) (t : Task) (test : Predicate) (timeout : Option Nat) :
    (s.beginReceive t test timeout).2.node = s.node.run (s.receiveOps t test timeout) := by
  have hserve := setMailbox_serve s t.pid (.arrive test.test)
  rw [Mailbox.serve] at hserve
  rcases hp : (s.mailboxOf t.pid).pop test.test with ⟨result | text | id, box⟩ <;>
    rw [hp] at hserve <;> simp only [beginReceive, receiveOps, hp]
  · exact congrArg Scenario.node hserve
  · rfl
  · rw [node_lookForMessage, hserve]
    rfl

/-- Waking the task that drains changes only what is ready to run. -/
theorem exists_wakeDrain (s : Scenario) : ∃ ready, s.wakeDrain = { s with ready } := by
  rw [wakeDrain, makeReady]
  split
  · exact ⟨s.ready, rfl⟩
  · split
    · exact ⟨s.ready, rfl⟩
    · exact ⟨_, rfl⟩

/-- A task is started outside of the node. -/
theorem node_startTask (s : Scenario) (label : String) (p : Pid) (body : List BodyStep) :
    (s.startTask label p body).node = s.node := by
  rcases exists_wakeDrain s with ⟨ready, hwake⟩
  rw [startTask, hwake]

/-- What the node makes of the request is a failure, or a process, which then gets a task. -/
theorem spawnFor_cases (s : Scenario) (relation : Relation) (other : Pid) (label : String)
    (body : List BodyStep) :
    let asked := s.act (spawnOps other relation)
    (s.spawnFor relation other label body).2 = asked ∨
      ∃ p, (s.spawnFor relation other label body).2 =
        (asked.bind label (.pid p)).startTask label p body := by
  -- The three kinds of birth differ in what they answer, so each is asked for itself.
  cases relation with
  | unrelated =>
      change _ = { s with node := s.node.spawn.2 } ∨
        ∃ p, _ = (bind { s with node := s.node.spawn.2 } label (.pid p)).startTask label p body
      rw [spawnFor]
      rcases s.node.spawn with ⟨f | p, n⟩
      · exact Or.inl rfl
      · exact Or.inr ⟨p, rfl⟩
  | linked =>
      change _ = { s with node := (s.node.spawnLink other).2 } ∨
        ∃ p, _ = (bind { s with node := (s.node.spawnLink other).2 } label (.pid p)).startTask
          label p body
      rw [spawnFor]
      rcases s.node.spawnLink other with ⟨f | p, n⟩
      · exact Or.inl rfl
      · exact Or.inr ⟨p, rfl⟩
  | monitored =>
      change _ = { s with node := (s.node.spawnMonitor other).2 } ∨
        ∃ p, _ = (bind { s with node := (s.node.spawnMonitor other).2 } label (.pid p)).startTask
          label p body
      rw [spawnFor]
      rcases s.node.spawnMonitor other with ⟨f | ⟨p, ref⟩, n⟩
      · exact Or.inl rfl
      · exact Or.inr ⟨p, rfl⟩

/-- The node sees the request for a process, and not the task that comes of it. -/
theorem node_spawnFor (s : Scenario) (relation : Relation) (other : Pid) (label : String)
    (body : List BodyStep) :
    (s.spawnFor relation other label body).2.node = s.node.run (spawnOps other relation) := by
  rcases spawnFor_cases s relation other label body with hs | ⟨p, hs⟩ <;> rw [hs]
  · rfl
  · exact node_startTask _ label p body

/-- To receive is to begin, or to look again if the body was waiting already. -/
theorem node_receive (s : Scenario) (t : Task) (test : PredicateExpr) (timeout : Option Nat) :
    (s.runStep t (.receive test timeout)).2.node =
      s.node.run (s.stepOps t (.receive test timeout)) := by
  -- A body that is not waiting yet begins to receive.
  have hbegin : (∀ id deadline pattern, t.wait ≠ some (.message id deadline pattern)) →
      (s.runStep t (.receive test timeout)).2.node =
        s.node.run (s.stepOps t (.receive test timeout)) := by
    intro hwait
    rcases he : test.eval (s.meaningIn t.locals) with _ | test <;>
      rcases hw : t.wait with _ | ⟨id, deadline, pattern⟩ | _ <;>
      simp only [runStep, stepOps, hw, he]
    · rfl
    · exact absurd hw (hwait id deadline pattern)
    · rfl
    · exact node_beginReceive s t test timeout
    · exact absurd hw (hwait id deadline pattern)
    · exact node_beginReceive s t test timeout
  rcases hw : t.wait with _ | ⟨id, deadline, pattern⟩ | _
  · exact hbegin fun _ _ _ h => absurd (hw.symm.trans h) (by simp)
  · simp only [runStep, stepOps, hw]
    exact node_lookForMessage s t id deadline pattern
  · exact hbegin fun _ _ _ h => absurd (hw.symm.trans h) (by simp)

/-- A step of a body does to the node what it asks for. -/
theorem node_runStep (s : Scenario) (t : Task) : ∀ step : BodyStep,
    (s.runStep t step).2.node = s.node.run (s.stepOps t step)
  | .catching step => by
      rw [runStep, stepOps]
      exact node_runStep s t step
  | .send target message => by
      rcases ht : target.evalDest (s.meaningIn t.locals) with _ | target <;>
        rcases hm : message.eval (s.meaningIn t.locals) with _ | message <;>
        simp only [runStep, stepOps, ht, hm] <;> rfl
  | .receive test timeout => node_receive s t test timeout
  | .trapExit value => by rw [runStep, stepOps]; rfl
  | .link other | .unlink other | .monitor other _ => by
      rcases ho : other.evalPid (s.meaningIn t.locals) with _ | other <;>
        simp only [runStep, stepOps, ho] <;> rfl
  | .demonitor ref => by
      rcases hr : ref.evalRef (s.meaningIn t.locals) with _ | ref <;>
        simp only [runStep, stepOps, hr] <;> rfl
  | .register name => by rw [runStep, stepOps]; rfl
  | .exit other reason => by
      rcases ho : other.evalPid (s.meaningIn t.locals) with _ | other <;>
        rcases hr : reason.eval (s.meaningIn t.locals) with _ | reason <;>
        simp only [runStep, stepOps, ho, hr] <;> rfl
  | .exitSelf reason => by
      rcases hr : reason.eval (s.meaningIn t.locals) with _ | reason <;>
        simp only [runStep, stepOps, hr] <;> rfl
  | .spawn relation label refLabel body => by
      rw [runStep, stepOps]
      exact node_spawnFor s relation t.pid label body
  | .pause => by
      rw [runStep]
      split <;> rfl
  | .fail reason => by
      rw [runStep]
      split <;> rfl
  | .whereis _ | .self | .finish | .panic _ => rfl

/-- The end of a body does to the node what it asks for, and its task is gone. -/
theorem endTask_eq (s : Scenario) (t : Task) (o : Outcome) :
    s.endTask t o = { s.act (endOps t.pid o) with tasks := s.tasks.erase t.pid } := by
  cases o <;> rfl

/-- A task that is not to go on leaves the node in the same way. -/
theorem abandonTask_eq (s : Scenario) (t : Task) :
    s.abandonTask t = { s.act (leaveOps t) with tasks := s.tasks.erase t.pid } := by
  rcases hw : t.wait with _ | ⟨id, deadline, pattern⟩ | _ <;>
    simp only [abandonTask, leaveOps, hw]
  · rfl
  · have hserve := setMailbox_serve s t.pid (.leave id)
    rw [Mailbox.serve] at hserve
    rw [hserve]
    rfl
  · rfl

/-- A body that ends after others have acted. -/
theorem node_endAmid (others : List (List NodeOp)) (t : Task) (o : Outcome) (s : Scenario) :
    (endAmid others t o s).2.node = s.node.run (endAmid others t o s).1 := by
  rw [endAmid, endTask_eq, Node.run_append]
  rfl

/-- While a body runs, the node sees what it asks for and what the others do. -/
theorem node_runAmid (others : List (List NodeOp)) (steps : List BodyStep) (t : Task)
    (s : Scenario) :
    (runAmid others steps t s).2.node = s.node.run (runAmid others steps t s).1 := by
  induction steps generalizing others t s with
  | nil => exact node_endAmid others t .finished s
  | cons step rest ih =>
      have hstep := node_runStep (s.act (others.headD [])) t step
      change _ = (s.node.run (others.headD [])).run _ at hstep
      rw [← Node.run_append] at hstep
      rw [runAmid]
      rcases hr : (s.act (others.headD [])).runStep t step with ⟨⟨a, locals⟩ | w | o, s₁⟩ <;>
        rw [hr] at hstep <;> dsimp only at hstep ⊢
      · -- The step is complete, and its answer decides whether it was the last.
        split
        · rw [node_endAmid, Node.run_append, ← hstep]
          rfl
        · rw [ih, Node.run_append, ← hstep]
          rfl
      · exact hstep
      · rw [node_endAmid, Node.run_append, ← hstep]

/-- When the others keep still, a body runs as it does in a scenario. -/
theorem runAmid_nil (steps : List BodyStep) (t : Task) (s : Scenario) :
    (runAmid [] steps t s).2 = runBody steps t s := by
  induction steps generalizing t s with
  | nil => rfl
  | cons step rest ih =>
      -- A step is done, waits, or ends the body. Only the first of these goes on.
      rcases hr : s.runStep t step with ⟨⟨a, locals⟩ | w | o, s₁⟩ <;>
        simp only [runAmid, runBody, List.headD_nil, List.tail_nil, act_nil, hr]
      · rcases a.failure? with _ | f
        · exact ih _ _
        · rcases step.catches with _ | _
          · rfl
          · exact ih _ _
      · rfl

/-- A task that others do not disturb runs as it does in a scenario. -/
theorem play_poll (s : Scenario) (p : Pid) : (s.play (.poll p [])).2 = s.runTask p := by
  rcases ht : s.tasks.get? p with _ | t <;> simp only [play, runTask, ht]
  split
  · rfl
  · exact runAmid_nil t.rest t (s.openLog t.label)

/-- One thing happens, and the node is what the operations it saw make of it. -/
theorem node_play (s : Scenario) (e : ScenarioOp) :
    (s.play e).2.node = s.node.run (s.play e).1 := by
  cases e with
  | spawn relation other label body => exact node_spawnFor s relation other label body
  | poll p others =>
      rw [play]
      split
      next => rfl
      next t ht =>
        split
        · rw [abandonTask_eq]
          rfl
        · rw [node_runAmid]
          rw [openLog]
          split <;> rfl
  | _ => rfl

/-- The node is what the operations that it saw make of it. -/
theorem node_playAll (s : Scenario) (es : List ScenarioOp) :
    (s.playAll es).2.node = s.node.run (s.playAll es).1 := by
  induction es generalizing s with
  | nil => rfl
  | cons e rest ih =>
      rw [playAll, Node.run_append, ← node_play]
      exact ih (s.play e).2

/-- Some things happen, and then others. -/
theorem playAll_append (s : Scenario) (es fs : List ScenarioOp) :
    s.playAll (es ++ fs) = ((s.playAll es).1 ++ ((s.playAll es).2.playAll fs).1,
      ((s.playAll es).2.playAll fs).2) := by
  induction es generalizing s with
  | nil => rfl
  | cons e rest ih =>
      simp only [List.cons_append, playAll, ih, List.append_assoc]

/-! ## Tasks and their processes -/

/-- Every task is kept under the name of its process. -/
def Keyed (s : Scenario) : Prop := ∀ p t, s.tasks.get? p = some t → t.pid = p

/-- A task is put under the name of its own process. -/
theorem keyed_insert {tasks : Dict Pid Task} (h : ∀ p t, tasks.get? p = some t → t.pid = p)
    (t : Task) : ∀ p t', (tasks.insert t.pid t).get? p = some t' → t'.pid = p := by
  intro p t' ht'
  rw [Dict.get?_insert] at ht'
  split at ht'
  next heq =>
    rw [Option.some.injEq] at ht'
    rw [heq, ht']
  next => exact h p t' ht'

/-- Taking a task away leaves the others where they are. -/
theorem keyed_erase {tasks : Dict Pid Task} (h : ∀ p t, tasks.get? p = some t → t.pid = p)
    (q : Pid) : ∀ p t, (tasks.erase q).get? p = some t → t.pid = p :=
  fun p t ht => h p t (Dict.get?_of_erase ht).2

/-- A task that is started is kept under the name it was started with. -/
theorem Keyed.startTask (h : s.Keyed) (label : String) (p : Pid) (body : List BodyStep) :
    (s.startTask label p body).Keyed := by
  rcases exists_wakeDrain s with ⟨ready, hwake⟩
  rw [Scenario.startTask, hwake]
  exact keyed_insert h (.start label p body)

/-- So is the task of a process that a body creates. -/
theorem Keyed.spawnFor (h : s.Keyed) (relation : Relation) (other : Pid) (label : String)
    (body : List BodyStep) : (s.spawnFor relation other label body).2.Keyed := by
  have hasked : (s.act (spawnOps other relation)).Keyed := h
  rcases spawnFor_cases s relation other label body with hs | ⟨p, hs⟩ <;> rw [hs]
  · exact hasked
  · have hbind : ((s.act (spawnOps other relation)).bind label (.pid p)).Keyed := hasked
    exact hbind.startTask label p body

/-- Looking for a message changes no task. -/
theorem tasks_lookForMessage (s : Scenario) (t : Task) (id : Nat) (deadline : Option Nat)
    (pattern : Option Pattern) : (s.lookForMessage t id deadline pattern).2.tasks = s.tasks := by
  rw [lookForMessage]
  rcases (s.mailboxOf t.pid).poll id (deadlinePassed deadline s.now) with ⟨_ | result, box⟩ <;> rfl

/-- Nor does receiving one. Whether the task waits is written down afterwards. -/
theorem tasks_receive (s : Scenario) (t : Task) (test : PredicateExpr) (timeout : Option Nat) :
    (s.runStep t (.receive test timeout)).2.tasks = s.tasks := by
  rw [runStep]
  split
  · exact tasks_lookForMessage s t _ _ _
  · split
    · simp only [beginReceive]
      split
      · rfl
      · rfl
      · exact tasks_lookForMessage _ t _ _ _
    · rfl

/-- A step of a body starts no task but one for a process that it creates. -/
theorem Keyed.runStep (h : s.Keyed) (t : Task) : ∀ step : BodyStep, (s.runStep t step).2.Keyed
  | .catching step => by
      rw [Scenario.runStep]
      exact h.runStep t step
  | .receive test timeout => by
      intro p t' ht'
      rw [tasks_receive] at ht'
      exact h p t' ht'
  | .spawn relation label refLabel body => by
      rw [Scenario.runStep]
      exact h.spawnFor relation t.pid label body
  | .send _ _ | .link _ | .unlink _ | .monitor _ _ | .demonitor _ | .exit _ _ | .exitSelf _
  | .fail _ | .pause => by
      rw [Scenario.runStep]
      split <;> exact h
  | .trapExit _ | .register _ => by
      rw [Scenario.runStep]
      exact h
  | .whereis _ | .self | .finish | .panic _ => h

/-- A body that ends takes its task away. -/
theorem Keyed.endAmid (h : s.Keyed) (others : List (List NodeOp)) (t : Task) (o : Outcome) :
    (endAmid others t o s).2.Keyed := by
  rw [Scenario.endAmid, endTask_eq]
  exact keyed_erase h t.pid

/-- However far a body gets, its task goes back under its own name or is gone. -/
theorem Keyed.runAmid (h : s.Keyed) (others : List (List NodeOp)) (steps : List BodyStep)
    (t : Task) : (runAmid others steps t s).2.Keyed := by
  induction steps generalizing others t s with
  | nil => exact h.endAmid others t .finished
  | cons step rest ih =>
      have hact : (s.act (others.headD [])).Keyed := h
      have hstep := hact.runStep t step
      rw [Scenario.runAmid]
      rcases hr : (s.act (others.headD [])).runStep t step with ⟨⟨a, locals⟩ | w | o, s₁⟩ <;>
        rw [hr] at hstep <;> dsimp only
      · have hnote : (s₁.note t.label a).Keyed := hstep
        split
        · exact hnote.endAmid others.tail t _
        · exact ih hnote others.tail _
      · exact keyed_insert hstep { t with rest := step :: rest, wait := some w }
      · exact Keyed.endAmid hstep others.tail t o

/-- Whatever happens, tasks stay with their processes. -/
theorem Keyed.play (h : s.Keyed) (e : ScenarioOp) : (s.play e).2.Keyed := by
  cases e with
  | spawn relation other label body => exact h.spawnFor relation other label body
  | poll p others =>
      rw [Scenario.play]
      split
      next => exact h
      next t ht =>
        split
        · rw [abandonTask_eq]
          exact keyed_erase h t.pid
        · refine Keyed.runAmid (fun q t' ht' => h q t' ?_) others t.rest t
          rw [openLog] at ht'
          split at ht' <;> exact ht'
  | _ => exact h

/-- In every scenario tasks are kept under the names of their processes. -/
theorem keyed_playAll (config : NodeConfig) (es : List ScenarioOp) :
    ((new config).playAll es).2.Keyed := by
  -- From any scenario in which they are, not just from a new one.
  have hall : ∀ (es : List ScenarioOp) (s : Scenario), s.Keyed → (s.playAll es).2.Keyed := by
    intro es
    induction es with
    | nil => exact fun s h => h
    | cons e rest ih => exact fun s h => ih (s.play e).2 (h.play e)
  exact hall es (new config) fun p t ht => absurd ht (by simp [new])

/-- The body of a process that ended is not run. All that happens is that its receiver, if it
    was waiting, gives up, and that the task lets go of the process. -/
theorem play_poll_of_hasEnded (h : s.Keyed) (hp : s.hasEnded p = true)
    (others : List (List NodeOp)) :
    ∃ ops : List NodeOp,
      (ops = [] ∨ ops = [.letGo p] ∨ ∃ id, ops = [.receive p (.leave id), .letGo p]) ∧
      s.play (.poll p others) = (ops, { s.act ops with tasks := s.tasks.erase p }) := by
  rcases ht : s.tasks.get? p with _ | t
  · refine ⟨[], Or.inl rfl, ?_⟩
    rw [Dict.erase_of_get?_none ht]
    simp only [play, ht]
    rfl
  · -- The task is there and knows the process by the name under which it is kept.
    have hkey := h p t ht
    refine ⟨leaveOps t, ?_, ?_⟩
    · rw [leaveOps, hkey]
      split
      · exact Or.inr (Or.inr ⟨_, rfl⟩)
      · exact Or.inr (Or.inl rfl)
    · simp only [play, ht, hp, if_true, abandonTask_eq, hkey]

/-! ## The scheduler -/

/-- Waking tasks changes only what is ready to run. It is one change, although the tasks are gone
    through one by one. -/
theorem exists_wake (s : Scenario) : ∃ ready, s.wake = { s with ready } := by
  -- For any tasks, as the list gets shorter while the scenario stays a variable.
  have hfold : ∀ (ts : List Task) (s : Scenario), ∃ ready,
      ts.foldl (fun s t => if s.canResume t then s.makeReady (.body t.pid) else s) s =
        { s with ready } := by
    intro ts
    induction ts with
    | nil => exact fun s => ⟨s.ready, rfl⟩
    | cons t rest ih =>
        intro s
        have hone : ∃ ready, (if s.canResume t then s.makeReady (.body t.pid) else s) =
            { s with ready } := by
          rw [makeReady]
          split
          · split
            · exact ⟨s.ready, rfl⟩
            · exact ⟨_, rfl⟩
          · exact ⟨s.ready, rfl⟩
        rcases hone with ⟨ready, hone⟩
        rcases ih { s with ready } with ⟨ready', hrest⟩
        exact ⟨ready', by rw [List.foldl_cons, hone, hrest]⟩
  rcases hfold s.tasks.values s with ⟨ready, hall⟩
  rcases exists_wakeDrain { s with ready } with ⟨ready', hdrain⟩
  exact ⟨ready', by rw [wake, hall, hdrain]⟩

/-- Calls of the node can be made one after the other. -/
theorem playAll_calls (s : Scenario) (ops : List NodeOp) :
    (s.playAll (ops.map .call)).2 = s.act ops := by
  induction ops generalizing s with
  | nil => rfl
  | cons op rest ih => exact ih (s.act [op])

/-- A turn of the scheduler is made of operations of the node. -/
theorem exists_run_turn (n : Node) : ∃ ops, n.turn = n.run ops := by
  -- A batch is a number of signals in hand, handled one by one.
  have hbatch : ∀ (k : Nat) (n : Node), Node.handleBatch k n =
      n.run (List.replicate k .handleInHand) := by
    intro k
    induction k with
    | zero => exact fun n => rfl
    | succ k ih => exact fun n => ih n.handleInHand
  rw [Node.turn]
  split
  · exact ⟨[], rfl⟩
  · exact ⟨.beginTurn :: List.replicate _ .handleInHand, hbatch _ _⟩

/-- Whatever has been ready longest is something that can happen. -/
theorem exists_playAll_advanceOne (s : Scenario) : ∃ es, s.advanceOne = (s.playAll es).2 := by
  rw [advanceOne]
  split
  next => exact ⟨[], rfl⟩
  next rest hready =>
    -- The task that drains: a turn, before which it leaves the list and after which whoever can go
    -- on is ready.
    rcases exists_run_turn s.node with ⟨ops, hturn⟩
    rcases exists_wake { s with node := s.node.turn, ready := rest } with ⟨ready, hwake⟩
    refine ⟨.arrange rest :: (ops.map .call ++ [.arrange ready]), ?_⟩
    rw [hwake]
    change _ = ((playAll { s with ready := rest } _)).2
    rw [playAll_append, playAll_calls, hturn]
    rfl
  next p rest hready =>
    -- A body: it runs undisturbed.
    rcases exists_wake (runTask { s with ready := rest } p) with ⟨ready, hwake⟩
    refine ⟨[.arrange rest, .poll p [], .arrange ready], ?_⟩
    rw [hwake, ← play_poll]
    rfl

/-- What the scheduler does until everybody waits is something that can happen. -/
theorem exists_playAll_settle (s : Scenario) : ∃ es, s.settle = (s.playAll es).2 := by
  -- For any number of steps, of which the bound is one.
  have hmany : ∀ (k : Nat) (s : Scenario), ∃ es, advanceMany k s = (s.playAll es).2 := by
    intro k
    induction k with
    | zero => exact fun s => ⟨[], rfl⟩
    | succ k ih =>
        intro s
        rw [advanceMany]
        split
        · exact ⟨[], rfl⟩
        · rcases exists_playAll_advanceOne s with ⟨es, hone⟩
          rcases ih s.advanceOne with ⟨fs, hrest⟩
          exact ⟨es ++ fs, by rw [hrest, hone, playAll_append]⟩
  rcases exists_wake s with ⟨ready, hwake⟩
  rcases hmany s.wake.workBound s.wake with ⟨es, hrun⟩
  refine ⟨.arrange ready :: es, ?_⟩
  change advanceMany s.wake.workBound s.wake = (playAll { s with ready } es).2
  rw [← hwake, hrun]

end Scenario

end Actors
