import Actors.Proofs.Node.Run

/-!
# Requests That Are Refused

A node refuses what it cannot do: it makes no process when there is no room, enters
no name or route that is not fit, queues no signal that leads nowhere, and knows only
the settings that exist. This module shows that a refusal is all that comes of such a
request. Whatever was asked, in whatever state, the node is afterwards the node it was
before: its slots, names, routes, references, queue and processes.

For most requests the test comes before the change. Two are different. A process that
is made in a relation is made first and related then, so its relation must not be able
to fail; a partner that cannot be reached is answered for instead. And a name is
entered before the holder is looked at a second time, so giving it up again has to
restore the names exactly, their order included.

A history can therefore be told without what was refused: the requests that were
granted lead to the same node, and they are granted when they are made alone.

## Main definitions

* `Request`: What a node may refuse.
* `Node.ask`: The answer to a request, and the node after it.
* `Request.failures`: The failures a request can meet.
* `Node.granted`: The requests of a history that were not refused.
* `Node.RefusalLaw`: What can be relied on when a node refuses something.

## Theorems

* `ask_eq_run`: What a request does is a run.
* `refused_of_ask`: A request that is refused changes nothing.
* `granted_granted`, `askAll_granted`: Refused requests can be left out of a history.
* `refusalLaw`: Nothing comes of a request that is refused.
-/

namespace Actors

/-- What a node may refuse. -/
inductive Request where
  /-- A process without a body. -/
  | makeProcess
  /-- A process with a body. -/
  | spawn
  /-- A process that is linked from the start. -/
  | spawnLink (linked : Pid)
  /-- A process that is watched from the start. -/
  | spawnMonitor (watcher : Pid)
  /-- A name for a process. -/
  | register (p : Pid) (name : String)
  /-- A route to another node. -/
  | registerRouter (node : String) (cost : UInt32) (router : Pid) (options : RouterOptions)
  /-- A signal to a destination. -/
  | signal (sender : Pid) (s : Signal) (target : Dest)
  /-- A message to a destination. -/
  | send (sender : Pid) (target : Dest) (message : Term)
  /-- A process is to end. -/
  | exit (sender target : Pid) (reason : Term)
  /-- A setting, given by its name, is read or changed. -/
  | setting (p : Pid) (name : String) (value : Option Bool)

/-- What a node answers to a request that it grants. -/
inductive Reply where
  /-- The process that was made. -/
  | made (p : Pid)
  /-- The process that was made, and the reference of the monitor. -/
  | watched (p : Pid) (ref : Ref)
  /-- It was done. -/
  | done
  /-- The value of a setting. -/
  | value (b : Bool)

/-- The failures a request can meet. -/
def Request.failures : Request → List Failure
  | .makeProcess | .spawn | .spawnLink _ | .spawnMonitor _ => [.systemLimit]
  | .register .. | .registerRouter .. => [.badarg]
  | .signal .. | .send .. | .exit .. => [.noproc, .noconnection]
  | .setting _ name _ => [.badargWith (.atom name)]

/-- The operations that a request comes down to when it is granted. -/
def Request.ops : Request → List NodeOp
  | .makeProcess | .spawn => [.spawn]
  | .spawnLink linked => [.spawnLink linked]
  | .spawnMonitor watcher => [.spawnMonitor watcher]
  | .register p name => [.register p name]
  | .registerRouter node cost router options => [.registerRouter node cost router options]
  | .signal sender s target => [.signal sender s target]
  | .send sender target message => [.signal sender (.relay message) target]
  | .exit sender target reason => [.signal sender (.exit reason) (.pid target)]
  | .setting p name value =>
      match ProcessFlag.ofName? name with
      | none => []
      | some f => (value.map (NodeOp.setFlag p f)).toList

namespace Node

/-- An outcome with its result as a reply. -/
def reply {α : Type} (outcome : Except Failure α × Node) (f : α → Reply) :
    Except Failure Reply × Node := (outcome.1.map f, outcome.2)

/-- The answer to a request, and the node after it. -/
def ask (n : Node) : Request → Except Failure Reply × Node
  | .makeProcess => reply n.makeProcess .made
  | .spawn => reply n.spawn .made
  | .spawnLink linked => reply (n.spawnLink linked) .made
  | .spawnMonitor watcher => reply (n.spawnMonitor watcher) fun (p, ref) => .watched p ref
  | .register p name => reply (n.register p name) fun _ => .done
  | .registerRouter node cost router options =>
      reply (n.registerRouter node cost router options) fun _ => .done
  | .signal sender s target => reply (n.signal sender s target) fun _ => .done
  | .send sender target message => reply (n.send sender target message) fun _ => .done
  | .exit sender target reason => reply (n.exit sender target reason) fun _ => .done
  | .setting p name value => reply (n.processFlagNamed p name value) .value

variable {n : Node} {e : Failure} {req : Request}

/-- What a request does to a node is a run. -/
theorem ask_eq_run (n : Node) (req : Request) : (n.ask req).2 = n.run req.ops := by
  cases req with
  | setting p name value =>
      simp only [ask, reply, processFlagNamed, Request.ops]
      rcases ProcessFlag.ofName? name with _ | f
      · rfl
      · -- Only a value that is given changes anything.
        rcases value with _ | b <;> rfl
  | _ => rfl

theorem Reachable.ask (h : n.Reachable) (req : Request) : (n.ask req).2.Reachable := by
  rcases h with ⟨config, ops, rfl⟩
  exact ⟨config, ops ++ req.ops, by rw [ask_eq_run, run_append]⟩

/-! ## One refusal -/

/-- Where a node either fails in one way and stays as it is or succeeds, a refusal is that
    failure. -/
theorem refused_of_cases {α : Type} {outcome : Except Failure α × Node} {f : α → Reply}
    {e' : Failure} (hcases : outcome = (.error e', n) ∨ ∃ a m, outcome = (.ok a, m))
    (h : (reply outcome f).1 = .error e) : (reply outcome f).2 = n ∧ e = e' := by
  rcases hcases with rfl | ⟨a, m, rfl⟩
  · rw [reply, Except.map, Except.error.injEq] at h
    exact ⟨rfl, h.symm⟩
  · exact absurd h (by simp [reply, Except.map])

theorem routerFor_error {node : String} (h : n.routerFor node = .error e) :
    e = .noconnection := by
  rw [routerFor] at h
  split at h
  next => exact ((Except.error.injEq _ _).mp h).symm
  next =>
    split at h
    next => exact absurd h (by simp)
    next => exact ((Except.error.injEq _ _).mp h).symm

theorem resolveName_error {name : String} (h : n.resolveName name = .error e) : e = .noproc := by
  rw [resolveName] at h
  split at h
  next => exact ((Except.error.injEq _ _).mp h).symm
  next =>
    split at h
    next => exact absurd h (by simp)
    next => exact ((Except.error.injEq _ _).mp h).symm

/-- A destination is of nobody, or on a node that cannot be reached. -/
theorem resolve_error {target : Dest} (h : n.resolve target = .error e) :
    e = .noproc ∨ e = .noconnection := by
  cases target with
  | pid p =>
      rw [resolve, resolvePid] at h
      split at h
      next =>
        split at h
        next => exact absurd h (by simp)
        next => exact Or.inl ((Except.error.injEq _ _).mp h).symm
      next =>
        split at h
        next => exact Or.inr ((Except.error.injEq _ _).mp h).symm
        next => exact Or.inr (routerFor_error h)
  | name name => exact Or.inl (resolveName_error h)
  | remote name node =>
      rw [resolve] at h
      split at h
      next => exact Or.inl (resolveName_error h)
      next => exact Or.inr (routerFor_error h)

theorem signal_refused {sender : Pid} {s : Signal} {target : Dest} {f : Unit → Reply}
    (h : (reply (n.signal sender s target) f).1 = .error e) :
    (reply (n.signal sender s target) f).2 = n ∧ e ∈ [Failure.noproc, .noconnection] := by
  rcases hs : n.signal sender s target with ⟨e' | ⟨⟩, n'⟩
  · -- Nothing is queued before the destination is known.
    rcases signal_error hs with ⟨hr, rfl⟩
    rw [hs, reply, Except.map, Except.error.injEq] at h
    rw [← h]
    rcases resolve_error hr with rfl | rfl <;> exact ⟨rfl, by simp⟩
  · rw [hs] at h
    exact absurd h (by simp [reply, Except.map])

/-- A request that is refused changes nothing, and the failure is one of its own. -/
theorem refused_of_ask (h : (n.ask req).1 = .error e) :
    (n.ask req).2 = n ∧ e ∈ req.failures := by
  cases req with
  | makeProcess | spawn =>
      have hcases := makeProcess_cases n
      exact (refused_of_cases (hcases.imp_right fun ⟨_, _, _, _, hm⟩ => ⟨_, _, hm⟩) h).imp_right
        List.mem_singleton.mpr
  | spawnLink linked =>
      -- A partner that cannot be reached is no reason to refuse.
      have hcases := spawnLink_cases n linked
      exact (refused_of_cases (hcases.imp_right fun ⟨_, _, _, hm⟩ => ⟨_, _, hm⟩) h).imp_right
        List.mem_singleton.mpr
  | spawnMonitor watcher =>
      have hcases := spawnMonitor_cases n watcher
      exact (refused_of_cases (hcases.imp_right fun ⟨_, _, _, hm⟩ => ⟨_, _, hm⟩) h).imp_right
        List.mem_singleton.mpr
  | register p name =>
      -- The name may have been entered, and was given up again then.
      have hcases := register_cases n p name
      exact (refused_of_cases (hcases.imp_right fun ⟨_, _, _, _, hm⟩ => ⟨_, _, hm⟩) h).imp_right
        List.mem_singleton.mpr
  | registerRouter node cost router options =>
      have hcases := registerRouter_cases n node cost router options
      exact (refused_of_cases (hcases.imp_right fun ⟨_, hm⟩ => ⟨_, _, hm⟩) h).imp_right
        List.mem_singleton.mpr
  | signal sender s target => exact signal_refused h
  | send sender target message => exact signal_refused h
  | exit sender target reason => exact signal_refused h
  | setting p name value =>
      have hcases : n.processFlagNamed p name value = (.error (.badargWith (.atom name)), n) ∨
          ∃ b m, n.processFlagNamed p name value = (.ok b, m) := by
        rw [processFlagNamed]
        rcases ProcessFlag.ofName? name with _ | f
        · exact Or.inl rfl
        · exact Or.inr ⟨_, _, rfl⟩
      exact (refused_of_cases hcases h).imp_right List.mem_singleton.mpr

/-! ## Histories -/

/-- Some requests are made, one after the other. -/
def askAll (n : Node) (reqs : List Request) : Node := reqs.foldl (fun m req => (m.ask req).2) n

/-- The requests of a history that are not refused. -/
def granted (n : Node) : List Request → List Request
  | [] => []
  | req :: rest =>
      match (n.ask req).1 with
      | .ok _ => req :: (n.ask req).2.granted rest
      | .error _ => (n.ask req).2.granted rest

/-- A history that begins with a refusal goes on as if it had not been asked. -/
theorem granted_cons_cases (n : Node) (req : Request) (rest : List Request) :
    n.granted (req :: rest) = n.granted rest ∧ n.askAll (req :: rest) = n.askAll rest ∨
    (∃ reply, (n.ask req).1 = .ok reply) ∧
      n.granted (req :: rest) = req :: (n.ask req).2.granted rest := by
  rcases hask : (n.ask req).1 with e | reply
  · -- What is refused leaves the node as it was, so the rest is asked of the same node.
    have hsame := (refused_of_ask hask).1
    refine Or.inl ⟨?_, ?_⟩
    · rw [granted, hask, hsame]
    · rw [askAll, List.foldl_cons, hsame, askAll]
  · refine Or.inr ⟨⟨reply, rfl⟩, ?_⟩
    rw [granted, hask]

/-- What was granted leads to the same node when it is asked alone. -/
theorem askAll_granted (n : Node) (reqs : List Request) :
    n.askAll (n.granted reqs) = n.askAll reqs := by
  induction reqs generalizing n with
  | nil => rfl
  | cons req rest ih =>
      rcases granted_cons_cases n req rest with ⟨hgranted, hall⟩ | ⟨-, hgranted⟩
      · rw [hgranted, hall, ih]
      · rw [hgranted]
        exact ih (n.ask req).2

/-- What was granted is granted when it is asked alone. -/
theorem granted_granted (n : Node) (reqs : List Request) :
    n.granted (n.granted reqs) = n.granted reqs := by
  induction reqs generalizing n with
  | nil => rfl
  | cons req rest ih =>
      rcases granted_cons_cases n req rest with ⟨hgranted, -⟩ | ⟨⟨reply, hok⟩, hgranted⟩
      · rw [hgranted, ih]
      · rw [hgranted, granted, hok]
        exact congrArg (req :: ·) (ih (n.ask req).2)

/-- What can be relied on when a node refuses something. -/
structure RefusalLaw (n : Node) : Prop where
  /-- A request that is refused changes nothing, and the failure is one of its own. -/
  unchanged : ∀ req e, (n.ask req).1 = .error e → (n.ask req).2 = n ∧ e ∈ req.failures
  /-- A history leads where its granted requests lead, and all of these are granted again. -/
  retold : ∀ reqs, n.askAll (n.granted reqs) = n.askAll reqs ∧
    n.granted (n.granted reqs) = n.granted reqs

/-- Whatever state a node is in, nothing comes of a request that it refuses. -/
theorem refusalLaw (n : Node) : n.RefusalLaw :=
  ⟨fun _ _ => refused_of_ask, fun reqs => ⟨askAll_granted n reqs, granted_granted n reqs⟩⟩

/-- A full node, which has no room for a process that is to be watched. -/
theorem refusalLaw_full :
    let n := (new ⟨"node@host", 1, some 1, 8⟩).run [.spawn]
    n.Reachable ∧ (n.ask (.spawnMonitor (.ofSlot 1 0 1))).1 = .error .systemLimit ∧
      (n.ask (.spawnMonitor (.ofSlot 1 0 1))).2 = n :=
  ⟨⟨_, _, rfl⟩, rfl, ((refusalLaw _).unchanged _ _ rfl).1⟩

end Node

end Actors
