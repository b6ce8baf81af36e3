import Actors.Proofs.Dispatcher
import Actors.Proofs.Node.Run

/-!
# Every Operation and the Queue

What an operation of a node does to the queue of signals: it may take a batch,
or the next signal of one, and it may queue some signals, all of them after what
was queued before. Which ones these are is said here once for each operation,
`posts`. A law about what is queued and handled is then one about this list.

The queue cannot tell the handler of a signal from anybody else. To it, a run of
the node is a run of a `Dispatcher`, so what is known of that, that signals are
handled in the order in which they were queued, is known of nodes.

## Main definitions

* `Node.replies`: What is queued when a signal is handled.
* `Node.posts`, `Node.takes`: The signals that an operation queues and takes.
* `Node.queueOps`: What an operation does to the queue.

## Theorems

* `replies_cases`: What is queued when a signal is handled.
* `handle_eq`, `queue_handle`: A signal is handled and queues the replies to it.
* `queue_step`, `queue_run`: A run of a node is a run of its queue.
* `takes_append_signals`: What was handled and what waits is what was queued.
-/

namespace Actors

/-- What an operation of a node takes out of the queue, as an operation of the queue. -/
def NodeOp.draws : NodeOp → List DispatcherOp
  | .beginTurn => [.beginTurn]
  | .handleInHand => [.next]
  | _ => []

namespace Node

/-! ## What is queued -/

/-- What is queued when a signal is handled: the farewells of a process that it
    ends, or the answer of a dead one. -/
def replies (n : Node) (d : Delivery) : List Delivery :=
  match n.process? d.target with
  | none => []
  | some c =>
      match c.react d.sender d.signal with
      | .become _ => []
      | .die c' reason => n.farewellsOf d.target c' (Reason.recorded reason)
      | .answer s => n.deliveries d.target s (.pid d.sender)

/-- The signals that an operation queues, in order. -/
def posts (n : Node) : NodeOp → List Delivery
  | .spawnLink linked =>
      match n.makeProcess with
      | (.ok p, n') => n'.birthDeliveries p linked
      | (.error _, _) => []
  | .signal sender s target => n.deliveries sender s target
  | .link a b => n.linkDeliveries a b
  | .unlink a b => n.deliveries a .unlink (.pid b) ++ n.deliveries b .unlink (.pid a)
  | .monitor watcher watchee => n.monitorDeliveries watcher watchee n.nextRef
  | .demonitor watcher ref =>
      match (n.lookup watcher).bind (·.monitors.get? ref) with
      | some watchee => n.deliveries watcher (.demonitor ref) (.pid watchee)
      | none => []
  | .die p reason =>
      match (n.process? p).filter Process.isAlive with
      | some c => n.farewellsOf p c (Reason.recorded reason)
      | none => []
  | .handleInHand =>
      match n.queue.next? with
      | some (d, _) => n.replies d
      | none => []
  | _ => []

/-- The signal that an operation takes from the queue, to handle it. -/
def takes (n : Node) : NodeOp → List Delivery
  | .handleInHand =>
      match n.queue.next? with
      | some (d, _) => [d]
      | none => []
  | _ => []

/-- What an operation does to the queue. -/
def queueOps (n : Node) (op : NodeOp) : List DispatcherOp :=
  op.draws ++ (n.posts op).map .enqueue

variable {n : Node} {d : Delivery}

/-! ## A signal is handled -/

/-- What happens when a signal is handled is decided by its target alone. -/
theorem handle_eq {c : Process} (hc : n.process? d.target = some c) :
    n.handle d =
      match c.react d.sender d.signal with
      | .become c' => n.update d.target fun _ => c'
      | .die c' reason => n.fall d.target c' (Reason.recorded reason)
      | .answer s => n.queueAll (n.deliveries d.target s (.pid d.sender)) := by
  rw [handle, hc]
  dsimp only
  rcases hr : c.react d.sender d.signal with c' | ⟨c', reason⟩ | s
  · rfl
  · have hself := process?_update_self hc fun _ => c'
    -- Only the living end, and it is still there to be ended.
    have ha : c'.isAlive = true := by
      rcases Process.react_die hr with ⟨ha, -, rfl, -⟩
      exact ha
    dsimp only
    rcases die_cases (n.update d.target fun _ => c') d.target reason with ⟨-, hdead⟩ |
      ⟨c₁, hc₁, -, hd⟩
    · exact absurd (ha.symm.trans (hdead c' hself)) (by simp)
    · rw [hself, Option.some.injEq] at hc₁
      rw [hd, ← hc₁, fall, fall, update_update, farewellsOf, farewellsOf]
      simp only [deliveries_update]
  · exact post_eq n d.target s d.sender

/-- The dead answer, those who go on say nothing, and those who fall say farewell. -/
theorem replies_cases {c : Process} (hc : n.process? d.target = some c) :
    (c.isAlive = false ∧ n.handle d = n.queueAll (n.answers d) ∧ n.replies d = n.answers d) ∨
    (c.isAlive = true ∧ (∃ c', c.reactAlive d.sender d.signal = .become c' ∧
      n.handle d = n.update d.target fun _ => c') ∧ n.replies d = []) ∨
    (c.isAlive = true ∧ ∃ reason, d.signal = .exit reason ∧ c.traps reason = false ∧
      n.handle d = n.fall d.target { c with links := c.links.erase d.sender }
        (Reason.recorded reason) ∧
      n.replies d = n.farewellsOf d.target { c with links := c.links.erase d.sender }
        (Reason.recorded reason)) := by
  -- What is queued and what becomes of the target are two views of one reaction.
  have hhandle := handle_eq hc
  by_cases ha : c.isAlive = true
  · refine Or.inr ?_
    simp only [replies, hc, Process.react, ha, if_true] at hhandle ⊢
    rcases hr : c.reactAlive d.sender d.signal with c' | ⟨c', reason⟩ | answer
    · rw [hr] at hhandle
      exact Or.inl ⟨trivial, ⟨c', rfl, hhandle⟩, rfl⟩
    · rw [hr] at hhandle
      rcases Process.reactAlive_die hr with ⟨hs, rfl, ht⟩
      exact Or.inr ⟨trivial, reason, hs, ht, hhandle, rfl⟩
    · exact absurd hr (Process.reactAlive_ne_answer c d.sender d.signal answer)
  · refine Or.inl ⟨Bool.not_eq_true _ ▸ ha, ?_⟩
    rcases handle_cases hc with ⟨-, hh⟩ | ⟨ha', -⟩ | ⟨ha', -⟩
    · refine ⟨hh, ?_⟩
      simp only [replies, hc, Process.react, if_neg ha, Process.reactDead_eq, answers]
      rcases Process.answerTo d.signal with _ | answer <;> rfl
    · exact absurd ha' ha
    · exact absurd ha' ha

/-- Handling a signal queues the replies, and does nothing else to the queue. -/
theorem queue_handle (n : Node) (d : Delivery) :
    (n.handle d).queue = (n.queueAll (n.replies d)).queue := by
  rcases hc : n.process? d.target with _ | c
  · rw [handle_of_none hc, replies, hc]
    rfl
  · rw [handle_eq hc, replies, hc]
    dsimp only
    rcases c.react d.sender d.signal with c' | ⟨c', reason⟩ | s <;> rfl

theorem queue_reclaim (n : Node) (p : Pid) : (n.reclaim p).queue = n.queue := by
  rcases reclaim_cases n p with ⟨hr, -⟩ | ⟨c, -, -, -, ⟨-, hr⟩ | ⟨-, hr⟩⟩ <;> rw [hr] <;> rfl

/-! ## Operations -/

theorem run_map_enqueue (q : Dispatcher) (ds : List Delivery) :
    q.run (ds.map .enqueue) = ds.foldl .enqueue q := List.foldl_map

theorem queue_track (n : Node) (watcher : Pid) (ref : Ref) (watchee : Pid) :
    (n.track watcher ref watchee).queue = n.queue := by
  rcases track_cases n watcher ref watchee with h | h <;> rw [h]
  rfl

/-- To end a monitor queues what it posts, which is nothing if there is no such monitor. -/
theorem queue_demonitor (n : Node) (watcher : Pid) (ref : Ref) :
    (n.demonitor watcher ref).queue = (n.queueAll (n.posts (.demonitor watcher ref))).queue := by
  rw [demonitor, posts]
  rcases hl : n.lookup watcher with _ | c
  · rfl
  · dsimp only [Option.bind_some]
    rcases hw : c.monitors.get? ref with _ | watchee
    · rfl
    · dsimp only
      rw [post_eq, deliveries_update]
      rfl

/-- A process that ends queues its farewells; one that is dead already queues nothing. -/
theorem queue_die (n : Node) (p : Pid) (reason : Term) :
    (n.die p reason).queue = (n.queueAll (n.posts (.die p reason))).queue := by
  rw [posts]
  rcases die_cases n p reason with ⟨hd, hdead⟩ | ⟨c, hc, ha, hd⟩ <;> rw [hd]
  · rcases hc : n.process? p with _ | c
    · rfl
    · rw [Option.filter_some, hdead c hc]
      rfl
  · rw [hc, Option.filter_some, ha, if_pos rfl]
    rfl

/-- A process that is made in a link queues what it tells its partner. -/
theorem queue_spawnLink (n : Node) (linked : Pid) :
    (n.spawnLink linked).2.queue = (n.queueAll (n.posts (.spawnLink linked))).queue := by
  rw [posts]
  rcases spawnLink_cases n linked with he | ⟨p, n₁, hm, he⟩ <;> rw [he]
  · rcases hm : n.makeProcess with ⟨e' | p, n₁⟩
    · rfl
    · -- A process that was made stays made.
      rw [spawnLink, hm] at he
      dsimp only at he
      split at he <;> exact absurd (congrArg Prod.fst he) (by simp)
  · rw [hm]
    rcases makeProcess_ok hm with ⟨id, serial, table, -, -, rfl⟩
    rfl

/-- An operation takes from the queue what it takes, and queues what it queues. -/
theorem queue_step (n : Node) (op : NodeOp) :
    (n.step op).queue = n.queue.run (n.queueOps op) := by
  rw [queueOps, Dispatcher.run_append, run_map_enqueue]
  have hclerical : op.isClerical = true → (n.step op).queue = n.queue := by
    intro h
    rcases clerical_step n h with ⟨names, routers, he⟩
    rw [he]
  -- Most operations queue something known and change tables otherwise. Those that
  -- search a table first were treated above.
  cases op with
  | makePid =>
      rw [step]
      rcases makePid_cases n with he | ⟨id, serial, table, -, he⟩ <;> rw [he] <;> rfl
  | spawn =>
      rw [step, spawn]
      rcases makeProcess_cases n with he | ⟨id, serial, table, -, he⟩ <;> rw [he] <;> rfl
  | spawnLink linked => exact queue_spawnLink n linked
  | spawnMonitor watcher =>
      rw [step]
      rcases spawnMonitor_cases n watcher with he | ⟨p, n₁, hm, he⟩ <;> rw [he]
      · rfl
      · rcases makeProcess_ok hm with ⟨id, serial, table, -, -, rfl⟩
        exact queue_track _ watcher n.nextRef p
  | signal sender s target =>
      rw [step, signal_snd]
      rfl
  | link a b =>
      rw [step, link_eq]
      rfl
  | unlink a b =>
      rw [step, unlink_eq]
      rfl
  | monitor watcher watchee =>
      rw [step, monitor_eq]
      change (n.monitorDeliveries watcher watchee n.nextRef).foldl .enqueue
        (n.countRef.track watcher n.nextRef watchee).queue = _
      rw [queue_track]
      rfl
  | demonitor watcher ref => exact queue_demonitor n watcher ref
  | register | unregister | registerRouter | unregisterRouter | nodeIndex | remotePid =>
      exact hclerical rfl
  | die p reason => exact queue_die n p reason
  | letGo p => exact queue_reclaim _ p
  | handleInHand =>
      change n.handleInHand.queue = (n.posts .handleInHand).foldl .enqueue (n.queue.step .next)
      rw [handleInHand, posts, Dispatcher.step]
      rcases hq : n.queue.next? with _ | ⟨d, q⟩
      · rfl
      · dsimp only
        rw [queue_reclaim]
        exact queue_handle (n.withQueue q) d
  | _ => rfl

/-- A run of a node is a run of its queue. -/
theorem queue_run (n : Node) (ops : List NodeOp) :
    (n.run ops).queue = n.queue.run (n.collect queueOps ops) := by
  induction ops generalizing n with
  | nil => rfl
  | cons op rest ih => rw [run_cons, ih, queue_step, collect, Dispatcher.run_append]

/-! ## What is handled -/

theorem takenBy_map_enqueue (q : Dispatcher) (ds : List Delivery) :
    q.takenBy (ds.map .enqueue) = [] := by
  induction ds generalizing q with
  | nil => rfl
  | cons d rest ih => exact ih (q.enqueue d)

/-- What an operation takes from the queue is what it takes. -/
theorem takenBy_queueOps (n : Node) (op : NodeOp) :
    n.queue.takenBy (n.queueOps op) = n.takes op := by
  rw [queueOps, Dispatcher.takenBy_append, takenBy_map_enqueue, List.append_nil]
  cases op with
  | handleInHand => exact List.append_nil _
  | _ => rfl

theorem queuedBy_map_enqueue (ds : List Delivery) : queuedBy (ds.map .enqueue) = ds := by
  rw [queuedBy, List.flatMap_map]
  exact List.flatMap_singleton' ds

/-- What it queues is what it posts. -/
theorem queuedBy_queueOps (n : Node) (op : NodeOp) : queuedBy (n.queueOps op) = n.posts op := by
  have happend : ∀ ops ops', queuedBy (ops ++ ops') = queuedBy ops ++ queuedBy ops' :=
    fun _ _ => List.flatMap_append
  rw [queueOps, happend, queuedBy_map_enqueue]
  cases op <;> rfl

/-- What an operation takes leaves the queue in front, and what it queues comes
    in at the end. -/
theorem takes_append_signals_step (n : Node) (op : NodeOp) :
    n.takes op ++ (n.step op).queue.signals = n.queue.signals ++ n.posts op := by
  have h := n.queue.takenBy_append_signals (n.queueOps op)
  rwa [takenBy_queueOps, ← queue_step, queuedBy_queueOps] at h

/-- What an operation takes waited longest, and what it queues waits behind the rest. -/
theorem signals_step (n : Node) (op : NodeOp) :
    ∃ kept, n.queue.signals = n.takes op ++ kept ∧
      (n.step op).queue.signals = kept ++ n.posts op := by
  have hkept : ∃ kept, n.queue.signals = n.takes op ++ kept := by
    -- Only the handler takes a signal, and it takes the first one.
    cases op with
    | handleInHand =>
        rw [takes]
        rcases hq : n.queue.next? with _ | ⟨d, q⟩
        · exact ⟨n.queue.signals, rfl⟩
        · exact ⟨q.signals, Dispatcher.signals_of_next? hq⟩
    | _ => exact ⟨n.queue.signals, rfl⟩
  rcases hkept with ⟨kept, hkept⟩
  have hstep := takes_append_signals_step n op
  rw [hkept, List.append_assoc] at hstep
  exact ⟨kept, hkept, List.append_cancel_left hstep⟩

/-- What was posted waits. -/
theorem mem_signals_of_posts {op : NodeOp} (hd : d ∈ n.posts op) :
    d ∈ (n.step op).queue.signals := by
  rcases signals_step n op with ⟨kept, -, hs⟩
  rw [hs]
  exact List.mem_append_right kept hd

theorem mem_signals_of_takes {op : NodeOp} (hd : d ∈ n.takes op) : d ∈ n.queue.signals := by
  rcases signals_step n op with ⟨kept, hkept, -⟩
  rw [hkept]
  exact List.mem_append_left kept hd

/-- What waits is taken, or waits on. -/
theorem mem_takes_or_signals (op : NodeOp) (hd : d ∈ n.queue.signals) :
    d ∈ n.takes op ∨ d ∈ (n.step op).queue.signals := by
  rcases signals_step n op with ⟨kept, hkept, hs⟩
  rw [hkept] at hd
  rw [hs]
  exact (List.mem_append.mp hd).imp_right (List.mem_append_left _)

/-- What was taken and what still waits is what waited at first and what was
    queued since, in this order. -/
theorem takes_append_signals (n : Node) (ops : List NodeOp) :
    n.collect takes ops ++ (n.run ops).queue.signals = n.queue.signals ++ n.collect posts ops := by
  induction ops generalizing n with
  | nil => exact (List.append_nil _).symm
  | cons op rest ih =>
      -- The rest begins with what the first operation left behind.
      rw [collect, collect, run_cons, List.append_assoc, ih, ← List.append_assoc,
        takes_append_signals_step, List.append_assoc]

end Node

end Actors
