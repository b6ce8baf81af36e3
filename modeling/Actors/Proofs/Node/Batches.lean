import Actors.Proofs.Node.OneByOne

/-!
# Batches Make No Difference

A draining task takes signals from the queue in batches and handles each batch
signal by signal, while new signals come in behind. Nothing of this shows. A node
that is left alone goes through the same states as if the signals were handled one
by one from the head of the queue, whatever the size of a batch is.

The reason is that a signal does not look at the queue when it is handled. It
changes its target, queues replies, and its target is let go if no other signal
waits for it; where in the queue that signal would wait does not matter. So nodes
that are `Alike`, which hold the same signals in the same order but perhaps in
other batches, stay alike when the next signal is handled. To take a batch is then
to do nothing.

When the task has ended the queue holds nothing, and even what it remembers of its
task is what a new queue remembers. So the whole node is the same then.

## Main definitions

* `Node.Alike`: Two nodes that differ in their batches only.
* `Node.withBatch`: A node whose turns take another number of signals.

## Theorems

* `handle_withQueue`: A signal does not look at the queue.
* `Alike.handleInHand`: Handling the next signal of a batch.
* `alike_run`: A task that drains the queue handles signals one by one.
* `exists_orderly_drain`: A task drains the queue and ends.
* `batches_refine_fifo`: Batches make no difference.
-/

namespace Actors

namespace Node

/-- Two nodes with the same signals in the same order, perhaps in other batches,
    that agree in all else. -/
def Alike (n m : Node) : Prop := m.queue.signals = n.queue.signals ∧ m = n.withQueue m.queue

/-- A node whose turns take another number of signals, at least one. -/
def withBatch (n : Node) (batch : Nat) : Node :=
  n.withQueue { n.queue with batch := max batch 1 }

variable {n m : Node} {q q' : Dispatcher} {d : Delivery}

/-- Two queues with the same signals make nodes that are alike. -/
theorem alike_withQueue (n : Node) (h : q'.signals = q.signals) :
    Alike (n.withQueue q) (n.withQueue q') := ⟨h, rfl⟩

/-- The batches do not say which of the two came first. -/
theorem Alike.symm (h : Alike n m) : Alike m n := by
  refine ⟨h.1.symm, ?_⟩
  rw [h.2]
  rfl

/-- Whatever is alike to the same is alike. -/
theorem Alike.trans {m' : Node} (h : Alike n m) (h' : Alike m m') : Alike n m' :=
  ⟨h'.1.trans h.1, h'.2.trans (congrArg (·.withQueue m'.queue) h.2)⟩

/-- Nodes that are alike agree in all processes. -/
theorem Alike.process? (h : Alike n m) (p : Pid) : m.process? p = n.process? p :=
  congrArg (·.process? p) h.2

/-! ## A signal does not look at the queue -/

/-- A signal is handled the same way whatever is queued. Its replies are queued behind that. -/
theorem handle_withQueue (n : Node) (q : Dispatcher) (d : Delivery) :
    (n.withQueue q).handle d = (n.handle d).withQueue ((n.replies d).foldl .enqueue q) := by
  rcases hc : n.process? d.target with _ | c
  · rw [handle_of_none hc, handle_of_none (n := n.withQueue q) hc, replies, hc]
    rfl
  · rw [handle_eq hc, handle_eq (n := n.withQueue q) hc, replies, hc]
    dsimp only
    rcases c.react d.sender d.signal with c' | ⟨c', reason⟩ | s <;> rfl

/-- Whether somebody is the target of a queued signal does not depend on the batches. -/
theorem targets_congr (h : q'.signals = q.signals) (p : Pid) : q'.targets p = q.targets p := by
  rw [Bool.eq_iff_iff, targets_iff, targets_iff, h]

/-- Whether a process is let go depends on whether something waits for it, and not on where. -/
theorem reclaim_withQueue {p : Pid} (h : q.targets p = n.queue.targets p) :
    (n.withQueue q).reclaim p = (n.reclaim p).withQueue q := by
  rcases hc : n.process? p with _ | c
  · have hc' : (n.withQueue q).process? p = none := hc
    simp only [reclaim, hc, hc']
  · have hc' : (n.withQueue q).process? p = some c := hc
    simp only [reclaim, hc, hc']
    -- The decision depends on the targets of what is queued, which are the same.
    rw [show (n.withQueue q).queue = q from rfl, h]
    split
    · split <;> rfl
    · rfl

/-- Nodes that are alike handle a signal alike. -/
theorem Alike.handle (h : Alike n m) (d : Delivery) : Alike (n.handle d) (m.handle d) := by
  have hm := handle_withQueue n m.queue d
  rw [← h.2] at hm
  have hqueue : (m.handle d).queue = (n.replies d).foldl .enqueue m.queue := by rw [hm]; rfl
  refine ⟨?_, by rw [hqueue]; exact hm⟩
  -- Both handle the signal with the same replies.
  rw [hqueue, queue_handle]
  change (m.queueAll (n.replies d)).queue.signals = _
  rw [signals_queueAll, signals_queueAll, h.1]

/-- They let the same processes go. -/
theorem Alike.reclaim (h : Alike n m) (p : Pid) : Alike (n.reclaim p) (m.reclaim p) := by
  have hm := reclaim_withQueue (targets_congr h.1 p)
  rw [← h.2] at hm
  have hqueue : (m.reclaim p).queue = m.queue := queue_reclaim m p
  refine ⟨?_, by rw [hqueue]; exact hm⟩
  rw [hqueue, queue_reclaim, h.1]

/-! ## One signal -/

/-- A signal in hand is taken out of the queue, handled, and its target let go if nobody holds
    it. -/
theorem handleInHand_of_next (hq : n.queue.next? = some (d, q)) :
    n.handleInHand = ((n.withQueue q).handle d).reclaim d.target := by
  rw [Node.handleInHand, hq]
  rfl

/-- If something is in hand there is a next signal. -/
theorem next?_of_inHand_ne_nil (h : n.queue.inHand ≠ []) : ∃ d q, n.queue.next? = some (d, q) := by
  rcases handleInHand_cases n with ⟨hnil, -⟩ | ⟨d, q, hq, -⟩
  · exact absurd hnil h
  · exact ⟨d, q, hq⟩

/-- Nodes that are alike have the same next signal, if both have one in hand. -/
theorem Alike.handleInHand (h : Alike n m) (hn : n.queue.inHand ≠ []) (hm : m.queue.inHand ≠ []) :
    Alike n.handleInHand m.handleInHand := by
  rcases next?_of_inHand_ne_nil hn with ⟨d, q, hq⟩
  rcases next?_of_inHand_ne_nil hm with ⟨e, q', hq'⟩
  have hs := h.1
  rw [Dispatcher.signals_of_next? hq, Dispatcher.signals_of_next? hq', List.cons.injEq] at hs
  rw [handleInHand_of_next hq, handleInHand_of_next hq', hs.1]
  -- Without the signal they are alike, and handling it keeps them so.
  refine Alike.reclaim (Alike.handle ?_ d) d.target
  rw [h.2]
  exact alike_withQueue n hs.2

/-- The start of a turn moves signals into the batch in hand, and they keep their order. -/
theorem alike_beginTurn (n : Node) : Alike n n.beginTurn := ⟨signals_beginTurn n, rfl⟩

/-- The signal that waits longest is the next one of the batch in hand. -/
theorem Alike.handleFirst (h : Alike n m) (hm : m.queue.inHand ≠ []) :
    Alike n.handleFirst m.handleInHand := by
  -- To handle the first one of all is to handle the first one of a batch that holds all of them.
  have hgather : Alike (n.withQueue n.queue.gather) m := by
    refine ⟨?_, h.2⟩
    rw [h.1]
    exact n.queue.signals_gather.symm
  refine hgather.handleInHand ?_ hm
  change n.queue.signals ≠ []
  rw [← h.1, Dispatcher.signals]
  exact List.append_ne_nil_of_left_ne_nil hm _

/-- Without signals there is none to handle. -/
theorem handleFirst_of_dry (h : n.queue.signals = []) : n.handleFirst = n := by
  rw [Node.handleFirst, Dispatcher.gather_of_nil h]
  rcases handleInHand_cases n with ⟨-, hi⟩ | ⟨d, q, -, hs, -⟩
  · exact hi
  · exact absurd (h.symm.trans hs) (by simp)

/-! ## A task drains the queue -/

/-- What a draining task did is what handling as many signals one by one does. -/
theorem alike_run (h : Alike n m) {ops : List NodeOp} (hops : ∀ op ∈ ops, op.isTurn = true) :
    Alike (handleEach (m.collect takes ops).length n) (m.run ops) := by
  -- Both nodes are general, since a batch that is taken moves only one of them.
  induction ops generalizing n m with
  | nil => exact h
  | cons op rest ih =>
      have hrest : ∀ op' ∈ rest, op'.isTurn = true :=
        fun op' hop' => hops op' (List.mem_cons_of_mem op hop')
      have hop := hops op List.mem_cons_self
      rw [collect, run_cons]
      cases op with
      | beginTurn => exact ih (h.trans (alike_beginTurn m)) hrest
      | handleInHand =>
          rw [takes]
          by_cases hm : m.queue.inHand = []
          · -- There is nothing in hand, so nothing happens.
            have hnone : m.queue.next? = none := by rw [Dispatcher.next?, hm]
            have hstep : m.step .handleInHand = m := by rw [step, Node.handleInHand, hnone]
            rw [hnone, hstep]
            exact ih h hrest
          · rcases next?_of_inHand_ne_nil hm with ⟨d, q, hq⟩
            rw [hq]
            change Alike (handleEach _ n.handleFirst) _
            exact ih (h.handleFirst hm) hrest
      | _ => exact absurd hop (by simp [NodeOp.isTurn])

/-- Nor are there any to handle one by one. -/
theorem handleEach_of_dry (h : n.queue.signals = []) (k : Nat) : handleEach k n = n := by
  induction k with
  | zero => rfl
  | succ k ih => rw [handleEach, handleFirst_of_dry h, ih]

/-- Handling one by one can be interrupted. -/
theorem handleEach_add (j k : Nat) (n : Node) :
    handleEach (j + k) n = handleEach k (handleEach j n) := by
  induction j generalizing n with
  | zero => rw [Nat.zero_add, handleEach]
  | succ j ih => rw [Nat.succ_add, handleEach, ih, handleEach]

/-- The size of a batch is no part of what the nodes agree in. -/
theorem alike_withBatch (n : Node) (batch : Nat) : Alike n (n.withBatch batch) := ⟨rfl, rfl⟩

/-- It has no influence on how many signals there may be to handle. -/
theorem drainBound_withBatch (n : Node) (batch : Nat) :
    (n.withBatch batch).drainBound = n.drainBound := rfl

/-- Once the queue is empty the node is as if the signals had been handled one by one. -/
theorem alike_of_dry {batch : Nat} {ops : List NodeOp} (hops : ∀ op ∈ ops, op.isTurn = true)
    (hdry : ((n.withBatch batch).run ops).queue.signals = []) :
    Alike (handleEach n.drainBound n) ((n.withBatch batch).run ops) := by
  have hrun := alike_run (alike_withBatch n batch) hops
  have hle : ((n.withBatch batch).collect takes ops).length ≤ n.drainBound := by
    have hcount := length_takes_le (n := n.withBatch batch) fun op hop => by
      have hturn := hops op hop
      cases op with
      | beginTurn | handleInHand => rfl
      | _ => exact absurd hturn (by simp [NodeOp.isTurn])
    rw [drainBound_withBatch] at hcount
    omega
  -- Handling on and on changes nothing any more.
  rw [← Nat.add_sub_of_le hle, handleEach_add, handleEach_of_dry (hrun.1.symm.trans hdry)]
  exact hrun

/-! ## A task ends -/

/-- Turns leave the size of a batch alone. -/
theorem batch_run {ops : List NodeOp} (hops : ∀ op ∈ ops, op.isTurn = true) :
    (n.run ops).queue.batch = n.queue.batch := by
  induction ops generalizing n with
  | nil => rfl
  | cons op rest ih =>
      rw [run_cons, ih fun op' hop' => hops op' (List.mem_cons_of_mem op hop')]
      have hop := hops op List.mem_cons_self
      cases op with
      | beginTurn => exact batch_beginTurn n
      | handleInHand => exact batch_handleInHand n
      | _ => exact absurd hop (by simp [NodeOp.isTurn])

/-- What a turn queues is queued by the handler, which the one task may always do. -/
theorem orderly_handleInHand (n : Node) : n.queue.Orderly (n.queueOps .handleInHand) :=
  ⟨trivial, Dispatcher.orderly_map_enqueue _ _⟩

/-- The one task begins a turn if it has no batch in hand. -/
theorem orderly_nextOps (h : n.queue.Manned) (hs : n.queue.signals ≠ []) :
    n.queue.Orderly (n.collect queueOps n.nextOps) := by
  rw [nextOps]
  split
  next hempty =>
    have hone := (h.of_waiting hs).2
    rw [collect, Dispatcher.orderly_append, ← queue_step, collect, collect, List.append_nil]
    exact ⟨⟨Or.inl ⟨List.isEmpty_iff.mp hempty, by omega⟩, trivial⟩, orderly_handleInHand _⟩
  next =>
    rw [collect, collect, List.append_nil]
    exact orderly_handleInHand n

/-- A task that finds the queue empty ends. -/
theorem orderly_end (h : n.queue.Manned) (hdry : n.queue.signals = []) :
    ∃ ops : List NodeOp, (∀ op ∈ ops, op.isTurn = true) ∧
      n.queue.Orderly (n.collect queueOps ops) ∧ (n.run ops).queue.tasks = 0 := by
  rcases h with ⟨-, hone⟩ | ⟨-, hzero, -⟩
  · -- The task is still there. It finds nothing to take in hand and gives up the flag.
    have hnil := List.append_eq_nil_iff.mp hdry
    refine ⟨[.beginTurn], fun op hop => ?_, ⟨Or.inl ⟨hnil.1, by omega⟩, trivial⟩, ?_⟩
    · rw [List.mem_singleton.mp hop]
      rfl
    · change n.queue.beginTurn.tasks = 0
      rw [Dispatcher.beginTurn, hnil.2, List.isEmpty_nil, if_pos rfl]
      change n.queue.tasks - 1 = 0
      omega
  · exact ⟨[], fun op hop => absurd hop List.not_mem_nil, trivial, hzero⟩

/-- The task goes on until the queue is empty, and then it ends. -/
theorem exists_orderly_drain {bound : Nat} (h : n.queue.Manned) (hb : 0 < n.queue.batch)
    (hbound : n.drainBound ≤ bound) :
    ∃ ops : List NodeOp, (∀ op ∈ ops, op.isTurn = true) ∧
      n.queue.Orderly (n.collect queueOps ops) ∧ (n.run ops).queue.tasks = 0 := by
  induction bound generalizing n with
  | zero =>
      refine orderly_end h (List.eq_nil_of_length_eq_zero ?_)
      rw [drainBound_eq, load] at hbound
      omega
  | succ bound ih =>
      by_cases hdry : n.queue.signals = []
      · exact orderly_end h hdry
      · have hlt := drainBound_handleNext hb hdry
        have horderly := orderly_nextOps h hdry
        have hmanned := h.run horderly
        rw [← queue_run, ← handleNext_eq_run] at hmanned
        rcases ih hmanned (by rwa [batch_handleNext]) (by omega) with ⟨ops, hops, hrest, hend⟩
        -- The signal that waits longest comes first, and then the rest of the way.
        refine ⟨n.nextOps ++ ops, fun op hop => ?_, ?_, ?_⟩
        · exact (List.mem_append.mp hop).elim isTurn_nextOps (hops op)
        · rw [collect_append, Dispatcher.orderly_append, ← queue_run, ← handleNext_eq_run]
          exact ⟨horderly, hrest⟩
        · rwa [run_append, ← handleNext_eq_run]

/-! ## The law -/

/-- All states on the way are ones in which the tables agree. -/
theorem coherent_of_states (h : n.Coherent) {ops : List NodeOp} (hm : m ∈ n.states ops) :
    m.Coherent := by
  rcases mem_states hm with ⟨before, after, -, rfl⟩
  exact coherent_run h before

/-- Signals are handled in the order in which they were queued, whatever the size of a
    batch. Of a queue that callers, processes and handlers use as they like, and of
    every run of a node, what was taken is the beginning of what was queued, each
    signal once; its target is there until it is handled; and as long as one waits there
    is one task, and its flag is set. A node that is left alone until its queue is empty
    is the one that results if the signals are handled one by one. When its task has
    ended, which it does, nothing tells the two apart but the size of a batch. -/
theorem batches_refine_fifo :
    (∀ (batch : Nat) (acts : List DispatcherOp),
      (Dispatcher.new batch).takenBy acts ++ ((Dispatcher.new batch).run acts).signals =
          queuedBy acts ∧
        ((Dispatcher.new batch).Orderly acts → ((Dispatcher.new batch).run acts).signals ≠ [] →
          ((Dispatcher.new batch).run acts).draining = true ∧
            ((Dispatcher.new batch).run acts).tasks = 1)) ∧
    (∀ (config : NodeConfig) (ops : List NodeOp),
      ((new config).run ops).queue =
          (Dispatcher.new config.dispatchBatch).run ((new config).collect queueOps ops) ∧
        (new config).collect takes ops ++ ((new config).run ops).queue.signals =
          (new config).collect posts ops ∧
        (∀ m ∈ (new config).states ops, ∀ d ∈ m.queue.signals, (m.process? d.target).isSome) ∧
        ((new config).queue.Orderly ((new config).collect queueOps ops) →
          ((new config).run ops).queue.Manned)) ∧
    ∀ (n : Node) (batch : Nat),
      (∀ ops : List NodeOp, (∀ op ∈ ops, op.isTurn = true) →
        (((n.withBatch batch).run ops).queue.signals = [] →
          Alike (handleEach n.drainBound n) ((n.withBatch batch).run ops)) ∧
        (n.queue.Manned →
          (n.withBatch batch).queue.Orderly ((n.withBatch batch).collect queueOps ops) →
          ((n.withBatch batch).run ops).queue.tasks = 0 →
          (n.withBatch batch).run ops = (handleEach n.drainBound n).withQueue (.new batch))) ∧
      (n.queue.Manned → ∃ ops : List NodeOp, (∀ op ∈ ops, op.isTurn = true) ∧
        (n.withBatch batch).queue.Orderly ((n.withBatch batch).collect queueOps ops) ∧
        ((n.withBatch batch).run ops).queue.tasks = 0) := by
  refine ⟨fun batch acts => ⟨?_, fun horderly hw => ?_⟩,
    fun config ops => ⟨queue_run _ ops, ?_, ?_, fun horderly => ?_⟩, fun n batch =>
      ⟨fun ops hops => ⟨alike_of_dry hops, fun hmanned horderly htasks => ?_⟩,
        fun hmanned => ?_⟩⟩
  · exact (Dispatcher.new batch).takenBy_append_signals acts
  · exact ((Dispatcher.manned_new batch).run horderly).of_waiting hw
  · exact takes_append_signals (new config) ops
  · exact fun m hm => (coherent_of_states (coherent_new config) hm).targets
  · rw [queue_run]
    exact (Dispatcher.manned_new config.dispatchBatch).run horderly
  · -- When the last task has ended, queue and batch are those of a new dispatcher, so nothing but
    -- its size is left to tell the nodes apart.
    have hend : ((n.withBatch batch).run ops).queue.Manned := by
      have hstart : (n.withBatch batch).queue.Manned := hmanned
      rw [queue_run]
      exact hstart.run horderly
    have hnew := hend.eq_new htasks (batch_run hops)
    have halike := alike_of_dry hops (by rw [hnew]; rfl)
    rw [halike.2, hnew]
  · exact exists_orderly_drain (n := n.withBatch batch) hmanned (Nat.le_max_right batch 1)
      (Nat.le_refl _)

/-- A process is made in a link, and the signal about it is handled, in turns of one
    signal or of seven. -/
theorem batches_of_pair :
    let n := (new .standard).run [.spawn, .spawnLink (.ofSlot 1 0 0)]
    let ops : List NodeOp := [.beginTurn, .handleInHand, .beginTurn]
    n.queue.signals ≠ [] ∧
      (n.withBatch 0).run ops = (handleEach n.drainBound n).withQueue (.new 0) ∧
      (n.withBatch 7).run ops = (handleEach n.drainBound n).withQueue (.new 7) := by
  intro n ops
  have hturns : ∀ op ∈ ops, op.isTurn = true := by decide
  have hmanned : n.queue.Manned := by decide
  exact ⟨by decide,
    ((batches_refine_fifo.2.2 n 0).1 ops hturns).2 hmanned (by decide) (by decide),
    ((batches_refine_fifo.2.2 n 7).1 ops hturns).2 hmanned (by decide) (by decide)⟩

end Node

end Actors
