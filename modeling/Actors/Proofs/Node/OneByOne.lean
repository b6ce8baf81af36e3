import Actors.Proofs.Node.Drain
import Actors.Proofs.Node.Posting

/-!
# The Queue Runs Dry

What happens when a node is left alone and its signals are handled one by one,
the one that waits longest first. A signal that is handled may queue others: the
farewells of a process that it ends, or the answer of a dead one. So the number
of signals that wait says little about how long this goes on.

What comes down with every signal is `drainBound`: the signals that wait, one
more for each of them that may be answered, and the farewells that the living can
still send. A request to link or to watch that is handled adds at most one
farewell, which is what its answer was counted for. A process that ends sends its
farewells only once, and they ask for no answers.

Nothing is assumed about the node. The links and monitors may form cycles, they
may be one-sided, signals may wait for the dead and for nobody, and the tables
need not agree.

## Main definitions

* `Node.handleFirst`: The signal that waits longest is handled.
* `Node.handleEach`: The same, some times.

## Theorems

* `drainBound_handleFirst`: Each signal that is handled brings the bound down.
* `length_takes_le`: No way to dispatch handles more signals than the bound.
* `runs_dry`: The queue is empty after as many signals as the bound, or fewer.
-/

namespace Actors

namespace Dispatcher

/-- The queue with all that waits in one batch. -/
def gather (q : Dispatcher) : Dispatcher := { q with inHand := q.signals, pending := [] }

@[simp] theorem signals_gather (q : Dispatcher) : q.gather.signals = q.signals :=
  List.append_nil q.signals

theorem gather_of_nil {q : Dispatcher} (h : q.signals = []) : q.gather = q := by
  rcases List.append_eq_nil_iff.mp h with ⟨hhand, hpending⟩
  rw [gather, h]
  rcases q with ⟨pending, inHand, batch, draining, tasks⟩
  dsimp only at hhand hpending
  rw [hhand, hpending]

end Dispatcher

namespace Node

/-- The signal that waits longest is handled, in a batch or not. -/
def handleFirst (n : Node) : Node := (n.withQueue n.queue.gather).handleInHand

/-- The signals that wait longest are handled one by one, as many as given. -/
def handleEach : Nat → Node → Node
  | 0, n => n
  | k + 1, n => handleEach k n.handleFirst

variable {n : Node}

/-! ## One signal -/

theorem drainBound_withQueue {q : Dispatcher} (hs : q.signals = n.queue.signals) :
    (n.withQueue q).drainBound = n.drainBound := by
  rw [drainBound_eq, drainBound_eq, ← hs]
  rfl

theorem drainBound_handleFirst (h : n.queue.signals ≠ []) :
    n.handleFirst.drainBound < n.drainBound := by
  -- The bound counts what waits, wherever it waits.
  rw [← drainBound_withQueue n.queue.signals_gather]
  exact drainBound_handleInHand h

/-- The entries of a process are the same in every order. -/
theorem farewellCount_reorder (c : Process) (links : PidSet) (watchers : Dict Ref Pid) :
    farewellCount (c.reorder links watchers) = farewellCount c := by
  rcases c.reorder_cases links watchers with h | ⟨hl, hw, h⟩ <;> rw [h]
  rw [farewellCount, farewellCount, PidSet.size, PidSet.size, Dict.size, Dict.size,
    hl.length_eq, hw.length_eq]
  rfl

theorem update_of_none {p : Pid} (hc : n.process? p = none) (f : Process → Process) :
    n.update p f = n := by
  have hmem : p ∉ n.processes.entries.map Prod.fst := Dict.get?_eq_none_iff.mp hc
  simp only [update, Dict.modify, Dict.map_entries_of_not_mem hmem]

theorem drainBound_reorder (n : Node) (p : Pid) (links : PidSet) (watchers : Dict Ref Pid) :
    (n.update p (·.reorder links watchers)).drainBound = n.drainBound := by
  rcases hc : n.process? p with _ | c
  · rw [update_of_none hc]
  · have hsame : n.update p (·.reorder links watchers) =
        n.update p fun _ => c.reorder links watchers := update_congr hc rfl
    have hup := drainBound_update hc (c.reorder links watchers)
    rw [farewellCount_reorder] at hup
    rw [hsame]
    omega

/-- A signal that is handled is paid for by the bound. -/
theorem length_takes_step {op : NodeOp} (hop : op.isDispatch = true) :
    (n.takes op).length + (n.step op).drainBound ≤ n.drainBound := by
  cases op with
  | beginTurn =>
      rw [step, drainBound_beginTurn]
      exact Nat.le_of_eq (Nat.zero_add _)
  | reorder p links watchers =>
      rw [step, drainBound_reorder]
      exact Nat.le_of_eq (Nat.zero_add _)
  | handleInHand =>
      rw [takes, step]
      rcases handleInHand_cases n with ⟨hnil, hi⟩ | ⟨d, q, hq, -, -⟩
      · rw [hi, Dispatcher.next?, hnil]
        exact Nat.le_of_eq (Nat.zero_add _)
      · -- Something is handled, so the batch in hand was not empty and the bound goes down.
        have hhand : n.queue.inHand ≠ [] := by
          intro hnil
          rw [Dispatcher.next?, hnil] at hq
          exact absurd hq (by simp)
        have hlt := drainBound_handleInHand hhand
        rw [hq, List.length_singleton]
        omega
  | _ => exact absurd hop (by simp [NodeOp.isDispatch])

/-! ## All signals -/

theorem length_takes_le {ops : List NodeOp} (hops : ∀ op ∈ ops, op.isDispatch = true) :
    (n.collect takes ops).length + (n.run ops).drainBound ≤ n.drainBound := by
  induction ops generalizing n with
  | nil => exact Nat.le_of_eq (Nat.zero_add _)
  | cons op rest ih =>
      have hfirst := length_takes_step (n := n) (hops op List.mem_cons_self)
      have hrest := ih (n := n.step op) fun op' hop' => hops op' (List.mem_cons_of_mem op hop')
      -- What the rest takes is paid for by what the first operation left of the bound.
      rw [collect, List.length_append, run_cons]
      omega

/-- After some signals, at most as many as the bound, none waits any more. -/
theorem handleEach_dry {bound : Nat} (h : n.drainBound ≤ bound) :
    ∃ k, k ≤ bound ∧ (handleEach k n).queue.signals = [] ∧
      ∀ j, j < k → (handleEach j n).queue.signals ≠ [] := by
  induction bound generalizing n with
  | zero =>
      rw [drainBound_eq, load] at h
      have hlength : n.queue.signals.length = 0 := by omega
      exact ⟨0, Nat.le_refl 0, List.eq_nil_of_length_eq_zero hlength,
        fun j hj => absurd hj (Nat.not_lt_zero j)⟩
  | succ bound ih =>
      by_cases hdry : n.queue.signals = []
      · exact ⟨0, Nat.zero_le _, hdry, fun j hj => absurd hj (Nat.not_lt_zero j)⟩
      · have hlt := drainBound_handleFirst hdry
        rcases ih (n := n.handleFirst) (by omega) with ⟨k, hk, hend, hbefore⟩
        refine ⟨k + 1, Nat.succ_le_succ hk, hend, fun j hj => ?_⟩
        -- The first signal is one that waits now, and the others are those of the rest.
        rcases j with _ | j
        · exact hdry
        · exact hbefore j (Nat.lt_of_succ_lt_succ hj)

/-- A node that is left alone falls silent, whatever its state. The signals that wait
    are handled one by one, and the queue is empty after at most as many as wait, as
    may be answered among them, and as the living have partners and watchers. Batches
    and the order of tables make no difference to the bound. -/
theorem runs_dry (n : Node) :
    (∃ k, k ≤ n.queue.signals.length + n.queue.signals.countP mayBeAnswered +
        n.processes.total farewellCount ∧
      (handleEach k n).queue.signals = [] ∧
      ∀ j, j < k → (handleEach j n).queue.signals ≠ []) ∧
    ∀ ops : List NodeOp, (∀ op ∈ ops, op.isDispatch = true) →
      (n.collect takes ops).length ≤ n.queue.signals.length +
        n.queue.signals.countP mayBeAnswered + n.processes.total farewellCount := by
  refine ⟨handleEach_dry (Nat.le_refl _), fun ops hops => ?_⟩
  -- What was taken and what is left of the bound make up the bound at most.
  have hle := length_takes_le (n := n) hops
  change (n.collect takes ops).length ≤ n.drainBound
  omega

end Node

end Actors
