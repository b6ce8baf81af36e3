import Actors.Signal

/-!
# The Signal Queue

Signals inside a node wait in one queue and are handled in the order in which
they were queued. They are not handled where they are sent: a task of its own
drains the queue. The task is started when a signal is queued and none is
running. In each of its turns it takes a batch from the head of the queue,
handles it signal by signal, and lets others run; a turn that finds the queue
empty is its last.

A queued signal holds on to the process it was addressed to when it was
queued.

## Main definitions

* `Delivery`: A signal that waits to be handled.
* `Dispatcher`: The queue and its task.
* `Dispatcher.signals`: The signals that wait, in the order of handling.
* `Dispatcher.enqueue`: A signal is queued.
* `Dispatcher.beginTurn`: The task starts a turn.
* `Dispatcher.next?`: The next signal of the batch.

## Theorems

* `signals_enqueue`: A queued signal is handled last.
* `signals_beginTurn`: Taking a batch does not change what waits.
* `signals_of_next?`: The next signal is the one that waits longest.
-/

namespace Actors

/-- A signal that waits to be handled. -/
structure Delivery where
  /-- The process that will handle it. -/
  target : Pid
  /-- The process it comes from. -/
  sender : Pid
  /-- The signal. -/
  signal : Signal
deriving DecidableEq, Inhabited, Repr

/-- The queue and its task. -/
structure Dispatcher where
  /-- The signals that no turn has taken yet. -/
  pending : List Delivery
  /-- The rest of the batch that is being handled. -/
  inHand : List Delivery
  /-- The most signals a turn takes. -/
  batch : Nat
  /-- Whether a task is known to be draining the queue. -/
  draining : Bool
  /-- How many draining tasks there are. -/
  tasks : Nat
deriving DecidableEq, Repr

namespace Dispatcher

/-- An empty queue. A turn takes at least one signal. -/
def new (batch : Nat) : Dispatcher := ⟨[], [], max batch 1, false, 0⟩

instance : Inhabited Dispatcher := ⟨new 1⟩

/-- The signals that wait, in the order of handling. -/
def signals (q : Dispatcher) : List Delivery := q.inHand ++ q.pending

/-- A signal is queued, and a task started if none is draining. -/
def enqueue (q : Dispatcher) (d : Delivery) : Dispatcher :=
  { q with
    pending := q.pending ++ [d]
    draining := true
    tasks := if q.draining then q.tasks else q.tasks + 1 }

/-- The task starts a turn. It takes a batch, or ends if nothing is queued. -/
def beginTurn (q : Dispatcher) : Dispatcher :=
  if q.pending.isEmpty then { q with draining := false, tasks := q.tasks - 1 }
  else
    { q with
      inHand := q.inHand ++ q.pending.take q.batch
      pending := q.pending.drop q.batch }

/-- The next signal of the batch, and the queue without it. -/
def next? (q : Dispatcher) : Option (Delivery × Dispatcher) :=
  match q.inHand with
  | [] => none
  | d :: rest => some (d, { q with inHand := rest })

/-- Whether a signal for a process waits. -/
def targets (q : Dispatcher) (p : Pid) : Bool :=
  q.inHand.any (fun d => d.target = p) || q.pending.any fun d => d.target = p

@[simp] theorem signals_enqueue (q : Dispatcher) (d : Delivery) :
    (q.enqueue d).signals = q.signals ++ [d] := by
  simp only [signals, enqueue, List.append_assoc]

@[simp] theorem signals_beginTurn (q : Dispatcher) : q.beginTurn.signals = q.signals := by
  rw [beginTurn]
  split
  · rfl
  · simp only [signals, List.append_assoc, List.take_append_drop]

theorem signals_of_next? {q q' : Dispatcher} {d : Delivery} (h : q.next? = some (d, q')) :
    q.signals = d :: q'.signals := by
  rw [next?] at h
  split at h
  next => exact absurd h (by simp)
  next d' rest hq =>
    rw [Option.some.injEq, Prod.mk.injEq] at h
    rw [← h.1, ← h.2, signals, hq]
    rfl

end Dispatcher

end Actors
