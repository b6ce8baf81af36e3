import Actors.Dispatcher

/-!
# First In, First Out

The queue of signals over a whole run. Anybody may queue a signal at any
moment: a caller, a process, or the handler of another signal while it runs. A
draining task takes a batch, and then one signal after the other out of that
batch. So signals leave the queue by way of two lists, and the flag that says
whether a task is running is set where signals are queued and taken back where a
task ends.

Neither of the two is felt outside. What was taken is the beginning of what was
queued, for every size of a batch. And whoever finds the flag set can rely on
the one task there is.

That there is never a second task has to be shown, and must not be put into the
model. A turn may therefore begin whenever some task has nothing in hand. If a
batch is in hand it belongs to some task, so a turn can only begin then if there
is another one.

## Main definitions

* `DispatcherOp`: Something that happens to the queue.
* `Dispatcher.step`, `Dispatcher.run`: One thing happens, or some.
* `Dispatcher.takenBy`, `queuedBy`: The signals that are taken and queued.
* `Dispatcher.Orderly`: Turns begin only where a task can begin one.
* `Dispatcher.Manned`: There is one task if a signal waits.

## Theorems

* `takenBy_append_signals`: What was taken and what waits is what was queued.
* `Manned.run`: A queue stays manned.
-/

namespace Actors

/-- Something that happens to the queue. -/
inductive DispatcherOp where
  /-- A signal is queued. -/
  | enqueue (d : Delivery)
  /-- A draining task starts a turn. -/
  | beginTurn
  /-- A draining task takes the next signal of a batch, to handle it. -/
  | next
deriving DecidableEq, Repr

/-- The signal that an operation queues. -/
def DispatcherOp.queued : DispatcherOp → List Delivery
  | .enqueue d => [d]
  | _ => []

/-- The signals that some operations queue, in order. -/
def queuedBy (ops : List DispatcherOp) : List Delivery := ops.flatMap DispatcherOp.queued

namespace Dispatcher

/-- One thing happens. -/
def step (q : Dispatcher) : DispatcherOp → Dispatcher
  | .enqueue d => q.enqueue d
  | .beginTurn => q.beginTurn
  | .next =>
      match q.next? with
      | some (_, q') => q'
      | none => q

/-- Some things happen, one after the other. -/
def run (q : Dispatcher) (ops : List DispatcherOp) : Dispatcher := ops.foldl step q

/-- The signal that an operation takes from the queue. -/
def taken (q : Dispatcher) : DispatcherOp → List Delivery
  | .next =>
      match q.next? with
      | some (d, _) => [d]
      | none => []
  | _ => []

/-- The signals that some operations take from the queue, in order. -/
def takenBy (q : Dispatcher) : List DispatcherOp → List Delivery
  | [] => []
  | op :: rest => q.taken op ++ (q.step op).takenBy rest

@[simp] theorem run_cons (q : Dispatcher) (op : DispatcherOp) (ops : List DispatcherOp) :
    q.run (op :: ops) = (q.step op).run ops := rfl

theorem run_append (q : Dispatcher) (ops ops' : List DispatcherOp) :
    q.run (ops ++ ops') = (q.run ops).run ops' := List.foldl_append

theorem takenBy_append (q : Dispatcher) (ops ops' : List DispatcherOp) :
    q.takenBy (ops ++ ops') = q.takenBy ops ++ (q.run ops).takenBy ops' := by
  induction ops generalizing q with
  | nil => rfl
  | cons op rest ih => rw [List.cons_append, takenBy, takenBy, ih, List.append_assoc, run_cons]

/-! ## What leaves the queue -/

/-- What an operation takes leaves the queue in front, and what it queues comes
    in at the end. -/
theorem taken_append_signals (q : Dispatcher) (op : DispatcherOp) :
    q.taken op ++ (q.step op).signals = q.signals ++ op.queued := by
  cases op with
  | enqueue d => exact signals_enqueue q d
  | beginTurn =>
      rw [step, signals_beginTurn]
      exact (List.append_nil _).symm
  | next =>
      change _ = q.signals ++ []
      rw [taken, step, List.append_nil]
      rcases h : q.next? with _ | ⟨d, q'⟩
      · rfl
      · exact (signals_of_next? h).symm

/-- What was taken and what still waits is what waited at first and what was
    queued since, in this order. -/
theorem takenBy_append_signals (q : Dispatcher) (ops : List DispatcherOp) :
    q.takenBy ops ++ (q.run ops).signals = q.signals ++ queuedBy ops := by
  induction ops generalizing q with
  | nil => exact (List.append_nil _).symm
  | cons op rest ih =>
      -- What the first operation takes is split off in front, and the rest is the induction
      -- hypothesis.
      calc q.takenBy (op :: rest) ++ (q.run (op :: rest)).signals
          = q.taken op ++ ((q.step op).takenBy rest ++ ((q.step op).run rest).signals) :=
            List.append_assoc _ _ _
        _ = q.taken op ++ (q.step op).signals ++ queuedBy rest := by rw [ih, List.append_assoc]
        _ = q.signals ++ queuedBy (op :: rest) := by
            rw [taken_append_signals, List.append_assoc, queuedBy, queuedBy, List.flatMap_cons]

/-! ## Who drains the queue -/

/-- Whether an operation can happen. A turn is started by a task that has no
    batch in hand. -/
def Allows (q : Dispatcher) : DispatcherOp → Prop
  | .beginTurn => q.inHand = [] ∧ 0 < q.tasks ∨ 1 < q.tasks
  | _ => True

instance (q : Dispatcher) (op : DispatcherOp) : Decidable (q.Allows op) :=
  match op with
  | .beginTurn => inferInstanceAs (Decidable (q.inHand = [] ∧ 0 < q.tasks ∨ 1 < q.tasks))
  | .enqueue _ => inferInstanceAs (Decidable True)
  | .next => inferInstanceAs (Decidable True)

/-- Turns begin only where a task can begin one. -/
def Orderly (q : Dispatcher) : List DispatcherOp → Prop
  | [] => True
  | op :: rest => q.Allows op ∧ (q.step op).Orderly rest

instance decidableOrderly (q : Dispatcher) : (ops : List DispatcherOp) → Decidable (q.Orderly ops)
  | [] => inferInstanceAs (Decidable True)
  | op :: rest =>
      have := decidableOrderly (q.step op) rest
      inferInstanceAs (Decidable (q.Allows op ∧ (q.step op).Orderly rest))

/-- There is one task if the queue is being drained, and otherwise neither a task
    nor a signal that waits. -/
def Manned (q : Dispatcher) : Prop :=
  q.draining = true ∧ q.tasks = 1 ∨ q.draining = false ∧ q.tasks = 0 ∧ q.signals = []

instance (q : Dispatcher) : Decidable q.Manned :=
  inferInstanceAs (Decidable (q.draining = true ∧ q.tasks = 1 ∨
    q.draining = false ∧ q.tasks = 0 ∧ q.signals = []))

theorem manned_new (batch : Nat) : (new batch).Manned := Or.inr ⟨rfl, rfl, rfl⟩

theorem Manned.enqueue {q : Dispatcher} (h : q.Manned) (d : Delivery) : (q.enqueue d).Manned := by
  refine Or.inl ⟨rfl, ?_⟩
  change (if q.draining then q.tasks else q.tasks + 1) = 1
  -- A task is started only if none is at work.
  rcases h with ⟨hdraining, htasks⟩ | ⟨hdraining, htasks, -⟩
  · rw [if_pos hdraining, htasks]
  · rw [hdraining, htasks]
    rfl

/-- A task ends only when nothing is left to be done. -/
theorem Manned.beginTurn {q : Dispatcher} (h : q.Manned) (hturn : q.Allows .beginTurn) :
    q.beginTurn.Manned := by
  rcases h with ⟨hdraining, htasks⟩ | ⟨-, htasks, -⟩
  · rcases hturn with ⟨hhand, -⟩ | htwo
    · rw [Dispatcher.beginTurn]
      split
      next hempty =>
        refine Or.inr ⟨rfl, ?_, ?_⟩
        · change q.tasks - 1 = 0
          rw [htasks]
        · -- The only task has nothing in hand, and it found the queue empty.
          change q.inHand ++ q.pending = []
          rw [hhand, List.isEmpty_iff.mp hempty]
          rfl
      next => exact Or.inl ⟨hdraining, htasks⟩
    · omega
  · rcases hturn with ⟨-, hpos⟩ | htwo <;> omega

theorem Manned.next {q : Dispatcher} (h : q.Manned) : (q.step .next).Manned := by
  rw [step]
  rcases hn : q.next? with _ | ⟨d, q'⟩
  · exact h
  · have hs := signals_of_next? hn
    rw [next?] at hn
    split at hn
    next => exact absurd hn (by simp)
    next d' rest hhand =>
      rw [Option.some.injEq, Prod.mk.injEq] at hn
      rcases h with hone | ⟨-, -, hnil⟩
      · rw [← hn.2]
        exact Or.inl hone
      · -- Nothing waits, so nothing was taken.
        exact absurd (hs.symm.trans hnil) (by simp)

theorem Manned.step {q : Dispatcher} (h : q.Manned) {op : DispatcherOp} (hop : q.Allows op) :
    (q.step op).Manned := by
  cases op with
  | enqueue d => exact h.enqueue d
  | beginTurn => exact h.beginTurn hop
  | next => exact h.next

theorem Manned.run {q : Dispatcher} (h : q.Manned) {ops : List DispatcherOp}
    (hops : q.Orderly ops) : (q.run ops).Manned := by
  induction ops generalizing q with
  | nil => exact h
  | cons op rest ih => exact ih (h.step hops.1) hops.2

/-- No signal is stranded: as long as one waits there is one task to handle it. -/
theorem Manned.of_waiting {q : Dispatcher} (h : q.Manned) (hw : q.signals ≠ []) :
    q.draining = true ∧ q.tasks = 1 := by
  rcases h with hone | ⟨-, -, hnil⟩
  · exact hone
  · exact absurd hnil hw

/-- A queue without a task is as good as new. -/
theorem Manned.eq_new {q : Dispatcher} {batch : Nat} (h : q.Manned) (htasks : q.tasks = 0)
    (hbatch : q.batch = max batch 1) : q = new batch := by
  rcases h with ⟨-, hone⟩ | ⟨hdraining, -, hnil⟩
  · omega
  · -- Without a task nothing is queued, so every field is that of a new queue.
    rcases List.append_eq_nil_iff.mp hnil with ⟨hhand, hpending⟩
    rcases q with ⟨pending, inHand, size, draining, tasks⟩
    dsimp only at htasks hbatch hdraining hhand hpending
    subst htasks hbatch hdraining hhand hpending
    rfl

/-! ## Orderly runs -/

theorem orderly_append {q : Dispatcher} {ops ops' : List DispatcherOp} :
    q.Orderly (ops ++ ops') ↔ q.Orderly ops ∧ (q.run ops).Orderly ops' := by
  induction ops generalizing q with
  | nil => exact ⟨fun h => ⟨trivial, h⟩, fun h => h.2⟩
  | cons op rest ih => rw [List.cons_append, Orderly, Orderly, ih, run_cons, and_assoc]

/-- Signals may be queued at any time. -/
theorem orderly_map_enqueue (q : Dispatcher) (ds : List Delivery) :
    q.Orderly (ds.map .enqueue) := by
  induction ds generalizing q with
  | nil => trivial
  | cons d rest ih => exact ⟨trivial, ih (q.enqueue d)⟩

end Dispatcher

end Actors
