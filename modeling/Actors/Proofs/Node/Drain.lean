import Actors.Proofs.Node.Moves

/-!
# Draining Comes to an End

Why a node that is left alone falls silent. Handling a signal may queue others,
but not without end: a link or a monitor is answered at most once, and an
answer is never answered; everything else is queued by a process that dies, and
a process dies once. `drainBound` counts what is still to come, and every
signal that is handled brings it down by at least one.

## Main definitions

* `load`: How many signals may have to be handled for some queued ones.

## Theorems

* `drainBound_handle`: What handling a signal adds to what is still to come.
* `drainBound_handleNext`: A signal that is handled brings the bound down.
* `signals_drain`: After draining, no signal waits.
-/

namespace Actors

/-! ## Sizes -/

namespace PidSet

/-- Taking somebody out of a set makes it no larger. -/
theorem size_erase_le (s : PidSet) (p : Pid) : (s.erase p).size ≤ s.size :=
  List.length_filter_le _ _

/-- Putting somebody into a set makes it larger by one at most. -/
theorem size_insert_le (s : PidSet) (p : Pid) : (s.insert p).size ≤ s.size + 1 := by
  rw [size, insert]
  split
  · exact Nat.le_succ _
  · rw [List.length_append, List.length_singleton]
    exact Nat.le_refl _

end PidSet

namespace Dict

variable {κ : Type u} {ν : Type v} [DecidableEq κ]

/-- Taking a key out of a table makes it no larger. -/
theorem size_erase_le (d : Dict κ ν) (k : κ) : (d.erase k).size ≤ d.size :=
  List.length_filter_le _ _

/-- Entering a value makes a table larger by one at most. -/
theorem size_insert_le (d : Dict κ ν) (k : κ) (v : ν) : (d.insert k v).size ≤ d.size + 1 := by
  rw [size, insert]
  split
  · rw [List.length_append, List.length_singleton]
    exact Nat.le_refl _
  · rw [modify, List.length_map]
    exact Nat.le_succ _

end Dict

namespace Node

/-! ## What is still to come -/

/-- How many signals may have to be handled for some queued ones, the answers to
    them among them. -/
def load (ds : List Delivery) : Nat := ds.length + ds.countP mayBeAnswered

/-- What is queued in two parts is handled in two parts. -/
theorem load_append (ds es : List Delivery) : load (ds ++ es) = load ds + load es := by
  simp only [load, List.length_append, List.countP_append]
  omega

/-- The bound counts the signals with their answers, and for each living process the farewells that
    are to come. -/
theorem drainBound_eq (n : Node) :
    n.drainBound = load n.queue.signals + n.processes.total farewellCount := rfl

/-- A signal that is sent is queued at most once, and not answered unless it
    asks for an answer. -/
theorem load_deliveries (n : Node) (sender : Pid) {s : Signal} (target : Dest)
    (hs : s ≠ .link ∧ ∀ ref, s ≠ .monitor ref) : load (n.deliveries sender s target) ≤ 1 := by
  -- What is sent is queued as it is or as a message to pass on, and neither asks for an answer.
  have hcount : (n.deliveries sender s target).countP mayBeAnswered = 0 := by
    refine List.countP_eq_zero.mpr fun d hd => ?_
    rcases (mem_deliveries hd).2.2 with heq | ⟨m, heq⟩
    · rw [mayBeAnswered, heq]
      cases s with
      | link => exact absurd rfl hs.1
      | monitor ref => exact absurd rfl (hs.2 ref)
      | _ => simp
    · rw [mayBeAnswered, heq]
      simp
  have hlength : (n.deliveries sender s target).length ≤ 1 := by
    rw [deliveries]
    split <;> simp
  rw [load, hcount]
  exact hlength

/-- Sending to many queues at most as many. -/
theorem load_flatMap {α : Type} {l : List α} {f : α → List Delivery} (h : ∀ a ∈ l, load (f a) ≤ 1) :
    load (l.flatMap f) ≤ l.length := by
  induction l with
  | nil => exact Nat.le_refl 0
  | cons a rest ih =>
      have hhead := h a List.mem_cons_self
      have hrest := ih fun b hb => h b (List.mem_cons_of_mem a hb)
      rw [List.flatMap_cons, load_append, List.length_cons]
      omega

/-- A farewell asks for no answer, so the farewells of a process load the queue with one signal for
    each partner and watcher. -/
theorem load_farewellsOf (n : Node) (p : Pid) (c : Process) (reason : Term) :
    load (n.farewellsOf p c reason) ≤ c.links.size + c.monitoredBy.size := by
  have hlength : (c.farewells reason).length = c.links.size + c.monitoredBy.size := by
    rw [Process.farewells, List.length_append, List.length_map, List.length_map]
    rfl
  rw [← hlength, farewellsOf]
  refine load_flatMap fun e he => load_deliveries n p _ ?_
  rw [Process.farewells, List.mem_append, List.mem_map, List.mem_map] at he
  rcases he with ⟨q, -, rfl⟩ | ⟨⟨ref, watcher⟩, -, rfl⟩ <;> simp

/-- Only a link or a monitor is answered, and once. -/
theorem load_answers (n : Node) (d : Delivery) :
    load (n.answers d) ≤ if mayBeAnswered d then 1 else 0 := by
  rw [answers, mayBeAnswered]
  rcases d.signal with m | _ | _ | ref | ref | reason | ⟨ref, reason⟩
  · exact Nat.le_refl 0
  · exact load_deliveries n d.target _ (by simp)
  · exact Nat.le_refl 0
  · exact load_deliveries n d.target _ (by simp)
  · exact Nat.le_refl 0
  · exact Nat.le_refl 0
  · exact Nat.le_refl 0

/-! ## What one signal adds -/

/-- A process that goes on may have one partner or watcher more, if the signal
    is one that might have been answered instead. -/
theorem farewellCount_reactAlive {c c' : Process} {d : Delivery} (ha : c.isAlive = true)
    (h : c.reactAlive d.sender d.signal = .become c') :
    farewellCount c' ≤ farewellCount c + if mayBeAnswered d then 1 else 0 := by
  have ha' : c'.isAlive = true := by
    rw [Process.isAlive, (Process.reactAlive_become h).1, ← Process.isAlive, ha]
  rw [farewellCount, farewellCount, ha, ha', if_pos rfl, if_pos rfl, mayBeAnswered]
  -- Requests to link and to watch add one farewell, and both may be answered instead.
  rcases hs : d.signal with m | _ | _ | ref | ref | reason | ⟨ref, reason⟩ <;> rw [hs] at h
  · rw [Process.reactAlive, Process.Reaction.become.injEq] at h
    rw [← h]
    exact Nat.le_refl _
  · rw [Process.reactAlive, Process.Reaction.become.injEq] at h
    rw [← h]
    have hsize := PidSet.size_insert_le c.links d.sender
    simp only [if_true]
    omega
  · rw [Process.reactAlive, Process.Reaction.become.injEq] at h
    rw [← h]
    have hsize := PidSet.size_erase_le c.links d.sender
    simp only [Bool.false_eq_true, if_false]
    omega
  · rw [Process.reactAlive, Process.Reaction.become.injEq] at h
    rw [← h]
    have hsize := Dict.size_insert_le c.monitoredBy ref d.sender
    simp only [if_true]
    omega
  · rw [Process.reactAlive, Process.Reaction.become.injEq] at h
    rw [← h]
    have hsize := Dict.size_erase_le c.monitoredBy ref
    simp only [Bool.false_eq_true, if_false]
    omega
  · rw [(Process.reactAlive_exit_become h).2]
    have hsize := PidSet.size_erase_le c.links d.sender
    simp only [Bool.false_eq_true, if_false]
    change (c.links.erase d.sender).size + c.monitoredBy.size ≤ _
    omega
  · rw [Process.reactAlive, Process.Reaction.become.injEq] at h
    rw [← h]
    exact Nat.le_refl _

/-- What is queued has to be handled. -/
theorem drainBound_queueAll (n : Node) (ds : List Delivery) :
    (n.queueAll ds).drainBound = n.drainBound + load ds := by
  rw [drainBound_eq, drainBound_eq, signals_queueAll, load_append]
  change load n.queue.signals + load ds + n.processes.total farewellCount = _
  omega

/-- When one process changes, the bound changes by its farewells. Both sides have something added,
    as the difference may go either way. -/
theorem drainBound_update {n : Node} {p : Pid} {c : Process} (hc : n.process? p = some c)
    (c' : Process) :
    (n.update p fun _ => c').drainBound + farewellCount c = n.drainBound + farewellCount c' := by
  have htotal := Dict.total_modify hc (fun _ => c') farewellCount
  rw [drainBound_eq, drainBound_eq]
  change load n.queue.signals + (n.processes.modify p fun _ => c').total farewellCount +
    farewellCount c = _
  omega

/-- A process that dies says no more farewells than were to come. -/
theorem drainBound_fall {n : Node} {p : Pid} {c₀ c : Process} (hp : n.process? p = some c₀)
    (ha : c₀.isAlive = true) (hl : c.links.size ≤ c₀.links.size)
    (hm : c.monitoredBy = c₀.monitoredBy) (reason : Term) :
    (n.fall p c reason).drainBound ≤ n.drainBound := by
  have hup := drainBound_update hp (c.die reason)
  -- What it owed as farewells is now owed by the queue.
  have hload := load_farewellsOf n p c reason
  have hdead : farewellCount (c.die reason) = 0 := rfl
  have hlive : farewellCount c₀ = c₀.links.size + c₀.monitoredBy.size := by
    rw [farewellCount, if_pos ha]
  change ((n.update p fun _ => c.die reason).queueAll (n.farewellsOf p c reason)).drainBound ≤ _
  rw [drainBound_queueAll]
  rw [hm] at hload
  omega

/-- To handle a signal raises the bound by its answer at most. If the target dies its farewells move
    from the processes to the queue; if it goes on with a new partner, the partner takes the place
    of the answer. -/
theorem drainBound_handle (n : Node) (d : Delivery) :
    (n.handle d).drainBound ≤ n.drainBound + if mayBeAnswered d then 1 else 0 := by
  rcases hc : n.process? d.target with _ | c
  · rw [handle_of_none hc]
    exact Nat.le_add_right _ _
  · rcases handle_cases hc with ⟨-, hd⟩ | ⟨ha, c', hr, hd⟩ | ⟨ha, reason, -, -, hd⟩ <;> rw [hd]
    · have hload := load_answers n d
      rw [drainBound_queueAll]
      omega
    · have hup := drainBound_update hc c'
      have hcount := farewellCount_reactAlive ha hr
      omega
    · -- It forgets its link with the sender first, which is one farewell less at most.
      have hfall := drainBound_fall (c := { c with links := c.links.erase d.sender }) hc ha
        (PidSet.size_erase_le c.links d.sender) rfl (Reason.recorded reason)
      exact Nat.le_trans hfall (Nat.le_add_right _ _)

/-- A process that is forgotten has no farewells to say. -/
theorem drainBound_reclaim (n : Node) (p : Pid) : (n.reclaim p).drainBound ≤ n.drainBound := by
  have hforget : ∀ {c}, n.process? p = some c → (n.forget p).drainBound ≤ n.drainBound := by
    intro c hc
    have htotal := Dict.total_erase hc farewellCount
    rw [drainBound_eq, drainBound_eq]
    change load n.queue.signals + (n.processes.erase p).total farewellCount ≤ _
    omega
  rcases reclaim_cases n p with ⟨hr, -⟩ | ⟨c, hc, -, -, ⟨-, hr⟩ | ⟨-, hr⟩⟩
  · exact Nat.le_of_eq (by rw [hr])
  · rw [hr]
    exact hforget hc
  · rw [hr]
    exact hforget hc

/-! ## The bound comes down -/

/-- Taking a batch in hand handles nothing. -/
@[simp] theorem signals_beginTurn (n : Node) :
    n.beginTurn.queue.signals = n.queue.signals := Dispatcher.signals_beginTurn n.queue

/-- So it leaves the bound alone. -/
theorem drainBound_beginTurn (n : Node) : n.beginTurn.drainBound = n.drainBound := by
  rw [drainBound_eq, drainBound_eq, signals_beginTurn]
  rfl

/-- Every signal that is handled brings the bound down by one at least. -/
theorem drainBound_handleInHand {n : Node} (h : n.queue.inHand ≠ []) :
    n.handleInHand.drainBound < n.drainBound := by
  rcases handleInHand_cases n with ⟨hnil, -⟩ | ⟨d, q, -, hs, hi⟩
  · exact absurd hnil h
  · have hreclaim := drainBound_reclaim ((n.withQueue q).handle d) d.target
    have hhandle := drainBound_handle (n.withQueue q) d
    -- The signal that was taken paid for its answer in advance, and for one more.
    have hqueue : (n.withQueue q).drainBound + 1 + (if mayBeAnswered d then 1 else 0) =
        n.drainBound := by
      rw [drainBound_eq, drainBound_eq, hs, load, load, List.length_cons, List.countP_cons]
      change q.signals.length + q.signals.countP mayBeAnswered +
        n.processes.total farewellCount + 1 + _ = _
      omega
    rw [hi]
    omega

/-- A turn takes a signal in hand if one waits, since it takes at least one. -/
theorem inHand_beginTurn {n : Node} (hb : 0 < n.queue.batch) (h : n.queue.signals ≠ [])
    (hnil : n.queue.inHand = []) : n.beginTurn.queue.inHand ≠ [] := by
  rw [Dispatcher.signals, hnil, List.nil_append] at h
  change n.queue.beginTurn.inHand ≠ []
  rw [Dispatcher.beginTurn]
  split
  next hempty => exact absurd (List.isEmpty_iff.mp hempty) h
  next =>
    dsimp only
    rw [hnil, List.nil_append]
    intro htake
    -- A batch is empty only if its size is zero or nothing waits.
    rw [List.take_eq_nil_iff] at htake
    rcases htake with hzero | hpending
    · omega
    · exact h hpending

/-- So does every turn of a drain that finds a signal. -/
theorem drainBound_handleNext {n : Node} (hb : 0 < n.queue.batch) (h : n.queue.signals ≠ []) :
    n.handleNext.drainBound < n.drainBound := by
  rw [handleNext]
  split
  next hempty =>
    have hhand := inHand_beginTurn hb h (List.isEmpty_iff.mp hempty)
    rw [← drainBound_beginTurn n]
    exact drainBound_handleInHand hhand
  next hne => exact drainBound_handleInHand fun hnil => hne (by rw [hnil]; rfl)

/-! ## Batches -/

/-- The size of a batch is settled when the node is made. Queueing leaves it alone. -/
@[simp] theorem batch_queueAll (n : Node) (ds : List Delivery) :
    (n.queueAll ds).queue.batch = n.queue.batch := by
  change (ds.foldl Dispatcher.enqueue n.queue).batch = n.queue.batch
  induction ds generalizing n with
  | nil => rfl
  | cons d rest ih => exact ih (n.enqueue d)

/-- So does the start of a turn. -/
@[simp] theorem batch_beginTurn (n : Node) : n.beginTurn.queue.batch = n.queue.batch := by
  change n.queue.beginTurn.batch = n.queue.batch
  rw [Dispatcher.beginTurn]
  split <;> rfl

/-- So does letting a process go. -/
@[simp] theorem batch_reclaim (n : Node) (p : Pid) :
    (n.reclaim p).queue.batch = n.queue.batch := by
  rcases reclaim_cases n p with ⟨hr, -⟩ | ⟨c, -, -, -, ⟨-, hr⟩ | ⟨-, hr⟩⟩ <;> rw [hr] <;> rfl

/-- So does handling a signal. -/
@[simp] theorem batch_handle (n : Node) (d : Delivery) :
    (n.handle d).queue.batch = n.queue.batch := by
  rcases hc : n.process? d.target with _ | c
  · rw [handle_of_none hc]
  · rcases handle_cases hc with ⟨-, hd⟩ | ⟨-, c', -, hd⟩ | ⟨-, reason, -, -, hd⟩ <;> rw [hd]
    · exact batch_queueAll _ _
    · rfl
    · exact batch_queueAll _ _

/-- So does the whole of a turn. -/
@[simp] theorem batch_handleInHand (n : Node) : n.handleInHand.queue.batch = n.queue.batch := by
  rcases handleInHand_cases n with ⟨-, hi⟩ | ⟨d, q, hq, -, hi⟩ <;> rw [hi]
  rw [batch_reclaim, batch_handle]
  rw [Dispatcher.next?] at hq
  split at hq
  next => exact absurd hq (by simp)
  next =>
    rw [Option.some.injEq, Prod.mk.injEq] at hq
    rw [withQueue, ← hq.2]

/-- No operation changes the size of a batch. -/
theorem batch_step {n : Node} (h : n.Coherent) (op : NodeOp) :
    (n.step op).queue.batch = n.queue.batch := by
  -- The moves are settled first, and with them all plain operations.
  have hmove : ∀ {K m m'}, Move K m m' → m'.queue.batch = m.queue.batch := by
    intro K m m' hm
    cases hm with
    | queue ds => exact batch_queueAll m ds
    | beginTurn => exact batch_beginTurn m
    | _ => rfl
  by_cases hop : op.isPlain = true
  · exact (moves_step h hop).induction (P := fun m => m.queue.batch = n.queue.batch)
      (fun _ _ hm hh => (hmove hm).trans hh) rfl
  · cases op with
    | die p reason =>
        rw [step]
        rcases die_cases n p reason with ⟨hd, -⟩ | ⟨c, -, -, hd⟩ <;> rw [hd]
        exact batch_queueAll _ _
    | letGo p => exact batch_reclaim _ p
    | handleInHand => exact batch_handleInHand n
    | _ => exact absurd rfl hop

/-- A turn of a node takes at least one signal. -/
theorem Reachable.batch_pos {n : Node} (h : n.Reachable) : 0 < n.queue.batch := by
  rcases h with ⟨config, ops, rfl⟩
  refine run_new_induction (P := fun m => 0 < m.queue.batch) (Nat.le_max_right _ _)
    (fun m op hm hpos => ?_) ops
  rwa [batch_step hm]

/-! ## Nothing is left -/

/-- Nor does a drain. -/
theorem batch_handleNext (n : Node) : n.handleNext.queue.batch = n.queue.batch := by
  rw [handleNext]
  split
  · rw [batch_handleInHand, batch_beginTurn]
  · exact batch_handleInHand n

/-- Without a signal that waits there is nothing to do. -/
theorem signals_handleNext_of_nil {n : Node} (h : n.queue.signals = []) :
    n.handleNext.queue.signals = [] := by
  have hstay : ∀ {m : Node}, m.queue.signals = [] → m.handleInHand = m := by
    intro m hm
    rcases handleInHand_cases m with ⟨-, hi⟩ | ⟨d, q, -, hs, -⟩
    · exact hi
    · exact absurd (hm.symm.trans hs) (by simp)
  rw [handleNext]
  split
  · rw [hstay (by rw [signals_beginTurn, h]), signals_beginTurn, h]
  · rw [hstay h, h]

/-- Handling as many signals as the bound says leaves none. The induction is on the number of turns,
    with the bound as what comes down. -/
theorem signals_handleMany {k : Nat} {n : Node} (hb : 0 < n.queue.batch)
    (hk : n.drainBound ≤ k) : (handleMany k n).queue.signals = [] := by
  induction k generalizing n with
  | zero =>
      rw [drainBound_eq, load] at hk
      have hlength : n.queue.signals.length = 0 := by omega
      exact List.eq_nil_of_length_eq_zero hlength
  | succ k ih =>
      have hb' : 0 < n.handleNext.queue.batch := by rwa [batch_handleNext]
      by_cases h : n.queue.signals = []
      · -- The bound may stay, so the induction hypothesis is of no use here.
        have hnil : ∀ (j : Nat) (m : Node), m.queue.signals = [] →
            (handleMany j m).queue.signals = [] := by
          intro j
          induction j with
          | zero => exact fun m hm => hm
          | succ j ihj => exact fun m hm => ihj m.handleNext (signals_handleNext_of_nil hm)
        exact hnil k n.handleNext (signals_handleNext_of_nil h)
      · have hlt := drainBound_handleNext hb h
        exact ih hb' (by omega)

/-- After draining, no signal waits. -/
theorem signals_drain {n : Node} (hb : 0 < n.queue.batch) : n.drain.queue.signals = [] :=
  signals_handleMany hb (Nat.le_refl _)

end Node

end Actors
