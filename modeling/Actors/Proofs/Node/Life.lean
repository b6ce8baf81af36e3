import Actors.Node.Life
import Actors.Proofs.Node.Signals
import Actors.Proofs.ProcessTable

/-!
# Birth, Death and Dispatch in Single Moves

How a process comes to be, how it goes, and what happens when a signal is
handled, each said in one equation or a few cases.

Every death is one and the same move, `fall`, whoever caused it: the process
keeps only its reason, its farewells are queued, and the node gives back what
it held for it. A process that is told to end by an exit signal falls in the
same way as one that ends by itself; it only forgets its link with the sender
first.

## Main definitions

* `Node.fall`: A process ends.
* `Node.forget`: A process is removed without a word.
* `Node.loosen`: A handle to a process is dropped.
* `Node.answers`: What a dead process queues for a signal that reaches it.

## Theorems

* `makeProcess_cases`: A process is made, or nothing happens.
* `die_cases`: A death is a fall.
* `handle_cases`: A signal changes its target, or fells it, or is answered.
* `reclaim_cases`: A process without handles is forgotten.
* `handleInHand_cases`: The next signal is handled, and its target let go.
-/

namespace Actors

namespace Node

/-! ## Birth -/

/-- A process is added under a name that the table gave out. -/
def addProcess (n : Node) (p : Pid) (table : ProcessTable) : Node :=
  { n with table, processes := n.processes.insert p .fresh }

@[simp] theorem process?_addProcess (n : Node) (p q : Pid) (table : ProcessTable) :
    (n.addProcess p table).process? q = if q = p then some .fresh else n.process? q :=
  Dict.get?_insert n.processes p q .fresh

theorem process?_of_addProcess {n : Node} {p q : Pid} {table : ProcessTable} {c : Process}
    (h : (n.addProcess p table).process? q = some c) :
    q = p ∧ c = .fresh ∨ q ≠ p ∧ n.process? q = some c := by
  rw [process?_addProcess] at h
  split at h
  next heq =>
    rw [Option.some.injEq] at h
    exact Or.inl ⟨heq, h.symm⟩
  next hne => exact Or.inr ⟨hne, h⟩

/-- A process is made under a name that the table gives out, or the table is full and nothing
    changes. -/
theorem makeProcess_cases (n : Node) :
    n.makeProcess = (.error .systemLimit, n) ∨
    ∃ id serial table, n.table.insert = (.ok (id, serial), table) ∧
      n.makeProcess =
        (.ok (.ofSlot id serial n.creation),
          n.addProcess (.ofSlot id serial n.creation) table) := by
  rw [makeProcess]
  split
  next e table h =>
    rcases ProcessTable.insert_error h with ⟨rfl, rfl⟩
    exact Or.inl rfl
  next id serial table h => exact Or.inr ⟨id, serial, table, h, rfl⟩

/-- Only a full table stands in the way of a birth. -/
theorem makeProcess_error {n n₁ : Node} {e : Failure} (h : n.makeProcess = (.error e, n₁)) :
    e = .systemLimit ∧ n₁ = n := by
  rcases makeProcess_cases n with he | ⟨id, serial, table, -, he⟩
  · rw [he, Prod.mk.injEq, Except.error.injEq] at h
    exact ⟨h.1.symm, h.2.symm⟩
  · exact absurd (he.symm.trans h) (by simp)

/-- A process that was made is a fresh one. -/
theorem makeProcess_ok {n n₁ : Node} {p : Pid} (h : n.makeProcess = (.ok p, n₁)) :
    ∃ id serial table, n.table.insert = (.ok (id, serial), table) ∧
      p = .ofSlot id serial n.creation ∧ n₁ = n.addProcess p table := by
  rcases makeProcess_cases n with he | ⟨id, serial, table, hi, he⟩
  · exact absurd (he.symm.trans h) (by simp)
  · rw [he, Prod.mk.injEq, Except.ok.injEq] at h
    refine ⟨id, serial, table, hi, h.1.symm, ?_⟩
    rw [← h.1, ← h.2]

/-- A name can also be given out without a process. Then only the table knows of it. -/
theorem makePid_cases (n : Node) :
    n.makePid = (.error .systemLimit, n) ∨
    ∃ id serial table, n.table.mint = (.ok (id, serial), table) ∧
      n.makePid = (.ok (.ofSlot id serial n.creation), { n with table }) := by
  rw [makePid]
  split
  next e table h =>
    rcases ProcessTable.mint_error h with ⟨rfl, rfl⟩
    exact Or.inl rfl
  next id serial table h => exact Or.inr ⟨id, serial, table, h, rfl⟩

/-- What a process that is made in a link queues. -/
def birthDeliveries (n : Node) (p linked : Pid) : List Delivery :=
  match n.resolve (.pid linked) with
  | .error _ => n.deliveries linked (.exit Reason.noproc) (.pid p)
  | .ok _ => n.deliveries p .link (.pid linked)

/-- The newborn lists its partner at once. The partner learns of the link by a signal, and if it is
    out of reach the newborn is told so by a signal that it handles later. -/
theorem spawnLink_of_ok {n n₁ : Node} {p : Pid} (h : n.makeProcess = (.ok p, n₁)) (linked : Pid) :
    n.spawnLink linked =
      (.ok p, (n₁.update p fun c => { c with links := c.links.insert linked }).queueAll
        (n₁.birthDeliveries p linked)) := by
  rw [spawnLink, h]
  dsimp only
  -- The link of the newborn is entered first and does not change where its signal goes.
  rw [birthDeliveries]
  split
  next n₃ hs =>
    rcases signal_ok hs with ⟨⟨r, hr⟩, rfl⟩
    rw [resolve_update] at hr
    rw [hr, deliveries_update]
  next e n₃ hs =>
    rcases signal_error hs with ⟨hr, rfl⟩
    rw [resolve_update] at hr
    rw [hr, post_eq, deliveries_update]

/-- If nobody is born nobody is linked. -/
theorem spawnLink_of_error {n n₁ : Node} {e : Failure} (h : n.makeProcess = (.error e, n₁))
    (linked : Pid) : n.spawnLink linked = (.error e, n) := by
  rw [spawnLink, h]
  exact Prod.ext rfl (makeProcess_error h).2

/-- A process is born in a link, or nothing happens. -/
theorem spawnLink_cases (n : Node) (linked : Pid) :
    n.spawnLink linked = (.error .systemLimit, n) ∨
    ∃ p n₁, n.makeProcess = (.ok p, n₁) ∧
      n.spawnLink linked =
        (.ok p, (n₁.update p fun c => { c with links := c.links.insert linked }).queueAll
          (n₁.birthDeliveries p linked)) := by
  rcases h : n.makeProcess with ⟨e | p, n₁⟩
  · rcases makeProcess_error h with ⟨rfl, rfl⟩
    exact Or.inl (spawnLink_of_error h linked)
  · exact Or.inr ⟨p, n₁, rfl, spawnLink_of_ok h linked⟩

/-- A birth makes no reference, so the next one is what it was. -/
theorem nextRef_of_makeProcess {n n₁ : Node} {p : Pid} (h : n.makeProcess = (.ok p, n₁)) :
    n₁.nextRef = n.nextRef := by
  rcases makeProcess_ok h with ⟨id, serial, table, -, -, rfl⟩
  rfl

/-- Both halves of the monitor are entered at once, since the newborn cannot be out of reach of the
    node that made it. No signal is sent. -/
theorem spawnMonitor_of_ok {n n₁ : Node} {p : Pid} (h : n.makeProcess = (.ok p, n₁))
    (watcher : Pid) :
    n.spawnMonitor watcher =
      (.ok (p, n.nextRef),
        (n₁.countRef.update p fun c =>
          { c with monitoredBy := c.monitoredBy.insert n.nextRef watcher }).track
            watcher n.nextRef p) := by
  rw [spawnMonitor, h, ← nextRef_of_makeProcess h]
  rfl

/-- If nobody is born no reference is made. -/
theorem spawnMonitor_of_error {n n₁ : Node} {e : Failure} (h : n.makeProcess = (.error e, n₁))
    (watcher : Pid) : n.spawnMonitor watcher = (.error e, n) := by
  rw [spawnMonitor, h]
  exact Prod.ext rfl (makeProcess_error h).2

/-- A process is born under watch, or nothing happens. -/
theorem spawnMonitor_cases (n : Node) (watcher : Pid) :
    n.spawnMonitor watcher = (.error .systemLimit, n) ∨
    ∃ p n₁, n.makeProcess = (.ok p, n₁) ∧
      n.spawnMonitor watcher =
        (.ok (p, n.nextRef),
          (n₁.countRef.update p fun c =>
            { c with monitoredBy := c.monitoredBy.insert n.nextRef watcher }).track
              watcher n.nextRef p) := by
  rcases h : n.makeProcess with ⟨e | p, n₁⟩
  · rcases makeProcess_error h with ⟨rfl, rfl⟩
    exact Or.inl (spawnMonitor_of_error h watcher)
  · exact Or.inr ⟨p, n₁, rfl, spawnMonitor_of_ok h watcher⟩

/-! ## Death -/

/-- What the farewells of a process turn into. -/
def farewellsOf (n : Node) (p : Pid) (c : Process) (reason : Term) : List Delivery :=
  (c.farewells reason).flatMap fun e => n.deliveries p e.2 (.pid e.1)

/-- A process ends in a given state: it keeps only its reason, its farewells
    are queued, and what the node held for it is given back. -/
def fall (n : Node) (p : Pid) (c : Process) (reason : Term) : Node :=
  ((n.update p fun _ => c.die reason).queueAll (n.farewellsOf p c reason)).release p

@[simp] theorem process?_fall (n : Node) (p q : Pid) (c : Process) (reason : Term) :
    (n.fall p c reason).process? q =
      if q = p then (n.process? q).map fun _ => c.die reason else n.process? q :=
  process?_update n p q _

/-- Who is there after a death was there before it, and is the dead one or what he was. -/
theorem process?_of_fall {n : Node} {p q : Pid} {c c' : Process} {reason : Term}
    (h : (n.fall p c reason).process? q = some c') :
    q = p ∧ c' = c.die reason ∨ q ≠ p ∧ n.process? q = some c' := by
  rw [process?_fall] at h
  split at h
  next heq =>
    rw [Option.map_eq_some_iff] at h
    rcases h with ⟨c₀, -, hc⟩
    exact Or.inl ⟨heq, hc.symm⟩
  next hne => exact Or.inr ⟨hne, h⟩

/-- The farewells stand behind what was queued before the death. -/
@[simp] theorem signals_fall (n : Node) (p : Pid) (c : Process) (reason : Term) :
    (n.fall p c reason).queue.signals = n.queue.signals ++ n.farewellsOf p c reason :=
  signals_queueAll _ _

/-- Only the state a process is in counts for how it changes. -/
theorem update_congr {n : Node} {p : Pid} {c : Process} (hc : n.process? p = some c)
    {f g : Process → Process} (h : f c = g c) : n.update p f = n.update p g := by
  -- The entry of the process is the only one that is changed, and it holds this state.
  have hentries : (n.processes.modify p f).entries = (n.processes.modify p g).entries := by
    refine List.map_congr_left fun e he => ?_
    by_cases hp : e.1 = p
    · have hmem : (p, e.2) ∈ n.processes.entries := by rwa [← hp]
      have hc' : n.processes.get? p = some c := hc
      rw [Dict.mem_entries_iff, hc', Option.some.injEq] at hmem
      rw [if_pos hp, if_pos hp, ← hmem, h]
    · rw [if_neg hp, if_neg hp]
  have hdict : n.processes.modify p f = n.processes.modify p g := by
    rcases hf : n.processes.modify p f with ⟨fs, hfs⟩
    rcases hg : n.processes.modify p g with ⟨gs, hgs⟩
    rw [hf, hg] at hentries
    subst hentries
    rfl
  simp only [update, hdict]

/-- Two changes of one process are one change. -/
theorem update_update (n : Node) (p : Pid) (f g : Process → Process) :
    (n.update p f).update p g = n.update p fun c => g (f c) := by
  have hdict : (n.processes.modify p f).modify p g = n.processes.modify p fun c => g (f c) := by
    simp only [Dict.modify, List.map_map, Dict.mk.injEq]
    refine List.map_congr_left fun e _ => ?_
    by_cases hp : e.1 = p
    · simp only [Function.comp_apply, if_pos hp]
    · simp only [Function.comp_apply, if_neg hp]
  simp only [update, hdict]

/-- To put a process back as it is changes nothing. -/
theorem update_id {n : Node} {p : Pid} {c : Process} (hc : n.process? p = some c) :
    (n.update p fun _ => c) = n := by
  have hid : (n.update p fun _ => c) = n.update p id := update_congr hc rfl
  have hdict : n.processes.modify p id = n.processes := by
    have hmap : (n.processes.entries.map fun e => if e.1 = p then (e.1, id e.2) else e) =
        n.processes.entries := by
      refine List.map_id'' (fun e => ?_) _
      split <;> rfl
    simp only [Dict.modify, hmap]
  rw [hid]
  simp only [update, hdict]

/-- A process that is told to end falls, if it is there and alive. Of the reason it keeps what is
    recorded. -/
theorem die_cases (n : Node) (p : Pid) (reason : Term) :
    (n.die p reason = n ∧ ∀ c, n.process? p = some c → c.isAlive = false) ∨
    ∃ c, n.process? p = some c ∧ c.isAlive = true ∧
      n.die p reason = n.fall p c (Reason.recorded reason) := by
  rcases hc : n.process? p with _ | c
  · exact Or.inl ⟨by rw [die, hc], fun c h => absurd h (by simp)⟩
  · by_cases ha : c.isAlive = true
    · refine Or.inr ⟨c, rfl, ha, ?_⟩
      simp only [die, hc, ha, if_true]
      -- The farewells go where they would have gone before the process ended.
      have hup : (n.update p fun c => c.die (Reason.recorded reason)) =
          n.update p fun _ => c.die (Reason.recorded reason) := update_congr hc rfl
      rw [fall, postAll_eq, hup]
      simp only [deliveries_update, farewellsOf]
    · refine Or.inl ⟨by simp only [die, hc, if_neg ha], fun c' h => ?_⟩
      rw [Option.some.injEq] at h
      rw [← h]
      exact Bool.not_eq_true _ ▸ ha

/-! ## Signals are handled -/

/-- What a dead process queues for a signal that reaches it. -/
def answers (n : Node) (d : Delivery) : List Delivery :=
  match Process.answerTo d.signal with
  | some answer => n.deliveries d.target answer (.pid d.sender)
  | none => []

/-- A signal is answered by a dead process, changes a living one, or fells it. -/
theorem handle_cases {n : Node} {d : Delivery} {c : Process} (hc : n.process? d.target = some c) :
    (c.isAlive = false ∧ n.handle d = n.queueAll (n.answers d)) ∨
    (c.isAlive = true ∧ ∃ c', c.reactAlive d.sender d.signal = .become c' ∧
      n.handle d = n.update d.target fun _ => c') ∨
    (c.isAlive = true ∧ ∃ reason, d.signal = .exit reason ∧ c.traps reason = false ∧
      n.handle d = n.fall d.target { c with links := c.links.erase d.sender }
        (Reason.recorded reason)) := by
  -- The living and the dead react by different rules.
  by_cases ha : c.isAlive = true
  · refine Or.inr ?_
    simp only [handle, hc, Process.react, ha, if_true]
    rcases hr : c.reactAlive d.sender d.signal with c' | ⟨c', reason⟩ | answer
    · exact Or.inl ⟨trivial, c', rfl, rfl⟩
    · rcases Process.reactAlive_die hr with ⟨hs, rfl, ht⟩
      refine Or.inr ⟨trivial, reason, hs, ht, ?_⟩
      -- It is changed first and ends then, and the two changes are one.
      have hup := process?_update_self hc fun _ => { c with links := c.links.erase d.sender }
      rcases die_cases (n.update d.target fun _ => { c with links := c.links.erase d.sender })
        d.target reason with ⟨-, hdead⟩ | ⟨c', hc', -, hfall⟩
      · have hdead' := hdead _ hup
        change c.isAlive = false at hdead'
        exact absurd ha (by rw [hdead']; simp)
      · rw [hup, Option.some.injEq] at hc'
        dsimp only
        rw [hfall, ← hc', fall, fall, update_update]
        simp only [farewellsOf, deliveries_update]
    · exact absurd hr (Process.reactAlive_ne_answer c d.sender d.signal answer)
  · refine Or.inl ⟨Bool.not_eq_true _ ▸ ha, ?_⟩
    simp only [handle, hc, Process.react, if_neg ha, Process.reactDead_eq, answers]
    rcases Process.answerTo d.signal with _ | answer
    · exact update_id hc
    · exact post_eq n d.target answer d.sender

/-- A signal for a process that has been forgotten is dropped. -/
theorem handle_of_none {n : Node} {d : Delivery} (hc : n.process? d.target = none) :
    n.handle d = n := by
  rw [handle, hc]

/-! ## Handles -/

/-- A process is removed without a word. -/
def forget (n : Node) (p : Pid) : Node := { n with processes := n.processes.erase p }

@[simp] theorem process?_forget (n : Node) (p q : Pid) :
    (n.forget p).process? q = if q = p then none else n.process? q :=
  Dict.get?_erase n.processes p q

/-- Nobody else is forgotten. -/
theorem process?_of_forget {n : Node} {p q : Pid} {c : Process}
    (h : (n.forget p).process? q = some c) : q ≠ p ∧ n.process? q = some c := by
  rw [process?_forget] at h
  split at h
  next => exact absurd h (by simp)
  next hne => exact ⟨hne, h⟩

/-- A process without handles is forgotten. If it was alive, what the node held
    for it is given back. -/
theorem reclaim_cases (n : Node) (p : Pid) :
    (n.reclaim p = n ∧ ∀ c, n.process? p = some c → c.handles ≠ 0 ∨ n.queue.targets p = true) ∨
    ∃ c, n.process? p = some c ∧ c.handles = 0 ∧ n.queue.targets p = false ∧
      ((c.isAlive = true ∧ n.reclaim p = (n.forget p).release p) ∨
        (c.isAlive = false ∧ n.reclaim p = n.forget p)) := by
  rcases hc : n.process? p with _ | c
  · exact Or.inl ⟨by rw [reclaim, hc], fun c h => absurd h (by simp)⟩
  · -- Two things keep a process: somebody's handle, and a signal that is on its way to it.
    by_cases hheld : c.handles = 0 ∧ n.queue.targets p = false
    · refine Or.inr ⟨c, rfl, hheld.1, hheld.2, ?_⟩
      simp only [reclaim, hc, hheld, and_self, if_true]
      rcases ha : c.isAlive with _ | _
      · exact Or.inr ⟨rfl, rfl⟩
      · exact Or.inl ⟨rfl, rfl⟩
    · refine Or.inl ⟨by simp only [reclaim, hc, if_neg hheld], fun c' h => ?_⟩
      rw [Option.some.injEq] at h
      rw [← h]
      by_cases hz : c.handles = 0
      · exact Or.inr (Bool.not_eq_false _ ▸ fun ht => hheld ⟨hz, ht⟩)
      · exact Or.inl hz

/-- Nobody appears when somebody is let go. -/
theorem process?_of_reclaim {n : Node} {p q : Pid} {c : Process}
    (hc : (n.reclaim q).process? p = some c) : n.process? p = some c := by
  rcases reclaim_cases n q with ⟨hr, -⟩ | ⟨c', -, -, -, ⟨-, hr⟩ | ⟨-, hr⟩⟩ <;> rw [hr] at hc
  · exact hc
  · change (n.forget q).process? p = some c at hc
    exact (process?_of_forget hc).2
  · exact (process?_of_forget hc).2

/-- Letting go of one process takes no other one away. -/
theorem process?_reclaim_of_ne {n : Node} {p q : Pid} (hne : q ≠ p) :
    (n.reclaim p).process? q = n.process? q := by
  rcases reclaim_cases n p with ⟨hr, -⟩ | ⟨c, -, -, -, ⟨-, hr⟩ | ⟨-, hr⟩⟩ <;> rw [hr]
  · change (n.forget p).process? q = n.process? q
    rw [process?_forget, if_neg hne]
  · rw [process?_forget, if_neg hne]

/-- A process to which there is a handle is not taken away. -/
theorem reclaim_of_handles {n : Node} {p : Pid} {c : Process} (hc : n.process? p = some c)
    (hh : c.handles ≠ 0) : n.reclaim p = n := by
  rcases reclaim_cases n p with ⟨hr, -⟩ | ⟨c', hc', hz, -⟩
  · exact hr
  · rw [hc, Option.some.injEq] at hc'
    exact absurd (hc' ▸ hz) hh

/-- A handle to a process is dropped, and the process stays. -/
def loosen (n : Node) (p : Pid) : Node := n.update p fun c => { c with handles := c.handles - 1 }

/-- To let go of a process is to drop a handle and then to look whether that was the last one. -/
theorem letGo_eq (n : Node) (p : Pid) : n.letGo p = (n.loosen p).reclaim p := rfl

/-! ## Dispatch -/

/-- The queue gives out a batch or the next signal. -/
def withQueue (n : Node) (q : Dispatcher) : Node := { n with queue := q }

/-- The signal that waits longest is taken, its target handles it, and then the target is let go if
    nothing holds it any more. -/
theorem handleInHand_cases (n : Node) :
    (n.queue.inHand = [] ∧ n.handleInHand = n) ∨
    ∃ d q, n.queue.next? = some (d, q) ∧ n.queue.signals = d :: q.signals ∧
      n.handleInHand = ((n.withQueue q).handle d).reclaim d.target := by
  rw [handleInHand]
  rcases hq : n.queue.next? with _ | ⟨d, q⟩
  · refine Or.inl ⟨?_, rfl⟩
    -- Without a batch in hand there is no next signal, whatever waits behind it.
    rw [Dispatcher.next?] at hq
    split at hq
    next h => exact h
    next => exact absurd hq (by simp)
  · exact Or.inr ⟨d, q, rfl, Dispatcher.signals_of_next? hq, rfl⟩

end Node

end Actors
