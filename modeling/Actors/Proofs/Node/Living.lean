import Actors.Proofs.Node.Identity
import Actors.Proofs.Node.Posting

/-!
# What Happens to a Living Process

What an operation can make of a process that is alive before and after it. There
are few ways. Requests change its settings, its tables, its handles or its monitors,
a receiver changes its mailbox, and the handler makes of it what the signal in hand
says, if that signal is for it. Everything else leaves it as it is: births, other
processes, names, routes, and whatever is only queued.

`Lasts` lists the ways, each with the operation that it belongs to. A law about
living processes has a case for each of them, and need not look at operations again.

## Main definitions

* `Node.Lasts`: What an operation makes of a process that outlives it.

## Theorems

* `ne_of_makeProcess`: A process that was there is none that is made.
* `lasts_handle`: A signal is handled.
* `lasts_step`: An operation makes of a living process one of the things listed.
* `lives_at_start`, `lives_between`: Nobody comes back, so who is alive was alive all along.
-/

namespace Actors

namespace Node

/-- What an operation makes of a process that outlives it. -/
inductive Lasts (n : Node) (p : Pid) (c : Process) : NodeOp → Process → Prop
  /-- The operation has nothing to do with the process. -/
  | idle {op : NodeOp} (htakes : ∀ d ∈ n.takes op, d.target ≠ p) (hop : ∀ r, op ≠ .receive p r) :
      Lasts n p c op c
  | setFlag (f : ProcessFlag) (value : Bool) :
      Lasts n p c (.setFlag p f value) (c.setFlag f value)
  | receive (r : Receive Term) : Lasts n p c (.receive p r) (c.serve r)
  | reorder (links : PidSet) (watchers : Dict Ref Pid) :
      Lasts n p c (.reorder p links watchers) (c.reorder links watchers)
  | retain : Lasts n p c (.retain p) { c with handles := c.handles + 1 }
  | letGo : Lasts n p c (.letGo p) { c with handles := c.handles - 1 }
  | monitor (watchee : Pid) :
      Lasts n p c (.monitor p watchee) (c.trackMonitor n.nextRef watchee)
  | spawnMonitor (born : Pid) (hr : (n.spawnMonitor p).1 = .ok (born, n.nextRef)) :
      Lasts n p c (.spawnMonitor p) (c.trackMonitor n.nextRef born)
  | demonitor (ref : Ref) :
      Lasts n p c (.demonitor p ref) { c with monitors := c.monitors.erase ref }
  /-- The signal in hand is for the process. -/
  | handle {d : Delivery} {q : Dispatcher} {c' : Process} (hq : n.queue.next? = some (d, q))
      (htarget : d.target = p) (hr : c.reactAlive d.sender d.signal = .become c') :
      Lasts n p c .handleInHand c'

variable {p q x : Pid} {n n' : Node} {c : Process} {d : Delivery} {op : NodeOp}

/-- A process that was there is none that is made. -/
theorem ne_of_makeProcess (hn : n.Coherent) (hp : (n.process? p).isSome)
    (hm : n.makeProcess = (.ok q, n')) :
    p ≠ q ∧ n'.process? p = n.process? p := by
  rcases makeProcess_ok hm with ⟨id, serial, table, hi, rfl, rfl⟩
  -- The table gives out a pid that no process has.
  have hne : p ≠ .ofSlot id serial n.creation := by
    rintro rfl
    rw [hn.process?_of_insert hi] at hp
    exact absurd hp (by simp)
  exact ⟨hne, by rw [process?_addProcess, if_neg hne]⟩

/-! ## Single operations -/

/-- An operation that takes nothing from the queue and is no receiver of the process. -/
theorem lasts_same (hc : n'.process? p = some c) (htakes : n.takes op = [])
    (hop : ∀ r, op ≠ .receive p r) : ∃ c', n'.process? p = some c' ∧ n.Lasts p c op c' := by
  refine ⟨c, hc, .idle (fun d hd => ?_) hop⟩
  rw [htakes] at hd
  exact absurd hd List.not_mem_nil

/-- A request that changes one process. -/
theorem lasts_update {m : Node} {f : Process → Process} (hc : m.process? p = some c)
    (htakes : n.takes op = []) (hop : p ≠ x → ∀ r, op ≠ .receive p r)
    (hf : p = x → n.Lasts p c op (f c)) :
    ∃ c', (m.update x f).process? p = some c' ∧ n.Lasts p c op c' := by
  by_cases hx : p = x
  · subst hx
    exact ⟨f c, process?_update_self hc f, hf rfl⟩
  · refine lasts_same ?_ htakes (hop hx)
    rw [process?_update, if_neg hx, hc]

/-- A watcher remembers a new monitor. -/
theorem lasts_track {m : Node} {ref : Ref} (hc : m.process? p = some c) (htakes : n.takes op = [])
    (hop : ∀ r, op ≠ .receive p r) (hf : p = x → n.Lasts p c op (c.trackMonitor ref q)) :
    ∃ c', (m.track x ref q).process? p = some c' ∧ n.Lasts p c op c' := by
  rcases track_cases m x ref q with ht | ht <;> rw [ht]
  · exact lasts_same hc htakes hop
  · exact lasts_update hc htakes (fun _ => hop) hf

/-- A process is made, and it is another one. -/
theorem lasts_spawnLink (hn : n.Coherent) (hc : n.process? p = some c) (linked : Pid) :
    ∃ c', (n.step (.spawnLink linked)).process? p = some c' ∧
      n.Lasts p c (.spawnLink linked) c' := by
  refine lasts_same ?_ rfl fun r => by simp
  rw [step]
  rcases spawnLink_cases n linked with he | ⟨q, n₁, hm, he⟩ <;> rw [he]
  · exact hc
  · rcases ne_of_makeProcess hn (Option.isSome_iff_exists.mpr ⟨c, hc⟩) hm with ⟨hne, hsame⟩
    change (n₁.update q _).process? p = some c
    rw [process?_update, if_neg hne, hsame, hc]

theorem lasts_spawnMonitor (hn : n.Coherent) (hc : n.process? p = some c) (watcher : Pid) :
    ∃ c', (n.step (.spawnMonitor watcher)).process? p = some c' ∧
      n.Lasts p c (.spawnMonitor watcher) c' := by
  rw [step]
  rcases spawnMonitor_cases n watcher with he | ⟨q, n₁, hm, he⟩ <;> rw [he]
  · exact lasts_same hc rfl fun r => by simp
  · rcases ne_of_makeProcess hn (Option.isSome_iff_exists.mpr ⟨c, hc⟩) hm with ⟨hne, hsame⟩
    refine lasts_track ?_ rfl (fun r => by simp) fun hx => ?_
    · rw [process?_update, if_neg hne]
      exact hsame.trans hc
    · -- The watcher may be the process itself.
      subst hx
      exact .spawnMonitor q (by rw [he])

/-- The signal in hand is handled, and the process lives on. -/
theorem lasts_handle (hn : n.Coherent) (hc : n.process? p = some c) (ha : c.isAlive = true)
    (hp' : n.handleInHand.lives p = true) :
    ∃ c', n.handleInHand.process? p = some c' ∧ n.Lasts p c .handleInHand c' := by
  rcases handleInHand_cases n with ⟨hnil, hi⟩ | ⟨d, rest, hq, hs, hi⟩
  · rw [hi]
    refine lasts_same hc ?_ fun r => by simp
    rw [takes, Dispatcher.next?, hnil]
  · rw [hi] at hp' ⊢
    rw [process?_reclaim hp']
    have hnow := lives_of_reclaim hp'
    have hc₀ : (n.withQueue rest).process? p = some c := hc
    rcases Option.isSome_iff_exists.mp (hn.targets d (by rw [hs]; exact List.mem_cons_self))
      with ⟨c₁, hc₁⟩
    -- A signal for another process leaves this one alone.
    have hidle : d.target ≠ p → n.Lasts p c .handleInHand c := by
      refine fun hne => .idle (fun e he => ?_) fun r => by simp
      rw [takes, hq, List.mem_singleton] at he
      rwa [he]
    rcases handle_cases (n := n.withQueue rest) hc₁ with ⟨hdead, hh⟩ | ⟨-, c', hr, hh⟩ |
      ⟨-, reason, -, -, hh⟩ <;> rw [hh] at hnow ⊢
    · refine ⟨c, hc, hidle ?_⟩
      rintro rfl
      rw [hc, Option.some.injEq] at hc₁
      rw [← hc₁, ha] at hdead
      exact absurd hdead (by simp)
    · by_cases heq : d.target = p
      · subst heq
        rw [hc, Option.some.injEq] at hc₁
        exact ⟨c', process?_update_self hc₀ _, .handle hq rfl (hc₁ ▸ hr)⟩
      · refine ⟨c, ?_, hidle heq⟩
        rw [process?_update, if_neg (Ne.symm heq), hc₀]
    · rw [lives_fall] at hnow
      split at hnow
      next => exact absurd hnow (by simp)
      next hne =>
        refine ⟨c, ?_, hidle (Ne.symm hne)⟩
        rw [process?_fall, if_neg hne, hc₀]

/-! ## All operations -/

/-- An operation makes of a process that outlives it one of the things listed. -/
theorem lasts_step (hn : n.Coherent) (hc : n.process? p = some c) (ha : c.isAlive = true)
    (hp' : (n.step op).lives p = true) :
    ∃ c', (n.step op).process? p = some c' ∧ n.Lasts p c op c' := by
  have hkept : op.isClerical = true ∨ op.isPosting = true →
      (n.step op).process? p = some c := by
    intro h
    rw [process?, (processes_step n h).1]
    exact hc
  cases op with
  | makePid =>
      refine lasts_same ?_ rfl fun r => by simp
      rw [process?_makePid, hc]
  | spawn =>
      refine lasts_same ?_ rfl fun r => by simp
      rw [step, spawn]
      rcases hm : n.makeProcess with ⟨e | q, n₁⟩
      · rw [(makeProcess_error hm).2, hc]
      · rw [(ne_of_makeProcess hn (Option.isSome_iff_exists.mpr ⟨c, hc⟩) hm).2, hc]
  | spawnLink linked => exact lasts_spawnLink hn hc linked
  | spawnMonitor watcher => exact lasts_spawnMonitor hn hc watcher
  | signal | link | unlink =>
      exact lasts_same (hkept (Or.inr rfl)) rfl fun r => by simp
  | monitor watcher watchee =>
      rw [step, monitor_eq]
      refine lasts_track (m := n.countRef) hc rfl (fun r => by simp) fun hx => ?_
      subst hx
      exact .monitor watchee
  | demonitor watcher ref =>
      rw [step]
      rcases demonitor_cases n watcher ref with hd | ⟨c₀, watchee, -, -, hd⟩ <;> rw [hd]
      · exact lasts_same hc rfl fun r => by simp
      · refine lasts_update hc rfl (fun _ r => by simp) fun hx => ?_
        subst hx
        exact .demonitor ref
  | register | unregister | registerRouter | unregisterRouter | nodeIndex | remotePid =>
      exact lasts_same (hkept (Or.inl rfl)) rfl fun r => by simp
  | die p' reason =>
      refine lasts_same ?_ rfl fun r => by simp
      rw [step] at hp' ⊢
      rcases die_cases n p' reason with ⟨hd, -⟩ | ⟨c₀, -, -, hd⟩ <;> rw [hd] at hp' ⊢
      · exact hc
      · -- Whoever is alive did not fall.
        rw [lives_fall] at hp'
        split at hp'
        next => exact absurd hp' (by simp)
        next hne => rw [process?_fall, if_neg hne, hc]
  | setFlag p' f value =>
      refine lasts_update hc rfl (fun _ r => by simp) fun hx => ?_
      subst hx
      exact .setFlag f value
  | receive p' r =>
      refine lasts_update hc rfl (fun hne r' h => ?_) fun hx => ?_
      · rw [NodeOp.receive.injEq] at h
        exact hne h.1.symm
      · subst hx
        exact .receive r
  | reorder p' links watchers =>
      refine lasts_update hc rfl (fun _ r => by simp) fun hx => ?_
      subst hx
      exact .reorder links watchers
  | retain p' =>
      refine lasts_update hc rfl (fun _ r => by simp) fun hx => ?_
      subst hx
      exact .retain
  | letGo p' =>
      rw [step, letGo] at hp' ⊢
      rw [process?_reclaim hp']
      refine lasts_update hc rfl (fun _ r => by simp) fun hx => ?_
      subst hx
      exact .letGo
  | handleInHand => exact lasts_handle hn hc ha hp'
  | makeRef | beginTurn => exact lasts_same hc rfl fun r => by simp

/-! ## Runs -/

/-- Who is alive at the end of a run and was there at the start was alive at the start. -/
theorem lives_at_start (hn : n.Coherent) (hc : n.process? p = some c) {ops : List NodeOp}
    (hp' : (n.run ops).lives p = true) : n.lives p = true :=
  (ages_run hn ops).lives (hn.spent p c hc) hp'

/-- Who is alive after an operation and at the start is alive in between. -/
theorem lives_between (hn : n.Coherent) (hp : n.lives p = true) {rest : List NodeOp}
    (hp' : ((n.step op).run rest).lives p = true) : (n.step op).lives p = true := by
  rcases lives_iff.mp hp with ⟨c, hc, -⟩
  exact (ages_run (coherent_step hn op) rest).lives
    ((ages_step hn op).spent _ _ (hn.spent p c hc)) hp'

end Node

end Actors
