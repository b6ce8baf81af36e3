import Actors.Proofs.Node.Batches
import Actors.Proofs.Node.Cascade

/-!
# Nodes That Come Together

Two nodes may differ in one process and in what is queued for it, and still be on
their way to the same state: one of them did at once what the other one has asked
for by a signal. This module shows that the difference is gone when the signal has
been handled, and that until then nobody can have noticed.

Nobody can, since a process is only known by its signals. What its links and its
watchers are shows when it ends, and it cannot end before it has handled a signal.
So everybody else handles the same signals with the same replies, and two nodes
that are `Apart` stay so, or meet. How they meet is said by `Rift`: the one that
waits for a signal catches up when it handles that signal, and if both wait for the
same signal they are the same after it.

The nodes take their signals in batches of their own, and so a step of one of them
is matched by a step of the other up to batches only. The order in which tables are
walked is matched step by step. Of the process itself there is nothing to be put in
another order, as long as no table of it has two entries.

## Main definitions

* `Node.Rift`: How a process may differ between two nodes.
* `Node.Apart`, `Node.Near`: Nodes that differ in one process, or not even in that.
* `Node.SameOutcomes`: Two nodes lead to the same states when they are left alone.

## Theorems

* `handle_update_of_ne`, `reclaim_update_of_ne`: Others do not notice a change.
* `Alike.dispatch`, `Apart.dispatch`: A step of one node is matched by the other.
* `near_run`, `Near.settles`: Nodes that are near each other have the same outcomes.
* `sameOutcomes_of_near`: Both ways, and when the queue is drained.
-/

namespace Actors

/-- A process without a table that could be walked in two orders. -/
def Process.Lone (c : Process) : Prop :=
  c.links.toList.length ≤ 1 ∧ c.monitoredBy.entries.length ≤ 1

/-- A list of one entry has only one order. -/
theorem eq_of_perm_of_short {α : Type} {xs ys : List α} (h : xs.Perm ys) (hys : ys.length ≤ 1) :
    xs = ys := by
  rcases ys with _ | ⟨y, _ | ⟨z, rest⟩⟩
  · exact h.eq_nil
  · exact h.eq_singleton
  · exact absurd hys (by simp)

theorem Process.Lone.reorder {c : Process} (h : c.Lone) (links : PidSet)
    (watchers : Dict Ref Pid) : c.reorder links watchers = c := by
  rcases c.reorder_cases links watchers with hr | ⟨hl, hw, hr⟩
  · exact hr
  · have hlinks : links = c.links := by
      -- A table carries the proof that it has no entry twice, so its list has to be taken out
      -- first.
      rcases hc : c.links with ⟨ps, hps⟩
      rcases links with ⟨qs, hqs⟩
      have heq := eq_of_perm_of_short hl h.1
      rw [hc] at heq
      subst heq
      rfl
    have hwatchers : watchers = c.monitoredBy := by
      rcases hc : c.monitoredBy with ⟨es, hes⟩
      rcases watchers with ⟨fs, hfs⟩
      have heq := eq_of_perm_of_short hw h.2
      rw [hc] at heq
      subst heq
      rfl
    rw [hr, hlinks, hwatchers]

namespace Node

/-- How a process may differ between two nodes, with the signals it has yet to handle
    for the difference to be gone. -/
inductive Rift (p : Pid) : Process → List Delivery → Process → List Delivery → Prop
  /-- The second node waits for a signal that makes up for it. -/
  | ahead {c c' : Process} {d : Delivery} (ht : d.target = p)
      (hr : c'.react d.sender d.signal = .become c) (hh : c.handles ≠ 0) : Rift p c [] c' [d]
  /-- The first node does. -/
  | behind {c c' : Process} {d : Delivery} (ht : d.target = p)
      (hr : c.react d.sender d.signal = .become c') (hh : c'.handles ≠ 0) : Rift p c [d] c' []
  /-- Both wait for a signal that ends the process in the same state. -/
  | both {c c' c₁ : Process} {d : Delivery} {reason : Term} (ht : d.target = p)
      (hr : c.react d.sender d.signal = .die c₁ reason)
      (hr' : c'.react d.sender d.signal = .die c₁ reason) : Rift p c [d] c' [d]

/-- Two nodes that differ in one process and in what is queued for it, after some
    signals that are for others. -/
structure Parted (p : Pid) (c : Process) (sa : List Delivery) (c' : Process)
    (sb before after : List Delivery) (a b : Node) : Prop where
  /-- The difference will be gone. -/
  rift : Rift p c sa c' sb
  /-- The process has no tables to be put in another order. -/
  lone : c.Lone ∧ c'.Lone
  /-- This is the process in the first node. -/
  here : a.process? p = some c
  /-- The second node differs in the process and in the queue only. -/
  there : b = (a.update p fun _ => c').withQueue b.queue
  /-- What is queued in the first node. -/
  signals : a.queue.signals = before ++ (sa ++ after)
  /-- What is queued in the second. -/
  signals' : b.queue.signals = before ++ (sb ++ after)
  /-- First come signals for others. -/
  spared : ∀ d ∈ before, d.target ≠ p

/-- Two nodes that differ in one process and will not for long. -/
def Apart (p : Pid) (a b : Node) : Prop :=
  ∃ c sa c' sb before after, Parted p c sa c' sb before after a b

/-- Two nodes that differ in one process at most. -/
def Near (p : Pid) (a b : Node) : Prop := Apart p a b ∨ Alike a b

/-- Two nodes lead to the same states when they are left alone. -/
structure SameOutcomes (a b : Node) : Prop where
  /-- However the first one settles, the second one can settle in the same way. -/
  forth : ∀ m, a.Settles m → ∃ m', b.Settles m' ∧ Alike m m'
  /-- However the second one settles, the first one can settle in the same way. -/
  back : ∀ m', b.Settles m' → ∃ m, a.Settles m ∧ Alike m m'
  /-- Draining the queue leads to the same state. -/
  drained : Alike a.drain b.drain

variable {p : Pid} {c c' : Process} {sa sb before after : List Delivery} {a b n m : Node}
  {d : Delivery}

/-! ## What others do not notice -/

/-- Changes of two processes, or of one in ways that do not mind each other. -/
theorem update_comm (n : Node) {p q : Pid} {f g : Process → Process}
    (h : p = q → ∀ c, f (g c) = g (f c)) :
    (n.update p f).update q g = (n.update q g).update p f := by
  have hdict : (n.processes.modify p f).modify q g = (n.processes.modify q g).modify p f := by
    simp only [Dict.modify, List.map_map, Dict.mk.injEq]
    refine List.map_congr_left fun e _ => ?_
    simp only [Function.comp_apply]
    -- Only an entry of both processes is changed twice, and then they are the same process.
    by_cases hp : e.1 = p
    · by_cases hq : e.1 = q
      · simp only [hp, hq ▸ hp, if_true]
        rw [h (hp.symm.trans hq)]
      · simp only [if_pos hp, if_neg hq]
    · by_cases hq : e.1 = q
      · simp only [if_pos hq, if_neg hp]
      · simp only [if_neg hq, if_neg hp]
  simp only [update, hdict]

theorem replies_update_of_ne (hne : d.target ≠ p) (f : Process → Process) :
    (n.update p f).replies d = n.replies d := by
  have hsame : (n.update p f).process? d.target = n.process? d.target := by
    rw [process?_update, if_neg hne]
  simp only [replies, hsame, farewellsOf, deliveries_update]

/-- Handling a signal does not mind a change of somebody else. -/
theorem handle_update_of_ne (hne : d.target ≠ p) (f : Process → Process) :
    (n.update p f).handle d = (n.handle d).update p f := by
  have hsame : (n.update p f).process? d.target = n.process? d.target := by
    rw [process?_update, if_neg hne]
  have hcomm : ∀ g, (n.update p f).update d.target g = (n.update d.target g).update p f :=
    fun g => update_comm n fun heq => absurd heq.symm hne
  rcases hc : n.process? d.target with _ | c
  · rw [handle_of_none hc, handle_of_none (hsame.trans hc)]
  · -- The reaction is the same, and changes the target only.
    rw [handle_eq hc, handle_eq (hsame.trans hc)]
    rcases c.react d.sender d.signal with c' | ⟨c', reason⟩ | s
    · exact hcomm _
    · simp only [fall, hcomm, farewellsOf, deliveries_update]
      rfl
    · simp only [deliveries_update]
      rfl

theorem process?_handle_of_ne (hne : p ≠ d.target) : (n.handle d).process? p = n.process? p := by
  rcases hc : n.process? d.target with _ | c
  · rw [handle_of_none hc]
  · rcases handle_cases hc with ⟨-, hh⟩ | ⟨-, c', -, hh⟩ | ⟨-, reason, -, -, hh⟩ <;> rw [hh]
    · rfl
    · rw [process?_update, if_neg hne]
    · rw [process?_fall, if_neg hne]

/-- Letting go of a process does not mind a change of somebody else. -/
theorem reclaim_update_of_ne {x : Pid} (hne : x ≠ p) (f : Process → Process) :
    (n.update p f).reclaim x = (n.reclaim x).update p f := by
  have hsame : (n.update p f).process? x = n.process? x := by rw [process?_update, if_neg hne]
  -- Both go through the list of processes, at different keys.
  have hforget : (n.processes.modify p f).erase x = (n.processes.erase x).modify p f := by
    simp only [Dict.modify, Dict.erase, Dict.filter, Dict.mk.injEq, List.filter_map]
    refine congrArg (List.map _) (List.filter_congr fun e _ => ?_)
    simp only [Function.comp_apply]
    split <;> rfl
  rcases hc : n.process? x with _ | c
  · simp only [reclaim, hsame, hc]
  · simp only [reclaim, hsame, hc]
    rw [show (n.update p f).queue = n.queue from rfl]
    by_cases hheld : c.handles = 0 ∧ n.queue.targets x = false
    · rw [if_pos hheld, if_pos hheld]
      rcases c.isAlive with _ | _ <;> simp only [update, hforget] <;> rfl
    · rw [if_neg hheld, if_neg hheld]

/-! ## One signal -/

/-- The signal that waits longest is the one that is handled. -/
theorem handleNext_of_signals (hb : 0 < n.queue.batch) {rest : List Delivery}
    (hs : n.queue.signals = d :: rest) :
    ∃ q, q.signals = rest ∧ n.handleNext = ((n.withQueue q).handle d).reclaim d.target := by
  have htaken : ∀ {m : Node}, m.queue.signals = d :: rest → m.queue.inHand ≠ [] →
      ∃ q, q.signals = rest ∧ m.handleInHand = ((m.withQueue q).handle d).reclaim d.target := by
    intro m hm hhand
    rcases next?_of_inHand_ne_nil hhand with ⟨e, q, hq⟩
    rw [Dispatcher.signals_of_next? hq, List.cons.injEq] at hm
    refine ⟨q, hm.2, ?_⟩
    rw [handleInHand_of_next hq, hm.1]
  rw [handleNext]
  split
  next hempty =>
    -- The batch that is taken begins with what waits longest.
    exact htaken ((signals_beginTurn n).trans hs)
      (inHand_beginTurn hb (by rw [hs]; exact List.cons_ne_nil d rest)
        (List.isEmpty_iff.mp hempty))
  next hhand => exact htaken hs fun hnil => hhand (List.isEmpty_iff.mpr hnil)

theorem Rift.symm (h : Rift p c sa c' sb) : Rift p c' sb c sa := by
  cases h with
  | ahead ht hr hh => exact .behind ht hr hh
  | behind ht hr hh => exact .ahead ht hr hh
  | both ht hr hr' => exact .both ht hr' hr

theorem Rift.targets (h : Rift p c sa c' sb) {e : Delivery} (he : e ∈ sa) : e.target = p := by
  cases h with
  | ahead => exact absurd he List.not_mem_nil
  | behind ht | both ht =>
      rw [List.mem_singleton.mp he]
      exact ht

theorem Parted.symm (h : Parted p c sa c' sb before after a b) :
    Parted p c' sb c sa before after b a := by
  refine ⟨h.rift.symm, h.lone.symm, ?_, ?_, h.signals', h.signals, h.spared⟩
  · rw [h.there]
    exact process?_update_self h.here fun _ => c'
  · -- The change is taken back.
    have hback : (a.update p fun _ => c').update p (fun _ => c) = a := by
      rw [update_update]
      exact update_id h.here
    rw [h.there]
    change a = ((a.update p fun _ => c').update p fun _ => c).withQueue a.queue
    rw [hback]
    rfl

/-- A signal for somebody else is handled in both nodes, and they are as far apart as before. -/
theorem Parted.handle (h : Parted p c sa c' sb (d :: before) after a b) {qa qb : Dispatcher}
    (hqa : qa.signals = before ++ (sa ++ after)) (hqb : qb.signals = before ++ (sb ++ after)) :
    Parted p c sa c' sb before (after ++ (a.withQueue qa).replies d)
      (((a.withQueue qa).handle d).reclaim d.target)
      (((b.withQueue qb).handle d).reclaim d.target) := by
  have hne : d.target ≠ p := h.spared d List.mem_cons_self
  generalize hx : a.withQueue qa = x
  have hxq : x.queue = qa := by rw [← hx]; rfl
  have hhandle : (b.withQueue qb).handle d = ((x.handle d).update p fun _ => c').withQueue
      ((x.replies d).foldl .enqueue qb) := by
    have hbx : b.withQueue qb = (x.update p fun _ => c').withQueue qb := by rw [h.there, ← hx]; rfl
    rw [hbx, handle_withQueue, handle_update_of_ne hne, replies_update_of_ne hne]
  have hqx : (x.handle d).queue.signals = qa.signals ++ x.replies d := by
    rw [queue_handle, signals_queueAll, hxq]
  have hqx' : ((x.replies d).foldl .enqueue qb).signals = qb.signals ++ x.replies d :=
    signals_queueAll (x.withQueue qb) (x.replies d)
  -- What only one of the nodes has queued is not for the target.
  have htargets : ((x.replies d).foldl .enqueue qb).targets d.target =
      ((x.handle d).update p fun _ => c').queue.targets d.target := by
    have hnot : ∀ e, e.target = d.target → e ∉ sa ∧ e ∉ sb := fun e he =>
      ⟨fun hmem => hne (he.symm.trans (h.rift.targets hmem)),
        fun hmem => hne (he.symm.trans (h.rift.symm.targets hmem))⟩
    rw [Bool.eq_iff_iff, targets_iff, targets_iff, hqx']
    change _ ↔ ∃ e ∈ (x.handle d).queue.signals, e.target = d.target
    rw [hqx, hqa, hqb]
    refine exists_congr fun e => and_congr_left fun he => ?_
    simp only [List.mem_append, hnot e he, false_or]
  have hreclaim : ((b.withQueue qb).handle d).reclaim d.target =
      (((x.handle d).reclaim d.target).update p fun _ => c').withQueue
        ((x.replies d).foldl .enqueue qb) := by
    rw [hhandle, reclaim_withQueue htargets, reclaim_update_of_ne hne]
  refine ⟨h.rift, h.lone, ?_, ?_, ?_, ?_, fun e he => h.spared e (List.mem_cons_of_mem d he)⟩
  · rw [process?_reclaim_of_ne hne.symm, process?_handle_of_ne hne.symm, ← hx]
    exact h.here
  · rw [hreclaim]
    rfl
  · rw [queue_reclaim, hqx, hqa]
    simp only [List.append_assoc]
  · rw [hreclaim]
    change ((x.replies d).foldl Dispatcher.enqueue qb).signals = _
    rw [hqx', hqb]
    simp only [List.append_assoc]

/-- The node that waited for a signal handles it, and there is no difference any more. -/
theorem Parted.catchUp (h : Parted p c [d] c' [] [] after a b) {q : Dispatcher}
    (hq : q.signals = after) : Alike (((a.withQueue q).handle d).reclaim d.target) b := by
  -- Only the first node waits, so what the signal makes of its process is in the second.
  rcases h.rift with _ | ⟨rfl, hr, hh⟩
  have hc : (a.withQueue q).process? d.target = some c := h.here
  have hhandle : (a.withQueue q).handle d = (a.withQueue q).update d.target fun _ => c' := by
    rw [handle_eq hc, hr]
  -- Somebody has a handle to it, so it stays.
  rw [hhandle, reclaim_of_handles (process?_update_self hc fun _ => c') hh]
  refine ⟨?_, ?_⟩
  · rw [h.signals']
    exact hq.symm
  · rw [h.there]
    rfl

/-- Both nodes handle the signal that ends the process, and are the same then. -/
theorem Parted.meet (h : Parted p c [d] c' [d] [] after a b) {qa qb : Dispatcher}
    (hqa : qa.signals = after) (hqb : qb.signals = after) :
    Alike (((a.withQueue qa).handle d).reclaim d.target)
      (((b.withQueue qb).handle d).reclaim d.target) := by
  rcases h.rift with _ | _ | ⟨rfl, hr, hr'⟩
  refine Alike.reclaim ?_ d.target
  have hc : (a.withQueue qb).process? d.target = some c := h.here
  have hsame : (b.withQueue qb).handle d = (a.withQueue qb).handle d := by
    have hb : b.withQueue qb = (a.withQueue qb).update d.target fun _ => c' := by
      rw [h.there]
      rfl
    rw [hb, handle_eq hc, handle_eq (process?_update_self hc fun _ => c'), hr, hr']
    -- Its end does not depend on what it was before.
    simp only [fall, update_update, farewellsOf, deliveries_update]
  rw [hsame]
  exact (alike_withQueue a (hqb.trans hqa.symm)).handle d

/-! ## One step of a node -/

theorem Alike.dispatch (h : Alike a b) (hb : 0 < b.queue.batch) {op : NodeOp}
    (hop : op.isDispatch = true) :
    ∃ ops : List NodeOp, (∀ op' ∈ ops, op'.isTurn = true ∨ op' = op) ∧
      Alike (a.step op) (b.run ops) := by
  cases op with
  | beginTurn =>
      -- A batch that is taken is no difference.
      exact ⟨[], fun _ h => absurd h List.not_mem_nil, (alike_beginTurn a).symm.trans h⟩
  | handleInHand =>
      rcases handleInHand_cases a with ⟨-, hi⟩ | ⟨d, q, hq, hs, hi⟩
      · exact ⟨[], fun _ h => absurd h List.not_mem_nil, by rwa [step, hi]⟩
      · rcases handleNext_of_signals hb (h.1.trans hs) with ⟨q', hq', hnext⟩
        refine ⟨b.nextOps, fun _ hop' => Or.inl (isTurn_nextOps hop'), ?_⟩
        rw [step, hi, ← handleNext_eq_run, hnext]
        refine Alike.reclaim (Alike.handle ?_ d) d.target
        rw [h.2]
        exact alike_withQueue a hq'
  | reorder x links watchers =>
      refine ⟨[.reorder x links watchers], fun _ hop' => Or.inr (List.mem_singleton.mp hop'), ?_⟩
      rw [run_cons, run_nil, step, step, h.2]
      exact ⟨h.1, rfl⟩
  | _ => exact absurd hop (by simp [NodeOp.isDispatch])

theorem Parted.beginTurn (h : Parted p c sa c' sb before after a b) :
    Parted p c sa c' sb before after a.beginTurn b :=
  ⟨h.rift, h.lone, h.here, h.there, (signals_beginTurn a).trans h.signals, h.signals', h.spared⟩

theorem Parted.reorder (h : Parted p c sa c' sb before after a b) {x : Pid} (hx : p ≠ x)
    (links : PidSet) (watchers : Dict Ref Pid) :
    Parted p c sa c' sb before after (a.update x (·.reorder links watchers))
      (b.update x (·.reorder links watchers)) := by
  refine ⟨h.rift, h.lone, ?_, ?_, h.signals, h.signals', h.spared⟩
  · rw [process?_update, if_neg hx]
    exact h.here
  · have hcomm := update_comm a (p := p) (q := x) (f := fun _ => c')
      (g := (·.reorder links watchers)) fun heq => absurd heq hx
    rw [← hcomm, h.there]
    rfl

/-- The first node handles a signal. If it is for somebody else the other one handles it, too;
    if not, the difference is gone. -/
theorem Parted.handleInHand (h : Parted p c sa c' sb before after a b) (hb : 0 < b.queue.batch)
    {q : Dispatcher} (hs : a.queue.signals = d :: q.signals)
    (hi : a.handleInHand = ((a.withQueue q).handle d).reclaim d.target) :
    ∃ ops : List NodeOp, (∀ op ∈ ops, op.isTurn = true ∨ op = .handleInHand) ∧
      Near p (a.step .handleInHand) (b.run ops) := by
  have hturns : ∀ op ∈ b.nextOps, op.isTurn = true ∨ op = .handleInHand :=
    fun _ hop => Or.inl (isTurn_nextOps hop)
  have hs' := hs.symm.trans h.signals
  rcases before with _ | ⟨e, before⟩
  · rcases hrift : h.rift with ⟨ht, hr, hh⟩ | ⟨ht, hr, hh⟩ | ⟨ht, hr, hr'⟩
    · -- The other node catches up, and then both handle the same signal.
      rcases handleNext_of_signals hb h.signals' with ⟨q', hq', hnext⟩
      have hmet := (h.symm.catchUp hq').symm
      rw [← hnext, handleNext_eq_run] at hmet
      have hop : NodeOp.handleInHand.isDispatch = true := rfl
      rcases hmet.dispatch (by rwa [batch_run fun _ => isTurn_nextOps]) hop with
        ⟨ops, hops, halike⟩
      refine ⟨b.nextOps ++ ops, fun op hop => ?_, Or.inr ?_⟩
      · exact (List.mem_append.mp hop).elim (hturns op) (hops op)
      · rwa [run_append]
    · -- This node catches up, and the other one need not do anything.
      rw [List.nil_append, List.singleton_append, List.cons.injEq] at hs'
      refine ⟨[], fun _ h => absurd h List.not_mem_nil, Or.inr ?_⟩
      rw [step, hi, hs'.1]
      exact h.catchUp hs'.2
    · rcases handleNext_of_signals hb h.signals' with ⟨q', hq', hnext⟩
      rw [List.nil_append, List.singleton_append, List.cons.injEq] at hs'
      refine ⟨b.nextOps, hturns, Or.inr ?_⟩
      rw [step, hi, hs'.1, ← handleNext_eq_run, hnext]
      exact h.meet hs'.2 hq'
  · rcases handleNext_of_signals hb h.signals' with ⟨q', hq', hnext⟩
    rw [List.cons_append, List.cons.injEq] at hs'
    have hstep := h.handle hs'.2 hq'
    rw [← hnext, handleNext_eq_run, ← hs'.1, ← hi] at hstep
    exact ⟨b.nextOps, hturns, Or.inl ⟨_, _, _, _, _, _, hstep⟩⟩

/-- A step of one node is matched by the other. They stay apart in the same way, or meet. -/
theorem Apart.dispatch (h : Apart p a b) (hb : 0 < b.queue.batch) {op : NodeOp}
    (hop : op.isDispatch = true) :
    ∃ ops : List NodeOp, (∀ op' ∈ ops, op'.isTurn = true ∨ op' = op) ∧
      Near p (a.step op) (b.run ops) := by
  rcases h with ⟨c, sa, c', sb, before, after, h⟩
  have hstill : Near p a b := Or.inl ⟨c, sa, c', sb, before, after, h⟩
  cases op with
  | beginTurn =>
      exact ⟨[], fun _ h => absurd h List.not_mem_nil, Or.inl ⟨_, _, _, _, _, _, h.beginTurn⟩⟩
  | reorder x links watchers =>
      by_cases hx : p = x
      · -- There is only one order.
        have hsame : a.step (.reorder x links watchers) = a := by
          have hup : a.update p (·.reorder links watchers) = a.update p fun _ => c :=
            update_congr h.here (h.lone.1.reorder links watchers)
          rw [step, ← hx, hup, update_id h.here]
        exact ⟨[], fun _ h => absurd h List.not_mem_nil, by rwa [hsame]⟩
      · exact ⟨[.reorder x links watchers], fun _ hop' => Or.inr (List.mem_singleton.mp hop'),
          Or.inl ⟨_, _, _, _, _, _, h.reorder hx links watchers⟩⟩
  | handleInHand =>
      rcases handleInHand_cases a with ⟨-, hi⟩ | ⟨d, q, -, hs, hi⟩
      · exact ⟨[], fun _ h => absurd h List.not_mem_nil, by rwa [step, hi]⟩
      · exact h.handleInHand hb hs hi
  | _ => exact absurd hop (by simp [NodeOp.isDispatch])

/-! ## All steps of a node -/

theorem Near.symm (h : Near p a b) : Near p b a := by
  rcases h with ⟨c, sa, c', sb, before, after, h⟩ | h
  · exact Or.inl ⟨c', sb, c, sa, before, after, h.symm⟩
  · exact Or.inr h.symm

theorem Near.dispatch (h : Near p a b) (hb : 0 < b.queue.batch) {op : NodeOp}
    (hop : op.isDispatch = true) :
    ∃ ops : List NodeOp, (∀ op' ∈ ops, op'.isTurn = true ∨ op' = op) ∧
      Near p (a.step op) (b.run ops) := by
  rcases h with h | h
  · exact h.dispatch hb hop
  · rcases h.dispatch hb hop with ⟨ops, hops, halike⟩
    exact ⟨ops, hops, Or.inr halike⟩

theorem batch_of_dispatch {ops : List NodeOp} (hops : ∀ op ∈ ops, op.isDispatch = true) :
    (n.run ops).queue.batch = n.queue.batch := by
  induction ops generalizing n with
  | nil => rfl
  | cons op rest ih =>
      rw [run_cons, ih fun op' hop' => hops op' (List.mem_cons_of_mem op hop')]
      have hop := hops op List.mem_cons_self
      cases op with
      | beginTurn => exact batch_beginTurn n
      | handleInHand => exact batch_handleInHand n
      | reorder => rfl
      | _ => exact absurd hop (by simp [NodeOp.isDispatch])

/-- What happens in one node can happen in the other. If only a task is at work in the one,
    then only a task is at work in the other. -/
theorem near_run (h : Near p a b) (hb : 0 < b.queue.batch) {ops : List NodeOp}
    (hops : ∀ op ∈ ops, op.isDispatch = true) :
    ∃ ops' : List NodeOp, (∀ op ∈ ops', op.isDispatch = true) ∧
      ((∀ op ∈ ops, op.isTurn = true) → ∀ op ∈ ops', op.isTurn = true) ∧
      Near p (a.run ops) (b.run ops') := by
  -- Each operation of the one node is matched by some of the other, so induct on the first run.
  induction ops generalizing a b with
  | nil => exact ⟨[], hops, fun hturns => hturns, h⟩
  | cons op rest ih =>
      have hop := hops op List.mem_cons_self
      rcases h.dispatch hb hop with ⟨first, hfirst, hstep⟩
      have hdispatch : ∀ op' ∈ first, op'.isDispatch = true := fun op' hop' =>
        (hfirst op' hop').elim isDispatch_of_isTurn fun heq => heq ▸ hop
      rcases ih hstep (by rwa [batch_of_dispatch hdispatch])
        (fun op' hop' => hops op' (List.mem_cons_of_mem op hop')) with ⟨ops', hops', hturn, hrun⟩
      refine ⟨first ++ ops', fun op' hop' => ?_, fun hturns op' hop' => ?_, ?_⟩
      · exact (List.mem_append.mp hop').elim (hdispatch op') (hops' op')
      · rcases List.mem_append.mp hop' with hop' | hop'
        · exact (hfirst op' hop').elim id fun heq => heq ▸ hturns op List.mem_cons_self
        · exact hturn (fun op₁ hop₁ => hturns op₁ (List.mem_cons_of_mem op hop₁)) op' hop'
      · rwa [run_cons, run_append]

/-- When one node has nothing more to handle, the other has at most its difference left. -/
theorem Near.finish (h : Near p a b) (hb : 0 < b.queue.batch) (hdry : a.queue.signals = []) :
    ∃ ops : List NodeOp, (∀ op ∈ ops, op.isTurn = true) ∧ Alike a (b.run ops) := by
  rcases h with ⟨c, sa, c', sb, before, after, h⟩ | h
  · rw [h.signals, List.append_eq_nil_iff, List.append_eq_nil_iff] at hdry
    rcases hdry with ⟨rfl, rfl, rfl⟩
    -- Only the other node can still be waiting.
    rcases h.rift with ⟨ht, hr, hh⟩
    rcases handleNext_of_signals hb h.signals' with ⟨q', hq', hnext⟩
    refine ⟨b.nextOps, fun _ => isTurn_nextOps, ?_⟩
    rw [← handleNext_eq_run, hnext]
    exact (h.symm.catchUp hq').symm
  · exact ⟨[], fun _ h => absurd h List.not_mem_nil, h⟩

/-- However one node settles, the other can settle in the same way. -/
theorem Near.settles (h : Near p a b) (hb : 0 < b.queue.batch) {ops : List NodeOp}
    (hops : ∀ op ∈ ops, op.isDispatch = true) (hdry : (a.run ops).queue.signals = []) :
    ∃ ops' : List NodeOp, (∀ op ∈ ops', op.isDispatch = true) ∧
      ((∀ op ∈ ops, op.isTurn = true) → ∀ op ∈ ops', op.isTurn = true) ∧
      Alike (a.run ops) (b.run ops') := by
  rcases near_run h hb hops with ⟨ops', hops', hturn, hnear⟩
  rcases hnear.finish (by rwa [batch_of_dispatch hops']) hdry with ⟨last, hlast, halike⟩
  refine ⟨ops' ++ last, fun op hop => ?_, fun hturns op hop => ?_, ?_⟩
  · exact (List.mem_append.mp hop).elim (hops' op) fun hop => isDispatch_of_isTurn (hlast op hop)
  · exact (List.mem_append.mp hop).elim (hturn hturns op) (hlast op)
  · rwa [run_append]

/-- A task that empties the queue leads to the drained node. -/
theorem alike_drain (hb : 0 < n.queue.batch) {ops : List NodeOp}
    (hops : ∀ op ∈ ops, op.isTurn = true) (hdry : (n.run ops).queue.signals = []) :
    Alike n.drain (n.run ops) := by
  have hbatch : n.withBatch n.queue.batch = n := by
    rw [withBatch, Nat.max_eq_left hb]
    rfl
  -- Both are what handling the signals one by one leads to.
  have hone : ∀ {ops' : List NodeOp}, (∀ op ∈ ops', op.isTurn = true) →
      (n.run ops').queue.signals = [] → Alike (handleEach n.drainBound n) (n.run ops') := by
    intro ops' hops' hdry'
    have halike : ((n.withBatch n.queue.batch).run ops').queue.signals = [] →
        Alike (handleEach n.drainBound n) ((n.withBatch n.queue.batch).run ops') :=
      alike_of_dry hops'
    rw [hbatch] at halike
    exact halike hdry'
  rcases drain_eq_turns n with ⟨turns, hturns, hdrain⟩
  have hquiet := signals_drain hb
  rw [hdrain] at hquiet ⊢
  exact (hone hturns hquiet).symm.trans (hone hops hdry)

/-- Nodes that are near each other lead to the same states. -/
theorem sameOutcomes_of_near (h : Near p a b) (ha : 0 < a.queue.batch) (hb : 0 < b.queue.batch) :
    SameOutcomes a b := by
  refine ⟨?_, ?_, ?_⟩
  · rintro m ⟨ops, hops, rfl, hdry⟩
    rcases h.settles hb hops hdry with ⟨ops', hops', -, halike⟩
    exact ⟨_, ⟨ops', hops', rfl, halike.1.trans hdry⟩, halike⟩
  · rintro m ⟨ops, hops, rfl, hdry⟩
    rcases h.symm.settles ha hops hdry with ⟨ops', hops', -, halike⟩
    exact ⟨_, ⟨ops', hops', rfl, halike.1.trans hdry⟩, halike.symm⟩
  · -- The drained state is the one a task settles in, so a task of the other node gets there, too.
    rcases drain_eq_turns a with ⟨turns, hturns, hdrain⟩
    have hquiet := signals_drain ha
    rw [hdrain] at hquiet ⊢
    rcases h.settles hb (fun op hop => isDispatch_of_isTurn (hturns op hop)) hquiet with
      ⟨ops', -, hturn, halike⟩
    exact halike.trans (alike_drain hb (hturn hturns) (halike.1.trans hquiet)).symm

end Node

end Actors
