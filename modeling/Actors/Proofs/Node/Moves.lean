import Actors.Proofs.Dict
import Actors.Proofs.Node.Coherence

/-!
# Operations as Moves

Two dozen things can happen to a node, and nearly all of them are put together
from eight moves. This module says once which moves an operation makes. A law
about runs is then a matter of the eight moves, and of the three operations
that are not made of them: `die`, which ends a process, `handleInHand`, which
takes a signal from the queue, and `letGo`, which takes a handle away.

A move also says which monitors it may be about. The monitors an operation is
about, `concerns`, are few: the one it makes, the one it ends, or the one that
the signal it sends is about. For all other references the two tables of
monitors and the queue stay as they are.

## Main definitions

* `Process.Edit`: A change of a process that keeps it alive or dead.
* `Node.Move`: A single move of a node.
* `Node.Moves`: Some moves, one after the other.
* `Node.concerns`: The monitors an operation is about.

## Theorems

* `Moves.induction_coherent`: What every move keeps, some moves keep.
* `moves_step`: What operations are made of.
* `coherent_step`: Every operation keeps the tables of a node in agreement.
* `run_new_induction`: What every operation keeps holds of every run.
-/

namespace Actors

namespace Process

/-- A change of a process that keeps it alive or dead. It concerns the monitors
    of some references only. -/
inductive Edit (K : Ref → Prop) (c : Process) : Process → Prop
  | setFlag (f : ProcessFlag) (value : Bool) : Edit K c (c.setFlag f value)
  | serve (r : Receive Term) : Edit K c (c.serve r)
  | reorder (links : PidSet) (watchers : Dict Ref Pid) : Edit K c (c.reorder links watchers)
  | retain : Edit K c { c with handles := c.handles + 1 }
  | track (ref : Ref) (watchee : Pid) (hk : K ref) : Edit K c (c.trackMonitor ref watchee)
  | forgetMonitor (ref : Ref) (hk : K ref) : Edit K c { c with monitors := c.monitors.erase ref }
  | presetLink (linked : Pid) (hf : c = .fresh) :
      Edit K c { c with links := c.links.insert linked }
  | presetWatcher (ref : Ref) (watcher : Pid) (hf : c = .fresh) (hk : K ref) :
      Edit K c { c with monitoredBy := c.monitoredBy.insert ref watcher }

variable {K : Ref → Prop} {c c' : Process}

theorem ne_of_concern {r ref : Ref} (hr : ¬ K r) (hk : K ref) : r ≠ ref := by
  rintro rfl
  exact hr hk

/-- No edit ends a process or wakes one. -/
theorem Edit.life (h : Edit K c c') : c'.life = c.life := by
  cases h with
  | setFlag f value => cases f; rfl
  | reorder links watchers => exact c.life_reorder links watchers
  | track ref watchee =>
      rw [trackMonitor]
      split <;> rfl
  | _ => rfl

/-- No edit takes the last handle away, so nobody can be forgotten because of one. -/
theorem Edit.handles (h : Edit K c c') (hpos : c.handles ≠ 0) : c'.handles ≠ 0 := by
  cases h with
  | setFlag f value => cases f; exact hpos
  | reorder links watchers => rwa [handles_reorder]
  | retain => exact Nat.succ_ne_zero c.handles
  | track ref watchee =>
      rw [trackMonitor]
      split <;> exact hpos
  | _ => exact hpos

/-- An edit leaves an open process open and an ended one ended. -/
theorem Edit.sound (h : Edit K c c') (hs : c.Sound) : c'.Sound := by
  cases h with
  | setFlag f value => exact sound_setFlag hs f value
  | serve r => exact sound_serve hs r
  | reorder links watchers => exact sound_reorder hs links watchers
  | retain => exact sound_handles hs _
  | track ref watchee => exact sound_trackMonitor hs ref watchee
  | forgetMonitor ref => exact sound_forgetMonitor hs ref
  -- What is entered for a newborn is entered before it can have ended.
  | presetLink linked hf =>
      subst hf
      exact sound_of_alive rfl rfl rfl
  | presetWatcher ref watcher hf =>
      subst hf
      exact sound_of_alive rfl rfl rfl

/-- What a process watches under a reference that the change does not concern. -/
theorem Edit.monitors (h : Edit K c c') {r : Ref} (hr : ¬ K r) :
    c'.monitors.get? r = c.monitors.get? r := by
  cases h with
  | setFlag f value => cases f; rfl
  | reorder links watchers =>
      rcases reorder_cases c links watchers with h | ⟨-, -, h⟩ <;> rw [h]
  | track ref watchee hk =>
      rw [trackMonitor]
      split
      · exact Dict.get?_insert_of_ne _ _ (ne_of_concern hr hk)
      · rfl
  | forgetMonitor ref hk =>
      exact Dict.get?_erase_of_ne _ (ne_of_concern hr hk)
  | _ => rfl

/-- Who watches a process under a reference that the change does not concern. -/
theorem Edit.monitoredBy (h : Edit K c c') {r : Ref} (hr : ¬ K r) :
    c'.monitoredBy.get? r = c.monitoredBy.get? r := by
  cases h with
  | setFlag f value => cases f; rfl
  | reorder links watchers =>
      rcases reorder_cases c links watchers with h | ⟨-, hw, h⟩ <;> rw [h]
      exact Dict.get?_of_perm hw r
  | track ref watchee =>
      rw [trackMonitor]
      split <;> rfl
  | presetWatcher ref watcher hf hk =>
      exact Dict.get?_insert_of_ne _ _ (ne_of_concern hr hk)
  | _ => rfl

end Process

namespace Node

/-- A single move of a node. The monitors it is about are among some references. -/
inductive Move (K : Ref → Prop) (n : Node) : Node → Prop
  /-- Signals are queued for living processes. -/
  | queue (ds : List Delivery) (hlives : ∀ d ∈ ds, n.lives d.target = true)
      (href : ∀ d ∈ ds, ∀ r, d.signal.ref? = some r → K r) : Move K n (n.queueAll ds)
  /-- A process changes. -/
  | edit (p : Pid) (f : Process → Process)
      (hf : ∀ c, n.process? p = some c → Process.Edit K c (f c)) : Move K n (n.update p f)
  /-- A reference is made. -/
  | countRef : Move K n n.countRef
  /-- A process name is made that no process will have. -/
  | mint (id serial : UInt32) (table : ProcessTable)
      (hm : n.table.mint = (.ok (id, serial), table)) : Move K n { n with table }
  /-- A process is made. -/
  | insert (id serial : UInt32) (table : ProcessTable)
      (hi : n.table.insert = (.ok (id, serial), table)) :
      Move K n (n.addProcess (.ofSlot id serial n.creation) table)
  /-- The registered names change. -/
  | names (names : NameRegistry)
      (h : ∀ name p, names.whereis name = some p → isValidName name = true ∧ n.lives p = true) :
      Move K n { n with names }
  /-- The routes change. -/
  | routers (routers : RouterTable)
      (h : ∀ node route, route ∈ routers.routesTo node → n.lives route.router = true) :
      Move K n { n with routers }
  /-- The draining task takes a batch, or ends. -/
  | beginTurn : Move K n n.beginTurn

/-- Some moves, one after the other. -/
inductive Moves (K : Ref → Prop) : Node → Node → Prop
  | none (n : Node) : Moves K n n
  | snoc {n n' n'' : Node} (hs : Moves K n n') (h : Move K n' n'') : Moves K n n''

variable {K : Ref → Prop} {n n' : Node}

/-- One move is some moves. -/
theorem Move.single (h : Move K n n') : Moves K n n' := .snoc (.none n) h

/-- What every move keeps, some moves keep. -/
theorem Moves.induction {P : Node → Prop} (hs : Moves K n n')
    (hmove : ∀ m m', Move K m m' → P m → P m') (h : P n) : P n' := by
  -- Over the moves. It has to be every move of every state, since nothing is known about those in
  -- between.
  induction hs with
  | none => exact h
  | snoc _ hm ih => exact hmove _ _ hm ih

/-! ## Moves keep the tables in agreement -/

/-- Every move keeps the tables in agreement. What makes a move possible is at the same time what
    the agreement asks for: living targets, a name that the table gave out, holders and routers that
    are alive. -/
theorem coherent_move (hm : Move K n n') (h : n.Coherent) : n'.Coherent := by
  cases hm with
  | queue ds hlives => exact h.queueAll hlives
  | edit p f hf => exact h.update fun c hc => ⟨(hf c hc).life, (hf c hc).sound⟩
  | countRef => exact h.countRef
  | mint id serial table hmint => exact h.mint hmint
  | insert id serial table hi => exact h.addProcess hi
  | names names hn =>
      exact ⟨h.table, h.own, h.sound, h.spent, h.slot, h.owner, hn, h.routes, h.targets⟩
  | routers routers hr =>
      exact ⟨h.table, h.own, h.sound, h.spent, h.slot, h.owner, h.names, hr, h.targets⟩
  | beginTurn =>
      refine h.withQueue (q := n.queue.beginTurn) fun d hd => ?_
      rwa [Dispatcher.signals_beginTurn] at hd

/-- And so do some of them. -/
theorem coherent_moves (hs : Moves K n n') (h : n.Coherent) : n'.Coherent :=
  hs.induction (fun _ _ hm hc => coherent_move hm hc) h

/-- What every move of a node in agreement keeps, some moves keep. -/
theorem Moves.induction_coherent {P : Node → Prop} (hs : Moves K n n') (hn : n.Coherent)
    (hmove : ∀ m m', m.Coherent → Move K m m' → P m → P m') (h : P n) : P n' := by
  have hboth := hs.induction (P := fun m => m.Coherent ∧ P m)
    (fun m m' hm hh => ⟨coherent_move hm hh.1, hmove m m' hh.1 hm hh.2⟩) ⟨hn, h⟩
  exact hboth.2

/-! ## What operations are made of -/

/-- The monitors an operation is about. -/
def concerns (n : Node) : NodeOp → Ref → Prop
  | .monitor _ _ => fun r => r = n.nextRef
  | .spawnMonitor _ => fun r => r = n.nextRef
  | .demonitor _ ref => fun r => r = ref
  | .signal _ s _ => fun r => s.ref? = some r
  | _ => fun _ => False

/-- Some moves and then some more are some moves. -/
theorem Moves.trans {n'' : Node} (hs : Moves K n n') (hs' : Moves K n' n'') : Moves K n n'' := by
  induction hs' with
  | none => exact hs
  | snoc _ hm ih => exact .snoc ih hm

/-- To send is one move, about the monitor that the signal is about. -/
theorem move_deliveries (h : n.Coherent) {sender : Pid} {s : Signal} {target : Dest}
    (hs : ∀ r, s.ref? = some r → K r) : Move K n (n.queueAll (n.deliveries sender s target)) := by
  refine .queue _ (fun d hd => h.lives_of_delivery hd) fun d hd r hr => ?_
  rcases ref?_of_mem_deliveries hd with heq | heq
  · exact hs r (heq ▸ hr)
  · -- A signal in an envelope is about no monitor of this node.
    exact absurd (heq.symm.trans hr) (by simp)

/-- A watcher that is in reach makes an entry, and one that is not makes none. -/
theorem moves_track (n : Node) (watcher : Pid) {ref : Ref} (watchee : Pid) (hk : K ref) :
    Moves K n (n.track watcher ref watchee) := by
  rcases track_cases n watcher ref watchee with ht | ht <;> rw [ht]
  · exact .none n
  · exact (Move.edit watcher _ fun c _ => .track ref watchee hk).single

/-- A birth is one move, and the newborn is a fresh process. -/
theorem move_makeProcess {p : Pid} (hm : n.makeProcess = (.ok p, n')) :
    Move K n n' ∧ n'.process? p = some .fresh := by
  rcases makeProcess_ok hm with ⟨id, serial, table, hi, rfl, rfl⟩
  exact ⟨.insert id serial table hi, by rw [process?_addProcess, if_pos rfl]⟩

/-- To link is to send one signal, or two, or none. -/
theorem moves_link (h : n.Coherent) (a b : Pid) : Moves K n (n.link a b) := by
  rw [link_eq, linkDeliveries]
  split
  next => exact .none n
  next =>
    split
    next => exact (move_deliveries h fun r hr => absurd hr (by simp [Signal.ref?])).single
    next =>
      rw [queueAll_append]
      have hfirst : Move K n (n.queueAll (n.deliveries a .link (.pid b))) :=
        move_deliveries h fun r hr => absurd hr (by simp [Signal.ref?])
      refine .snoc hfirst.single ?_
      -- Queued signals have no say in where others go, so the second one goes where it would alone.
      rw [← deliveries_queueAll n (n.deliveries a .link (.pid b)) b]
      exact move_deliveries (coherent_move hfirst h) fun r hr => absurd hr (by simp [Signal.ref?])

/-- To unlink is to send two signals. The second one is resolved when the first is queued
    already. -/
theorem moves_unlink (h : n.Coherent) (a b : Pid) : Moves K n (n.unlink a b) := by
  rw [unlink_eq, queueAll_append]
  have hfirst : Move K n (n.queueAll (n.deliveries a .unlink (.pid b))) :=
    move_deliveries h fun r hr => absurd hr (by simp [Signal.ref?])
  refine .snoc hfirst.single ?_
  rw [← deliveries_queueAll n (n.deliveries a .unlink (.pid b)) b]
  exact move_deliveries (coherent_move hfirst h) fun r hr => absurd hr (by simp [Signal.ref?])

/-- To watch is to count a reference, to make an entry and to send. All three are about the new
    monitor. -/
theorem moves_monitor (h : n.Coherent) (watcher watchee : Pid) :
    Moves (· = n.nextRef) n (n.monitor watcher watchee).2 := by
  rw [monitor_eq]
  have htrack : Moves (· = n.nextRef) n (n.countRef.track watcher n.nextRef watchee) :=
    Move.countRef.single.trans (moves_track n.countRef watcher watchee rfl)
  have hcoh := coherent_moves htrack h
  refine .snoc htrack ?_
  rw [monitorDeliveries]
  -- Neither the count nor the entry changes where signals go.
  have hdel : ∀ sender s target,
      (n.countRef.track watcher n.nextRef watchee).deliveries sender s target =
        n.deliveries sender s target := by
    intro sender s target
    rw [deliveries_track, deliveries_countRef]
  split <;> rw [← hdel] <;> refine move_deliveries hcoh fun r hr => ?_ <;>
    exact (Option.some.inj hr).symm

/-- To end a monitor is to erase an entry and to send. Both are about that monitor. -/
theorem moves_demonitor (h : n.Coherent) (watcher : Pid) (ref : Ref) :
    Moves (· = ref) n (n.demonitor watcher ref) := by
  rcases demonitor_cases n watcher ref with hd | ⟨c, watchee, -, -, hd⟩ <;> rw [hd]
  · exact .none n
  · have hfirst : Move (· = ref) n
        (n.update watcher fun c => { c with monitors := c.monitors.erase ref }) :=
      .edit watcher _ fun c _ => .forgetMonitor ref rfl
    refine .snoc hfirst.single ?_
    rw [← deliveries_update n watcher fun c => { c with monitors := c.monitors.erase ref }]
    exact move_deliveries (coherent_move hfirst h) fun r hr => (Option.some.inj hr).symm

/-- A birth in a link is a birth, an entry of the newborn, and a signal to its partner or back. -/
theorem moves_spawnLink (h : n.Coherent) (linked : Pid) : Moves K n (n.spawnLink linked).2 := by
  rcases spawnLink_cases n linked with he | ⟨p, n₁, hm, he⟩ <;> rw [he]
  · exact .none n
  · rcases move_makeProcess (K := K) hm with ⟨hmove, hp⟩
    have hpreset : Move K n₁ (n₁.update p fun c => { c with links := c.links.insert linked }) := by
      refine .edit p _ fun c hc => .presetLink linked ?_
      -- Only a newborn may be linked without a signal.
      rw [hp, Option.some.injEq] at hc
      exact hc.symm
    have hcoh := coherent_move hpreset (coherent_move hmove h)
    refine .snoc (.snoc hmove.single hpreset) ?_
    rw [birthDeliveries]
    split <;> rw [← deliveries_update n₁ p fun c => { c with links := c.links.insert linked }] <;>
      exact move_deliveries hcoh fun r hr => absurd hr (by simp [Signal.ref?])

/-- A birth under watch is a birth, a reference, and an entry on each side. -/
theorem moves_spawnMonitor (n : Node) (watcher : Pid) :
    Moves (· = n.nextRef) n (n.spawnMonitor watcher).2 := by
  rcases spawnMonitor_cases n watcher with he | ⟨p, n₁, hm, he⟩ <;> rw [he]
  · exact .none n
  · rcases move_makeProcess (K := (· = n.nextRef)) hm with ⟨hmove, hp⟩
    refine ((Moves.snoc hmove.single .countRef).snoc ?_).trans (moves_track _ watcher p rfl)
    refine .edit p _ fun c hc => .presetWatcher n.nextRef watcher ?_ rfl
    change n₁.process? p = some c at hc
    rw [hp, Option.some.injEq] at hc
    exact hc.symm

/-- A name that is entered is fit and has a living holder. -/
theorem moves_register (h : n.Coherent) (p : Pid) (name : String) :
    Moves K n (n.register p name).2 := by
  rcases register_cases n p name with he | ⟨names, hvalid, halive, hr, he⟩ <;> rw [he]
  · exact .none n
  · refine (Move.names names fun name' q hq => ?_).single
    rw [NameRegistry.whereis_register hr] at hq
    -- Either the name is the new one, or it was held by somebody before.
    split at hq
    next heq =>
      rw [Option.some.injEq] at hq
      rw [heq, ← hq, ← h.isAlive_eq]
      exact ⟨hvalid, halive⟩
    next => exact h.names name' q hq

/-- To give up names is one move, since those that remain were there before. -/
theorem move_unregister (h : n.Coherent) (p : Pid) (name : Option String) :
    Move K n (n.unregister p name) := by
  rcases name with _ | name
  · refine .names _ fun name' q hq => ?_
    rw [NameRegistry.whereis_unregisterAll, Option.filter_eq_some_iff] at hq
    exact h.names name' q hq.1
  · refine .names _ fun name' q hq => ?_
    rw [NameRegistry.whereis_unregister] at hq
    split at hq
    next => exact absurd hq (by simp)
    next => exact h.names name' q hq

/-- A route that is entered goes through somebody alive. -/
theorem moves_registerRouter (h : n.Coherent) (node : String) (cost : UInt32) (router : Pid)
    (options : RouterOptions) : Moves K n (n.registerRouter node cost router options).2 := by
  rcases registerRouter_cases n node cost router options with he | ⟨halive, he⟩ <;> rw [he]
  · exact .none n
  · refine (Move.routers _ fun node' route hr => ?_).single
    rw [RouterTable.routesTo_register] at hr
    split at hr
    next =>
      -- The new route was checked, and the others are old ones.
      rcases RouterTable.mem_upsert hr with rfl | hr
      · exact (h.isAlive_eq router).symm.trans halive
      · exact h.routes node route hr
    next => exact h.routes node' route hr

/-- To remove routes is one move, since those that remain were there before. -/
theorem move_unregisterRouter (h : n.Coherent) (router : Pid) :
    Move K n (n.unregisterRouter router) := by
  refine .routers _ fun node route hr => ?_
  rw [RouterTable.routesTo_unregister, List.mem_filter] at hr
  exact h.routes node route hr.1

/-- A node that gets a number gets no route by that. -/
theorem move_nodeIndex (h : n.Coherent) (node : String) : Move K n (n.nodeIndex node).2 :=
  .routers (n.routers.intern node).2 h.routes

/-- What operations are made of. -/
theorem moves_step (h : n.Coherent) {op : NodeOp} (hop : op.isPlain = true) :
    Moves (n.concerns op) n (n.step op) := by
  cases op with
  | makeRef => exact Move.countRef.single
  | makePid =>
      rw [step]
      rcases makePid_cases n with he | ⟨id, serial, table, hm, he⟩ <;> rw [he]
      · exact .none n
      · exact (Move.mint id serial table hm).single
  | spawn =>
      rw [step, spawn]
      rcases makeProcess_cases n with he | ⟨id, serial, table, hi, he⟩ <;> rw [he]
      · exact .none n
      · exact (Move.insert id serial table hi).single
  | spawnLink linked => exact moves_spawnLink h linked
  | spawnMonitor watcher => exact moves_spawnMonitor n watcher
  | signal sender s target =>
      rw [step, signal_snd]
      exact (move_deliveries h fun _ hr => hr).single
  | link a b => exact moves_link h a b
  | unlink a b => exact moves_unlink h a b
  | monitor watcher watchee => exact moves_monitor h watcher watchee
  | demonitor watcher ref => exact moves_demonitor h watcher ref
  | register p name => exact moves_register h p name
  | unregister p name => exact (move_unregister h p name).single
  | registerRouter node cost router options => exact moves_registerRouter h node cost router options
  | unregisterRouter router => exact (move_unregisterRouter h router).single
  | nodeIndex node => exact (move_nodeIndex h node).single
  | remotePid node id serial creation =>
      rw [step]
      rcases remotePid_cases n node id serial creation with he | he <;> rw [he]
      · exact .none n
      · exact (move_nodeIndex h node).single
  | setFlag p f value => exact (Move.edit p _ fun c _ => .setFlag f value).single
  | receive p r => exact (Move.edit p _ fun c _ => .serve r).single
  | reorder p links watchers => exact (Move.edit p _ fun c _ => .reorder links watchers).single
  | retain p => exact (Move.edit p _ fun c _ => .retain).single
  | beginTurn => exact Move.beginTurn.single
  | die | letGo | handleInHand => exact absurd hop (by simp [NodeOp.isPlain])

/-! ## Every operation keeps the tables in agreement -/

/-- A death is a fall, and a fall keeps the tables in agreement. -/
theorem coherent_die (h : n.Coherent) (p : Pid) (reason : Term) : (n.die p reason).Coherent := by
  rcases die_cases n p reason with ⟨hd, -⟩ | ⟨c, hc, -, hd⟩ <;> rw [hd]
  · exact h
  · exact h.fall hc c reason

/-- A handle is dropped and the process, if nothing else holds it, forgotten. -/
theorem coherent_letGo (h : n.Coherent) (p : Pid) : (n.letGo p).Coherent := by
  rw [letGo_eq]
  exact h.loosen.reclaim p

/-- The signal in hand is taken, handled, and its target let go. The first two may leave a process
    behind that nobody holds, and the agreement does not mind. -/
theorem coherent_handleInHand (h : n.Coherent) : n.handleInHand.Coherent := by
  rcases handleInHand_cases n with ⟨-, hi⟩ | ⟨d, q, -, hs, hi⟩ <;> rw [hi]
  · exact h
  · exact ((h.next hs).handle d).reclaim d.target

/-- Every operation keeps the tables of a node in agreement. -/
theorem coherent_step (h : n.Coherent) (op : NodeOp) : (n.step op).Coherent := by
  by_cases hop : op.isPlain = true
  · exact coherent_moves (moves_step h hop) h
  · cases op with
    | die p reason => exact coherent_die h p reason
    | letGo p => exact coherent_letGo h p
    | handleInHand => exact coherent_handleInHand h
    | _ => exact absurd rfl hop

/-- The tables are in agreement after every run. -/
theorem coherent_run (h : n.Coherent) (ops : List NodeOp) : (n.run ops).Coherent :=
  run_induction (P := Coherent) (fun _ op hn => coherent_step hn op) h ops

/-- What holds at the start and is kept by every operation of a node in agreement,
    holds of every run. -/
theorem run_new_induction {P : Node → Prop} {config : NodeConfig} (h : P (new config))
    (hstep : ∀ m op, m.Coherent → P m → P (m.step op)) (ops : List NodeOp) :
    P ((new config).run ops) := by
  -- Agreement is carried along, since the step may need it.
  have hboth : ((new config).run ops).Coherent ∧ P ((new config).run ops) :=
    run_induction (P := fun m => m.Coherent ∧ P m)
      (fun m op hm => ⟨coherent_step hm.1 op, hstep m op hm.1 hm.2⟩) ⟨coherent_new config, h⟩ ops
  exact hboth.2

theorem Reachable.coherent (h : n.Reachable) : n.Coherent := by
  rcases h with ⟨config, ops, rfl⟩
  exact coherent_run (coherent_new config) ops

end Node

end Actors
