import Actors.Proofs.Node.Outlook

/-!
# A Crash Stays Where It Is

What the others notice when a process handles a signal or ends: nothing. The
process changes, or falls, or answers, and what it has to say to others is put at
the end of the queue. Everybody else keeps mailbox, tables, settings and life, and
also what the node holds for them: their slots, their names and their routes, in
the order in which these are listed.

That is one statement, `Confined`, about each of the few moves a handler is made of,
and moves that follow each other are confined if each of them is. The only move that
could reach further is the release of slot, names and routes, which goes by the name
of the process. It does not, since no two processes of a node that is in agreement
share a slot.

The second half is about what comes after. `touches` says whom an operation is
about: the process that makes the request, or the one that handles the signal in
hand. An operation changes nothing for anybody else, so whoever is not touched in a
run is at its end what he was at its start. A crash therefore reaches another
process when that process handles a signal, and not before.

## Main definitions

* `Node.Confined`: From one state to another, nothing changed but for one process.
* `Node.Untouched`: From one state to another, nothing changed for a process.
* `Node.touches`: The processes that an operation is about.
* `Node.Extends`: From one state to another, the queue only grew at its end.
* `Node.Isolated`: What one process did is kept from all others.
* `Node.IsolationLaw`: What can be relied on about a crash.

## Theorems

* `confined_release`: Giving back what one process held concerns nobody else.
* `confined_die`, `confined_handle`, `confined_handleInHand`: Nor does its end, or a
  signal that it handles.
* `untouched_spawn`, `untouched_register` and their like: What each kind of operation
  leaves alone.
* `untouched_step`, `untouched_run`: An operation changes those it touches.
* `Reachable.isolationLaw`: A crash is isolated.
-/

namespace Actors

namespace Node

/-- From one state to another, nothing changed but for one process. -/
structure Confined (n m : Node) (p : Pid) : Prop where
  /-- The node is the same. -/
  self : m.name = n.name ∧ m.creation = n.creation
  /-- The others have the mailboxes, links, monitors, watchers, settings and life they had. -/
  processes : ∀ q, q ≠ p → m.process? q = n.process? q
  /-- The slots of the others hold what they held. -/
  slots : ∀ id serial, .ofSlot id serial n.creation ≠ p →
    m.table.occupant id serial = n.table.occupant id serial
  /-- The others are in reach as before, and listed in the same order. -/
  living : m.living.filter (· ≠ p) = n.living.filter (· ≠ p)
  /-- The others hold the names they held. -/
  names : ∀ name q, q ≠ p → (m.whereis name = some q ↔ n.whereis name = some q)
  /-- Their names are listed in the same order. -/
  registered : (m.registered.filter fun name => m.whereis name ≠ some p) =
    n.registered.filter fun name => n.whereis name ≠ some p
  /-- The routes through the others are the same, in the same order. -/
  routes : ∀ node, ((m.routers.routesTo node).filter fun r => r.router ≠ p) =
    (n.routers.routesTo node).filter fun r => r.router ≠ p
  /-- The nodes have the numbers they had. -/
  nodes : m.routers.nodes = n.routers.nodes
  /-- No reference was made. -/
  refs : m.refs = n.refs

/-- From one state to another, nothing changed for a process. -/
structure Untouched (n m : Node) (q : Pid) : Prop where
  /-- Its mailbox, links, monitors, watchers, settings and life. -/
  process : m.process? q = n.process? q
  /-- Its slot. -/
  slot : m.table.occupant q.id q.serial = n.table.occupant q.id q.serial
  /-- Its names. -/
  names : ∀ name, m.whereis name = some q ↔ n.whereis name = some q
  /-- Its routes. -/
  routes : ∀ node, ((m.routers.routesTo node).filter fun r => r.router = q) =
    (n.routers.routesTo node).filter fun r => r.router = q

/-- The processes that an operation is about, newborn ones aside: those that make the
    request, and the one that handles the signal in hand. -/
def touches (n : Node) : NodeOp → List Pid
  | .spawnMonitor p | .monitor p _ | .demonitor p _ | .register p _ | .unregister p _
  | .registerRouter _ _ p _ | .unregisterRouter p | .die p _ | .setFlag p _ _ | .receive p _
  | .reorder p _ _ | .retain p | .letGo p => [p]
  | .handleInHand => (n.takes .handleInHand).map Delivery.target
  | _ => []

variable {n m k : Node} {p q : Pid} {op : NodeOp} {d : Delivery}

/-! ## Moves that concern one process -/

theorem Confined.refl (n : Node) (p : Pid) : n.Confined n p :=
  ⟨⟨rfl, rfl⟩, fun _ _ => rfl, fun _ _ _ => rfl, rfl, fun _ _ _ => Iff.rfl, rfl, fun _ => rfl, rfl,
    rfl⟩

/-- What two changes do that are both about one process is kept to that process. -/
theorem Confined.trans (h : n.Confined m p) (h' : m.Confined k p) : n.Confined k p where
  self := ⟨h'.self.1.trans h.self.1, h'.self.2.trans h.self.2⟩
  processes q hq := (h'.processes q hq).trans (h.processes q hq)
  slots id serial hne :=
    (h'.slots id serial (by rwa [h.self.2])).trans (h.slots id serial hne)
  living := h'.living.trans h.living
  names name q hq := (h'.names name q hq).trans (h.names name q hq)
  registered := h'.registered.trans h.registered
  routes node := (h'.routes node).trans (h.routes node)
  nodes := h'.nodes.trans h.nodes
  refs := h'.refs.trans h.refs

/-- Only the table of processes changed, and there only one entry. -/
theorem confined_processes {processes : Dict Pid Process}
    (h : ∀ q, q ≠ p → processes.get? q = n.process? q) : n.Confined { n with processes } p :=
  ⟨⟨rfl, rfl⟩, h, fun _ _ _ => rfl, rfl, fun _ _ _ => Iff.rfl, rfl, fun _ => rfl, rfl, rfl⟩

theorem confined_update (n : Node) (p : Pid) (f : Process → Process) :
    n.Confined (n.update p f) p :=
  confined_processes fun q hq => (process?_update n p q f).trans (if_neg hq)

theorem confined_forget (n : Node) (p : Pid) : n.Confined (n.forget p) p :=
  confined_processes fun q hq => (process?_forget n p q).trans (if_neg hq)

/-- What waits to be handled is not looked at. -/
theorem confined_withQueue (n : Node) (rest : Dispatcher) (p : Pid) :
    n.Confined (n.withQueue rest) p :=
  ⟨⟨rfl, rfl⟩, fun _ _ => rfl, fun _ _ _ => rfl, rfl, fun _ _ _ => Iff.rfl, rfl, fun _ => rfl, rfl,
    rfl⟩

/-- Slot, names and routes go by the name of a process, and so nobody else loses any. -/
theorem confined_release (h : n.table.Sound) (hp : p = .ofSlot p.id p.serial n.creation) :
    n.Confined (n.release p) p where
  self := ⟨rfl, rfl⟩
  processes _ _ := rfl
  slots id serial hne := by
    refine (ProcessTable.occupant_remove n.table p.id p.serial id serial).trans (if_neg ?_)
    rintro ⟨rfl, rfl⟩
    exact hne hp.symm
  living := by
    change ((n.table.remove p.id p.serial).2.occupied.map _).filter _ =
      (n.table.occupied.map _).filter _
    rw [ProcessTable.occupied_remove h, List.filter_map, List.filter_map, List.filter_filter]
    -- Who is listed under another name is not in the slot.
    refine congrArg (List.map _) (List.filter_congr fun e _ => ?_)
    have hcreation : (n.release p).creation = n.creation := rfl
    by_cases he : e = (p.id, p.serial)
    · simp [he, ← hp]
    · simp [he, hcreation]
  names name q hq := by
    rw [whereis, release, NameRegistry.whereis_unregisterAll, Option.filter_eq_some_iff]
    exact and_iff_left (decide_eq_true hq)
  registered := by
    change ((n.names.unregisterAll p).registered.filter fun name =>
      (n.names.unregisterAll p).whereis name ≠ some p) = _
    rw [NameRegistry.registered_unregisterAll, List.filter_filter]
    refine List.filter_congr fun name _ => ?_
    rw [NameRegistry.whereis_unregisterAll, whereis]
    rcases n.names.whereis name with _ | q
    · rfl
    · by_cases hq : q = p <;> simp [hq]
  routes node := by
    rw [release, RouterTable.routesTo_unregister, List.filter_filter]
    simp only [Bool.and_self]
  nodes := rfl
  refs := rfl

/-- A death is kept to the dead. It empties one entry, queues farewells, and gives back what goes by
    one name. -/
theorem confined_fall (h : n.Coherent) {c₀ : Process} (hp : n.process? p = some c₀) (c : Process)
    (reason : Term) : n.Confined (n.fall p c reason) p := by
  have hchange : n.Confined (n.update p fun _ => c.die reason) p := confined_update n p _
  refine (hchange.trans (confined_withQueue _ _ p)).trans (confined_release ?_ ?_)
  · exact h.table
  · exact h.own p c₀ hp

theorem confined_die (h : n.Coherent) (p : Pid) (reason : Term) :
    n.Confined (n.die p reason) p := by
  rcases die_cases n p reason with ⟨hd, -⟩ | ⟨c, hc, -, hd⟩ <;> rw [hd]
  · exact .refl n p
  · exact confined_fall h hc c _

/-- Whatever the signal is and whatever comes of it, only the process that handles it changes. -/
theorem confined_handle (h : n.Coherent) (d : Delivery) : n.Confined (n.handle d) d.target := by
  rcases hc : n.process? d.target with _ | c
  · rw [handle_of_none hc]
    exact .refl n d.target
  · rcases handle_cases hc with ⟨-, hh⟩ | ⟨-, c', -, hh⟩ | ⟨-, reason, -, -, hh⟩ <;> rw [hh]
    · exact confined_withQueue n _ d.target
    · exact confined_update n d.target _
    · exact confined_fall h hc _ _

/-- So is the disappearance of a process. -/
theorem confined_reclaim (h : n.Coherent) (p : Pid) : n.Confined (n.reclaim p) p := by
  rcases reclaim_cases n p with ⟨hr, -⟩ | ⟨c, hc, -, -, ⟨-, hr⟩ | ⟨-, hr⟩⟩ <;> rw [hr]
  · exact .refl n p
  · exact (confined_forget n p).trans (confined_release h.table (h.own p c hc))
  · exact confined_forget n p

/-- The signal that waits longest is handled, and its target let go. -/
theorem confined_handleInHand (h : n.Coherent) {rest : Dispatcher}
    (hq : n.queue.next? = some (d, rest)) : n.Confined n.handleInHand d.target := by
  have hs := Dispatcher.signals_of_next? hq
  rw [handleInHand, hq]
  exact ((confined_withQueue n rest d.target).trans (confined_handle (h.next hs) d)).trans
    (confined_reclaim ((h.next hs).handle d) d.target)

/-! ## Operations that are about others -/

theorem Untouched.refl (n : Node) (q : Pid) : n.Untouched n q :=
  ⟨rfl, rfl, fun _ => Iff.rfl, fun _ => rfl⟩

theorem Untouched.trans (h : n.Untouched m q) (h' : m.Untouched k q) : n.Untouched k q :=
  ⟨h'.process.trans h.process, h'.slot.trans h.slot,
    fun name => (h'.names name).trans (h.names name),
    fun node => (h'.routes node).trans (h.routes node)⟩

/-- Whoever the change is not about is untouched. -/
theorem Confined.untouched (h : n.Confined m p) (hn : n.Coherent) (hq : (n.process? q).isSome)
    (hne : q ≠ p) : n.Untouched m q where
  process := h.processes q hne
  slot := by
    rcases Option.isSome_iff_exists.mp hq with ⟨c, hc⟩
    refine h.slots q.id q.serial ?_
    rwa [← hn.own q c hc]
  names name := h.names name q hne
  routes node := by
    -- The routes through one of the others are some of the routes through all others.
    have hsome : ∀ routes : List Route, (routes.filter fun r => r.router = q) =
        (routes.filter fun r => r.router ≠ p).filter fun r => r.router = q := by
      intro routes
      rw [List.filter_filter]
      refine List.filter_congr fun r _ => ?_
      by_cases hr : r.router = q <;> simp [hr, hne]
    rw [hsome, h.routes node, ← hsome]

/-- Neither names nor routes changed, and the process is there as before. -/
theorem untouched_of (hn : n.Coherent) (hm : m.Coherent) (hq : (n.process? q).isSome)
    (hprocess : m.process? q = n.process? q) (hnames : m.names = n.names)
    (hroutes : ∀ node, m.routers.routesTo node = n.routers.routesTo node) : n.Untouched m q where
  process := hprocess
  slot := by
    rcases Option.isSome_iff_exists.mp hq with ⟨c, hc⟩
    rw [hm.slot q c (hprocess.trans hc), hn.slot q c hc]
  names name := by rw [whereis, whereis, hnames]
  routes node := by rw [hroutes]

/-- A birth concerns nobody who is there. -/
theorem others_makeProcess {n₁ : Node} (hn : n.Coherent) (hq : (n.process? q).isSome)
    (hm : n.makeProcess = (.ok p, n₁)) :
    q ≠ p ∧ n₁.process? q = n.process? q ∧ n₁.names = n.names ∧ n₁.routers = n.routers := by
  rcases ne_of_makeProcess hn hq hm with ⟨hne, hsame⟩
  rcases makeProcess_ok hm with ⟨id, serial, table, -, -, rfl⟩
  exact ⟨hne, hsame, rfl, rfl⟩

theorem process?_track_of_ne (hne : q ≠ p) (ref : Ref) (watchee : Pid) :
    (n.track p ref watchee).process? q = n.process? q := by
  rcases track_cases n p ref watchee with ht | ht <;> rw [ht]
  rw [process?_update, if_neg hne]

/-! ### One kind of operation at a time

What the lemmas have in common is `hq`: the process is there before the operation. A
process that is born, and one that makes a request, are others, and the table of processes
holds for everybody else what it held. -/

/-- A slot that is used up was nobody's. -/
theorem untouched_makePid (hn : n.Coherent) (hq : (n.process? q).isSome) :
    n.Untouched n.makePid.2 q := by
  have hm : n.makePid.2.Coherent := coherent_step hn .makePid
  have hprocess : n.makePid.2.process? q = n.process? q := process?_makePid n q
  rcases makePid_cases n with he | ⟨id, serial, table, -, he⟩ <;> rw [he] at hm hprocess ⊢ <;>
    exact untouched_of hn hm hq hprocess rfl fun _ => rfl

/-- A process that comes to be touches nobody who is there. -/
theorem untouched_spawn (hn : n.Coherent) (hq : (n.process? q).isSome) :
    n.Untouched n.spawn.2 q := by
  have hm : n.spawn.2.Coherent := coherent_step hn .spawn
  rw [spawn] at hm ⊢
  rcases hmake : n.makeProcess with ⟨e | p, n₁⟩ <;> rw [hmake] at hm
  · rw [(makeProcess_error hmake).2]
    exact .refl n q
  · rcases others_makeProcess hn hq hmake with ⟨-, hprocess, hnames, hrouters⟩
    exact untouched_of hn hm hq hprocess hnames fun _ => by rw [hrouters]

/-- The newborn is linked at once. Its partner is only asked to follow, by a signal, so a birth in
    a link does not touch the partner either. -/
theorem untouched_spawnLink (hn : n.Coherent) (hq : (n.process? q).isSome) (linked : Pid) :
    n.Untouched (n.spawnLink linked).2 q := by
  have hm : (n.spawnLink linked).2.Coherent := coherent_step hn (.spawnLink linked)
  rcases spawnLink_cases n linked with he | ⟨p, n₁, hmake, he⟩ <;> rw [he] at hm ⊢
  · exact .refl n q
  · rcases others_makeProcess hn hq hmake with ⟨hne, hprocess, hnames, hrouters⟩
    refine untouched_of hn hm hq ?_ hnames fun node => congrArg (·.routesTo node) hrouters
    exact (process?_update n₁ p q _).trans ((if_neg hne).trans hprocess)

/-- Nor does one that is made under a watch, except for its watcher. -/
theorem untouched_spawnMonitor (hn : n.Coherent) (hq : (n.process? q).isSome) {watcher : Pid}
    (hne : q ≠ watcher) : n.Untouched (n.spawnMonitor watcher).2 q := by
  have hm : (n.spawnMonitor watcher).2.Coherent := coherent_step hn (.spawnMonitor watcher)
  rcases spawnMonitor_cases n watcher with he | ⟨p, n₁, hmake, he⟩ <;> rw [he] at hm ⊢
  · exact .refl n q
  · rcases others_makeProcess hn hq hmake with ⟨hborn, hprocess, hnames, hrouters⟩
    -- Two entries change, the one of the newborn and the one of the watcher.
    have htrack := registries_track (n₁.countRef.update p fun c =>
      { c with monitoredBy := c.monitoredBy.insert n.nextRef watcher }) watcher n.nextRef p
    refine untouched_of hn hm hq ?_ (htrack.2.1.trans hnames)
      fun node => congrArg (·.routesTo node) (htrack.2.2.trans hrouters)
    rw [process?_track_of_ne hne, process?_update, if_neg hborn]
    exact hprocess

/-- Signals that are queued change nothing until they are handled. -/
theorem untouched_posting (hn : n.Coherent) (hq : (n.process? q).isSome)
    (hposting : op.isPosting = true) : n.Untouched (n.step op) q := by
  have hm := coherent_step hn op
  rcases posting_step n hposting with ⟨ds, he⟩
  rw [he] at hm ⊢
  exact untouched_of hn hm hq rfl rfl fun _ => rfl

/-- Only the watcher makes a note. Who is watched learns of it by a signal. -/
theorem untouched_monitor (hn : n.Coherent) (hq : (n.process? q).isSome) {watcher : Pid}
    (hne : q ≠ watcher) (watchee : Pid) : n.Untouched (n.monitor watcher watchee).2 q := by
  have hm : (n.monitor watcher watchee).2.Coherent := coherent_step hn (.monitor watcher watchee)
  have htrack := registries_track n.countRef watcher n.nextRef watchee
  rw [monitor_eq] at hm ⊢
  exact untouched_of hn hm hq (process?_track_of_ne (n := n.countRef) hne n.nextRef watchee)
    htrack.2.1 fun node => congrArg (·.routesTo node) htrack.2.2

/-- Only the watcher forgets. Who was watched learns of it by a signal. -/
theorem untouched_demonitor (hn : n.Coherent) (hq : (n.process? q).isSome) {watcher : Pid}
    (hne : q ≠ watcher) (ref : Ref) : n.Untouched (n.demonitor watcher ref) q := by
  have hm : (n.demonitor watcher ref).Coherent := coherent_step hn (.demonitor watcher ref)
  rcases demonitor_cases n watcher ref with hd | ⟨c, watchee, -, -, hd⟩ <;> rw [hd] at hm ⊢
  · exact .refl n q
  · refine untouched_of hn hm hq ?_ rfl fun _ => rfl
    exact (process?_update n watcher q _).trans (if_neg hne)

/-- A name can be claimed only if it is free, so nobody loses one. -/
theorem untouched_register (hne : q ≠ p) (name : String) :
    n.Untouched (n.register p name).2 q := by
  rcases register_cases n p name with hr | ⟨names, -, -, hn', hr⟩ <;> rw [hr]
  · exact .refl n q
  · refine ⟨rfl, rfl, fun name' => ?_, fun _ => rfl⟩
    rw [whereis, whereis, NameRegistry.whereis_register hn']
    split
    next heq =>
      -- The name was free, or the claim would have failed.
      have hfree : n.names.whereis name = none := by
        rcases hw : n.names.whereis name with _ | holder
        · rfl
        · rw [NameRegistry.register, hw] at hn'
          exact absurd hn' (by simp)
      rw [heq, hfree, Option.some.injEq]
      exact iff_of_false hne.symm (by simp)
    next => rfl

/-- A process gives up names of its own only, whether it is one name or all of them. -/
theorem untouched_unregister (hne : q ≠ p) (name : Option String) :
    n.Untouched (n.unregister p name) q := by
  refine ⟨by cases name <;> rfl, by cases name <;> rfl, fun name' => ?_, by cases name <;>
    exact fun _ => rfl⟩
  cases name with
  | none =>
      rw [unregister, whereis, NameRegistry.whereis_unregisterAll, Option.filter_eq_some_iff]
      exact and_iff_left (decide_eq_true hne)
  | some name =>
      rw [unregister, whereis, NameRegistry.whereis_unregister]
      split
      next heq =>
        rw [whereis, heq.1, heq.2, Option.some.injEq]
        exact iff_of_false (by simp) hne.symm
      next => rfl

/-- A route that is added stands among those through other routers and leaves them alone. -/
theorem untouched_registerRouter {router : Pid} (hne : q ≠ router) (node : String) (cost : UInt32)
    (options : RouterOptions) :
    n.Untouched (n.registerRouter node cost router options).2 q := by
  rcases registerRouter_cases n node cost router options with he | ⟨-, he⟩ <;> rw [he]
  · exact .refl n q
  · refine ⟨rfl, rfl, fun _ => Iff.rfl, fun node' => ?_⟩
    rw [RouterTable.routesTo_register]
    split
    next heq => rw [RouterTable.filter_upsert_of_ne hne.symm, heq]
    next => rfl

/-- A router that leaves takes its own routes along. -/
theorem untouched_unregisterRouter {router : Pid} (hne : q ≠ router) :
    n.Untouched (n.unregisterRouter router) q := by
  refine ⟨rfl, rfl, fun _ => Iff.rfl, fun node => ?_⟩
  rw [unregisterRouter, RouterTable.routesTo_unregister, List.filter_filter]
  refine List.filter_congr fun r _ => ?_
  by_cases hr : r.router = q <;> simp [hr, hne]

/-- A name that comes from another node touches nobody here. -/
theorem untouched_remotePid (hn : n.Coherent) (hq : (n.process? q).isSome) (node : String)
    (id serial creation : UInt32) : n.Untouched (n.remotePid node id serial creation).2 q := by
  have hm : (n.remotePid node id serial creation).2.Coherent :=
    coherent_step hn (.remotePid node id serial creation)
  rcases remotePid_cases n node id serial creation with he | he <;> rw [he] at hm ⊢
  · exact .refl n q
  · exact untouched_of hn hm hq rfl rfl fun _ => rfl

/-- The process that loses a handle may be taken out of the table, and nobody else. -/
theorem untouched_letGo (hn : n.Coherent) (hq : (n.process? q).isSome) (hne : q ≠ p) :
    n.Untouched (n.letGo p) q := by
  refine Confined.untouched ?_ hn hq hne
  exact (confined_update n p _).trans (confined_reclaim hn.loosen p)

/-- Whoever the signal in hand is not for is not touched when it is handled. -/
theorem untouched_handleInHand (hn : n.Coherent) (hq : (n.process? q).isSome)
    (hne : ∀ d ∈ n.takes .handleInHand, q ≠ d.target) : n.Untouched n.handleInHand q := by
  rcases hnext : n.queue.next? with _ | ⟨d, rest⟩
  · rw [handleInHand, hnext]
    exact .refl n q
  · refine (confined_handleInHand hn hnext).untouched hn hq (hne d ?_)
    rw [takes, hnext]
    exact List.mem_singleton_self d

/-- An operation changes nothing for a process that it is not about. -/
theorem untouched_step (hn : n.Coherent) (hq : (n.process? q).isSome) (hop : q ∉ n.touches op) :
    n.Untouched (n.step op) q := by
  have hm := coherent_step hn op
  have hother : ∀ p, n.touches op = [p] → q ≠ p := by
    rintro p htouches rfl
    exact hop (htouches ▸ List.mem_singleton_self q)
  cases op with
  | makePid => exact untouched_makePid hn hq
  | spawn => exact untouched_spawn hn hq
  | spawnLink linked => exact untouched_spawnLink hn hq linked
  | spawnMonitor watcher => exact untouched_spawnMonitor hn hq (hother watcher rfl)
  | signal | link | unlink => exact untouched_posting hn hq rfl
  | monitor watcher watchee => exact untouched_monitor hn hq (hother watcher rfl) watchee
  | demonitor watcher ref => exact untouched_demonitor hn hq (hother watcher rfl) ref
  | register p name => exact untouched_register (hother p rfl) name
  | unregister p name => exact untouched_unregister (hother p rfl) name
  | registerRouter node cost router options =>
      exact untouched_registerRouter (hother router rfl) node cost options
  | unregisterRouter router => exact untouched_unregisterRouter (hother router rfl)
  | remotePid node id serial creation => exact untouched_remotePid hn hq node id serial creation
  | die p reason => exact (confined_die hn p reason).untouched hn hq (hother p rfl)
  | letGo p => exact untouched_letGo hn hq (hother p rfl)
  | setFlag p | receive p | reorder p | retain p =>
      exact (confined_update n p _).untouched hn hq (hother p rfl)
  | handleInHand =>
      refine untouched_handleInHand hn hq fun d hd heq => hop ?_
      exact List.mem_map.mpr ⟨d, hd, heq.symm⟩
  -- References, numbers of nodes and turns are nothing that a process holds.
  | makeRef | nodeIndex node | beginTurn => exact untouched_of hn hm hq rfl rfl fun _ => rfl

/-- Over a run, too: the process stays in the table, so each further operation finds it there. -/
theorem untouched_run (hn : n.Coherent) (hq : (n.process? q).isSome) {ops : List NodeOp}
    (hops : q ∉ n.collect touches ops) : n.Untouched (n.run ops) q := by
  induction ops generalizing n with
  | nil => exact .refl n q
  | cons op rest ih =>
      rw [collect, List.mem_append, not_or] at hops
      -- Being untouched it is still there, which the next step asks for.
      have hstep := untouched_step hn hq hops.1
      refine hstep.trans (ih (coherent_step hn op) ?_ hops.2)
      rwa [hstep.process]

/-! ## The law -/

/-- From one state to another, the queue only grew at its end, by signals of one process. -/
structure Extends (n m : Node) (p : Pid) : Prop where
  /-- The batch that is being handled is the same. -/
  inHand : m.queue.inHand = n.queue.inHand
  /-- Behind what was queued there is what the process has to say. -/
  pending : ∃ ds, m.queue.pending = n.queue.pending ++ ds ∧ ∀ d ∈ ds, d.sender = p

/-- What one process did is kept from all others. -/
structure Isolated (n m : Node) (p : Pid) : Prop where
  /-- Nothing changed for the others. -/
  confined : n.Confined m p
  /-- What was queued stays queued, and in front. -/
  queued : n.Extends m p
  /-- Whatever happens next, nothing changes for another process before that process makes a
      request or handles a signal that is for it. -/
  later : ∀ q, q ≠ p → (n.process? q).isSome → ∀ ops, q ∉ m.collect touches ops →
    ∀ k ∈ m.states ops, n.Untouched k q

/-- What can be relied on about a crash. -/
structure IsolationLaw (n : Node) : Prop where
  /-- A process may handle any signal, alive or dead, and die of it or not. -/
  handled : ∀ d, n.Isolated (n.handle d) d.target
  /-- A process may end. -/
  ended : ∀ p reason, n.Isolated (n.die p reason) p
  /-- When a signal was handled its target is let go, and that is kept from the others, too. -/
  dispatched : ∀ d rest, n.queue.next? = some (d, rest) → n.Confined n.handleInHand d.target

/-- What is queued comes last, so the batch in hand stays as it is. -/
theorem extends_of_queueAll {ds : List Delivery} (hqueue : m.queue = (n.queueAll ds).queue)
    (hsender : ∀ d ∈ ds, d.sender = p) : n.Extends m p := by
  -- Signal by signal, each of which is pending behind the last.
  have hboth : ∀ (q : Dispatcher), (ds.foldl .enqueue q).inHand = q.inHand ∧
      (ds.foldl .enqueue q).pending = q.pending ++ ds := by
    clear hqueue hsender
    induction ds with
    | nil => exact fun q => ⟨rfl, (List.append_nil _).symm⟩
    | cons d rest ih =>
        intro q
        refine ⟨(ih (q.enqueue d)).1, (ih (q.enqueue d)).2.trans ?_⟩
        exact List.append_assoc q.pending [d] rest
  refine ⟨?_, ds, ?_, hsender⟩ <;> rw [hqueue]
  · exact (hboth n.queue).1
  · exact (hboth n.queue).2

theorem sender_of_posts_die {reason : Term} {e : Delivery} (he : e ∈ n.posts (.die p reason)) :
    e.sender = p := by
  rw [posts] at he
  split at he
  next => exact sender_of_farewellsOf he
  next => exact absurd he List.not_mem_nil

/-- Whoever is untouched now stays so until an operation is about him. -/
theorem Confined.isolated (h : n.Confined m p) (hn : n.Coherent) (hm : m.Coherent)
    (hqueued : n.Extends m p) : n.Isolated m p where
  confined := h
  queued := hqueued
  later q hne hq ops hops k hk := by
    -- A later moment is the end of a first part of the run.
    rcases mem_states hk with ⟨before, after, rfl, rfl⟩
    rw [collect_append, List.mem_append, not_or] at hops
    have hnow := h.untouched hn hq hne
    exact hnow.trans (untouched_run hm (by rwa [hnow.process]) hops.1)

/-- In every state a node can reach, what a process does when it handles a signal or ends is kept
    from all others until they handle signals themselves. -/
theorem Reachable.isolationLaw (h : n.Reachable) : n.IsolationLaw where
  handled d := (confined_handle h.coherent d).isolated h.coherent (h.coherent.handle d)
    (extends_of_queueAll (queue_handle n d) fun _ he => (sender_of_replies he).1)
  ended p reason := (confined_die h.coherent p reason).isolated h.coherent
    (coherent_die h.coherent p reason)
    (extends_of_queueAll (queue_die n p reason) fun _ => sender_of_posts_die)
  dispatched _ _ := confined_handleInHand h.coherent

/-- Two linked processes with a name and a route each, and a third one that watches the first. When
    the first one crashes its name and its route are gone at once. The second one is alive, with its
    name and its route, until it handles the exit signal. -/
theorem isolationLaw_partner :
    let p := Pid.ofSlot 1 0 0
    let q := Pid.ofSlot 2 0 0
    let w := Pid.ofSlot 3 0 0
    let n := (new .standard).run
      [.spawn, .spawn, .spawn, .link p q, .monitor w p, .register p "first", .register q "second",
        .registerRouter "away" 1 p .standard, .registerRouter "away" 2 q .standard, .beginTurn,
        .handleInHand, .handleInHand, .handleInHand]
    let m := n.die p (.atom "boom")
    n.IsolationLaw ∧ n.whereis "first" = some p ∧ m.whereis "first" = none ∧
      m.whereis "second" = some q ∧ n.routers.route "away" = some p ∧
      m.routers.route "away" = some q ∧ m.living = [q, w] ∧
      m.queue.pending =
        [⟨q, p, .exit (.atom "boom")⟩, ⟨w, p, .down (.ofCounter 0 0) (.atom "boom")⟩] ∧
      (m.run [.beginTurn]).lives q = true ∧ (m.run [.beginTurn, .handleInHand]).lives q = false :=
  ⟨Reachable.isolationLaw ⟨.standard, _, rfl⟩, by decide, by decide, by decide, by decide,
    by decide, by decide, by decide, by decide, by decide⟩

end Node

end Actors
