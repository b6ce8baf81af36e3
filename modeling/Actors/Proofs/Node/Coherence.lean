import Actors.Proofs.Node.Run
import Actors.Proofs.Registries

/-!
# The Tables of a Node Agree

A node keeps five tables: the slots, the processes, the names, the routes and
the queue. This module shows that they always tell the same story, whatever
requests were made and in whatever order signals were handled.

A process stops existing in two ways. It dies, and then its slot, its names
and its routes are given back while the process stays for those who hold it;
or its last handle goes, and then the process goes as well. What both have in
common is `Coherent.vacate`: the slot is freed under its next generation, and
every name and route of the process goes with it.

That no table is ever behind comes down to one invariant, `Coherent`. It does
not speak of handles, so it also holds between the handling of a signal and the
moment its target is let go.

## Main definitions

* `Node.Coherent`: Slots, processes, names, routes and queue agree.

## Theorems

* `Coherent.lookup_eq`: What resolves is a living process, and the other way
  round.
* `Coherent.queueAll`, `Coherent.update`, `Coherent.addProcess`: Moves that take
  no process away.
* `Coherent.fall`, `Coherent.reclaim`: The two ways to leave.
* `Coherent.handle`: Signals are handled.
-/

namespace Actors

namespace Node

/-! ## Living processes -/

/-- A process is alive if it is there and has not ended. -/
theorem lives_iff {n : Node} {p : Pid} :
    n.lives p = true ↔ ∃ c, n.process? p = some c ∧ c.isAlive = true := by
  rw [lives, Option.any_eq_true]

theorem lives_of_process? {n : Node} {p : Pid} {c : Process} (hc : n.process? p = some c) :
    n.lives p = c.isAlive := by
  rw [lives, hc, Option.any_some]

/-- Nobody is alive who is not there. -/
theorem lives_of_process?_none {n : Node} {p : Pid} (hc : n.process? p = none) :
    n.lives p = false := by
  rw [lives, hc]
  rfl

theorem lives_of {n : Node} {p : Pid} {c : Process} (hc : n.process? p = some c)
    (ha : c.isAlive = true) : n.lives p = true := lives_iff.mpr ⟨c, hc, ha⟩

theorem isSome_of_lives {n : Node} {p : Pid} (h : n.lives p = true) :
    (n.process? p).isSome := by
  rcases lives_iff.mp h with ⟨c, hc, -⟩
  rw [hc]
  rfl

/-- A change that does not touch whether a process is alive. -/
theorem lives_update {n : Node} {p : Pid} {f : Process → Process}
    (hf : ∀ c, n.process? p = some c → (f c).life = c.life) (q : Pid) :
    (n.update p f).lives q = n.lives q := by
  rw [lives, lives, process?_update]
  split
  next heq =>
    -- If the one that changes is there, only whether it has ended counts.
    rcases hc : n.process? q with _ | c
    · rfl
    · rw [heq] at hc
      simp only [Option.map_some, Option.any_some, Process.isAlive, hf c hc]
  next => rfl

/-- Whether a process is alive does not depend on who holds it. -/
theorem lives_loosen (n : Node) (p q : Pid) : (n.loosen p).lives q = n.lives q := by
  rw [loosen]
  exact lives_update (by simp) q

/-- A birth kills nobody, not even one whose name it would take. -/
theorem lives_addProcess {n : Node} {q : Pid} (h : n.lives q = true) (p : Pid)
    (table : ProcessTable) : (n.addProcess p table).lives q = true := by
  rw [lives, process?_addProcess]
  split
  · rfl
  · exact h

theorem isSome_process?_addProcess {n : Node} {q : Pid} (h : (n.process? q).isSome) (p : Pid)
    (table : ProcessTable) : ((n.addProcess p table).process? q).isSome := by
  rw [process?_addProcess]
  split
  · rfl
  · exact h

/-- A fall ends one process and nobody else. -/
theorem lives_fall (n : Node) (p q : Pid) (c : Process) (reason : Term) :
    (n.fall p c reason).lives q = if q = p then false else n.lives q := by
  rw [lives, process?_fall]
  split
  next =>
    rcases n.process? q with _ | c'
    · rfl
    · rfl
  next => rfl

/-- Who is alive after a signal was handled was alive before. -/
theorem lives_of_handle {n : Node} {p : Pid} {d : Delivery} (h : (n.handle d).lives p = true) :
    n.lives p = true := by
  rcases hc : n.process? d.target with _ | c
  · rwa [handle_of_none hc] at h
  · rcases handle_cases hc with ⟨-, hh⟩ | ⟨-, c', hr, hh⟩ | ⟨-, reason, -, -, hh⟩ <;> rw [hh] at h
    · exact h
    · -- A reaction that is not the end leaves life and reason alone.
      rwa [lives_update fun c₁ hc₁ => ?_] at h
      rw [hc, Option.some.injEq] at hc₁
      rw [← hc₁, (Process.reactAlive_become hr).1]
    · rw [lives_fall] at h
      split at h
      next => exact absurd h (by simp)
      next => exact h

/-- Who is alive after a process was let go is as before. -/
theorem process?_reclaim {n : Node} {p q : Pid} (h : (n.reclaim q).lives p = true) :
    (n.reclaim q).process? p = n.process? p := by
  rcases lives_iff.mp h with ⟨c, hc, -⟩
  rw [hc, process?_of_reclaim hc]

/-- Nobody comes alive when somebody is let go. -/
theorem lives_of_reclaim {n : Node} {p q : Pid} (h : (n.reclaim q).lives p = true) :
    n.lives p = true := by
  rw [lives, ← process?_reclaim h]
  exact h

/-! ## The invariant -/

/-- Slots, processes, names, routes and queue agree. -/
structure Coherent (n : Node) : Prop where
  /-- The slots are free, occupied or retired. -/
  table : n.table.Sound
  /-- A process has a name of this node. -/
  own : ∀ p c, n.process? p = some c → p = .ofSlot p.id p.serial n.creation
  /-- A process is alive and open, or ended. -/
  sound : ∀ p c, n.process? p = some c → c.Sound
  /-- The name of a process was given out. -/
  spent : ∀ p c, n.process? p = some c → n.table.Spent p.id p.serial
  /-- A process has a slot as long as it is alive. -/
  slot : ∀ p c, n.process? p = some c →
    n.table.occupant p.id p.serial = if c.isAlive then .reachable else .none
  /-- A slot belongs to a process. -/
  owner : ∀ id serial, n.table.occupant id serial ≠ .none →
    (n.process? (.ofSlot id serial n.creation)).isSome
  /-- A name belongs to a living process and may be registered. -/
  names : ∀ name p, n.whereis name = some p → isValidName name = true ∧ n.lives p = true
  /-- A route goes through a living process. -/
  routes : ∀ node route, route ∈ n.routers.routesTo node → n.lives route.router = true
  /-- A signal is queued for a process. -/
  targets : ∀ d ∈ n.queue.signals, (n.process? d.target).isSome

/-- A new node has no processes, no names, no routes and no signals, so there is little to agree on.
    Its table has one slot, which is retired from the start. -/
theorem coherent_new (config : NodeConfig) : (new config).Coherent where
  table := ProcessTable.sound_new config.maxProcesses
  own := fun _ _ h => absurd h (by simp [process?, new])
  sound := fun _ _ h => absurd h (by simp [process?, new])
  spent := fun _ _ h => absurd h (by simp [process?, new])
  slot := fun _ _ h => absurd h (by simp [process?, new])
  owner := by
    intro id serial h
    refine absurd ?_ h
    rcases hs : (ProcessTable.new config.maxProcesses).slot? id with _ | slot
    · rw [new, ProcessTable.occupant, hs]
    · -- The only slot of a new table is the retired one.
      have hmem := List.mem_of_getElem? hs
      rw [ProcessTable.new, List.mem_singleton] at hmem
      rw [new, ProcessTable.occupant_eq hs, hmem]
      simp only [ite_self]
  names := fun _ _ h => absurd h (by simp [whereis, NameRegistry.whereis, new, NameRegistry.empty])
  routes := fun _ _ h => absurd h (by simp [new, RouterTable.new, RouterTable.routesTo])
  targets := fun _ h => absurd h List.not_mem_nil

/-- Two processes in one slot are the same. -/
theorem Coherent.eq_of_slot {n : Node} (h : n.Coherent) {p q : Pid} {c c' : Process}
    (hp : n.process? p = some c) (hq : n.process? q = some c') (hid : q.id = p.id)
    (hserial : q.serial = p.serial) : q = p := by
  rw [h.own q c' hq, h.own p c hp, hid, hserial]

/-! ## What resolves -/

/-- What the node finds by a name is who is alive. The name says a slot and its generation, the slot
    says whether it is occupied, and by agreement its owner is alive as long as it is. -/
theorem Coherent.resolves_iff {n : Node} (h : n.Coherent) {p : Pid} :
    n.resolves p = true ↔ n.lives p = true := by
  rw [resolves, Bool.and_eq_true, Bool.and_eq_true, ProcessTable.resolves, decide_eq_true_iff,
    Pid.isLocal, beq_iff_eq, beq_iff_eq]
  constructor
  · rintro ⟨⟨hnode, hcreation⟩, hreach⟩
    have hp : p = .ofSlot p.id p.serial n.creation := by
      rw [← hcreation]
      rcases p with ⟨node, id, serial, creation⟩
      simp only [Pid.ofSlot, Pid.mk.injEq, and_true]
      exact hnode
    -- The slot is occupied, and its owner can only be this process.
    have howner := h.owner p.id p.serial (by rw [hreach]; simp)
    rw [← hp] at howner
    rcases Option.isSome_iff_exists.mp howner with ⟨c, hc⟩
    have hslot := h.slot p c hc
    rw [hreach] at hslot
    by_cases ha : c.isAlive = true
    · exact lives_of hc ha
    · rw [if_neg ha] at hslot
      exact absurd hslot (by simp)
  · intro hlives
    rcases lives_iff.mp hlives with ⟨c, hc, ha⟩
    have hown := h.own p c hc
    have hslot := h.slot p c hc
    rw [if_pos ha] at hslot
    rw [hown]
    exact ⟨⟨rfl, rfl⟩, hslot⟩

/-- What resolves is the process that is alive. -/
theorem Coherent.lookup_eq {n : Node} (h : n.Coherent) (p : Pid) :
    n.lookup p = (n.process? p).filter Process.isAlive := by
  rw [lookup]
  -- The node decides by the slot. By agreement that is a decision by life.
  by_cases hl : n.lives p = true
  · rcases lives_iff.mp hl with ⟨c, hc, ha⟩
    rw [if_pos (h.resolves_iff.mpr hl), hc, Option.filter_some, if_pos ha]
  · rw [if_neg (fun hr => hl (h.resolves_iff.mp hr))]
    rcases hc : n.process? p with _ | c
    · rfl
    · rw [Option.filter_some, if_neg (fun ha => hl (lives_of hc ha))]

/-- So to ask whether a process is in reach is to ask whether it is alive. -/
theorem Coherent.isSome_lookup {n : Node} (h : n.Coherent) (p : Pid) :
    (n.lookup p).isSome = n.lives p := by
  rw [h.lookup_eq, lives]
  rcases n.process? p with _ | c
  · rfl
  · rcases ha : c.isAlive with _ | _ <;> simp [ha]

/-- The request that asks whether a process is alive is answered right. -/
theorem Coherent.isAlive_eq {n : Node} (h : n.Coherent) (p : Pid) : n.isAlive p = n.lives p := by
  rw [isAlive, h.lookup_eq, lives]
  rcases n.process? p with _ | c
  · rfl
  · rw [Option.filter_some]
    rcases ha : c.isAlive with _ | _ <;> simp [ha]

/-- A signal is only ever queued for a living process. -/
theorem Coherent.lives_of_delivery {n : Node} (h : n.Coherent) {sender : Pid} {s : Signal}
    {target : Dest} {d : Delivery} (hd : d ∈ n.deliveries sender s target) :
    n.lives d.target = true := by
  rw [← h.isSome_lookup]
  exact (mem_deliveries hd).1

/-- Only processes of this node are there. -/
theorem Coherent.isLocal {n : Node} (h : n.Coherent) {p : Pid} {c : Process}
    (hc : n.process? p = some c) : p.isLocal = true := by
  rw [h.own p c hc]
  rfl

/-- A signal to a living process is queued for it. -/
theorem Coherent.deliveries_of_lives {n : Node} (h : n.Coherent) {p : Pid}
    (hp : n.lives p = true) (sender : Pid) (s : Signal) :
    n.deliveries sender s (.pid p) = [⟨p, sender, s⟩] := by
  rcases lives_iff.mp hp with ⟨c, hc, -⟩
  -- It is one of this node, so no router comes in, and it is found by its name.
  have hr : n.resolve (.pid p) = .ok (.process p) := by
    rw [resolve, resolvePid, if_pos (h.isLocal hc), h.isSome_lookup, hp, if_pos rfl]
  rw [deliveries, hr]

/-! ## Single moves -/

/-- Signals may be queued for whoever is alive. A signal for a process keeps it from being
    forgotten, so its target has to be there. -/
theorem Coherent.queueAll {n : Node} (h : n.Coherent) {ds : List Delivery}
    (hds : ∀ d ∈ ds, n.lives d.target = true) : (n.queueAll ds).Coherent := by
  refine ⟨h.table, h.own, h.sound, h.spent, h.slot, h.owner, h.names, h.routes, ?_⟩
  intro d hd
  rw [signals_queueAll, List.mem_append] at hd
  rcases hd with hd | hd
  · exact h.targets d hd
  · exact isSome_of_lives (hds d hd)

/-- A queue with fewer signals has fewer targets that have to be there. -/
theorem Coherent.withQueue {n : Node} (h : n.Coherent) {q : Dispatcher}
    (hq : q.signals ⊆ n.queue.signals) : (n.withQueue q).Coherent :=
  ⟨h.table, h.own, h.sound, h.spent, h.slot, h.owner, h.names, h.routes,
    fun d hd => h.targets d (hq hd)⟩

/-- The next signal is taken from the queue. -/
theorem Coherent.next {n : Node} (h : n.Coherent) {d : Delivery} {q : Dispatcher}
    (hs : n.queue.signals = d :: q.signals) : (n.withQueue q).Coherent :=
  h.withQueue fun e he => by
    rw [hs]
    exact List.mem_cons_of_mem d he

/-- The counter of references belongs to none of the tables. -/
theorem Coherent.countRef {n : Node} (h : n.Coherent) : n.countRef.Coherent :=
  ⟨h.table, h.own, h.sound, h.spent, h.slot, h.owner, h.names, h.routes, h.targets⟩

/-- A process changes and stays alive, or stays dead. -/
theorem Coherent.update {n : Node} (h : n.Coherent) {p : Pid} {f : Process → Process}
    (hf : ∀ c, n.process? p = some c → (f c).life = c.life ∧ (c.Sound → (f c).Sound)) :
    (n.update p f).Coherent := by
  have hlives := lives_update fun c hc => (hf c hc).1
  -- Every process is the image of one that was there, alive exactly if that one was.
  have hback : ∀ q c', (n.update p f).process? q = some c' →
      ∃ c, n.process? q = some c ∧ c'.isAlive = c.isAlive ∧ (c.Sound → c'.Sound) := by
    intro q c' hc'
    rcases process?_of_update hc' with ⟨c, rfl, hc, rfl⟩ | ⟨-, hold⟩
    · refine ⟨c, hc, ?_, (hf c hc).2⟩
      rw [Process.isAlive, (hf c hc).1, Process.isAlive]
    · exact ⟨c', hold, rfl, id⟩
  refine ⟨h.table, ?own, ?sound, ?spent, ?slot, ?owner, ?names, ?routes, ?targets⟩
  case own =>
    intro q c' hc'
    rcases hback q c' hc' with ⟨c, hc, -, -⟩
    exact h.own q c hc
  case sound =>
    intro q c' hc'
    rcases hback q c' hc' with ⟨c, hc, -, hs⟩
    exact hs (h.sound q c hc)
  case spent =>
    intro q c' hc'
    rcases hback q c' hc' with ⟨c, hc, -, -⟩
    exact h.spent q c hc
  case slot =>
    intro q c' hc'
    rcases hback q c' hc' with ⟨c, hc, ha, -⟩
    rw [ha]
    exact h.slot q c hc
  case owner =>
    intro id serial ho
    rw [isSome_process?_update]
    exact h.owner id serial ho
  case names =>
    intro name q hq
    rw [hlives]
    exact h.names name q hq
  case routes =>
    intro node route hr
    rw [hlives]
    exact h.routes node route hr
  case targets =>
    intro d hd
    rw [isSome_process?_update]
    exact h.targets d hd

/-- A handle that is dropped is not yet a process that is forgotten. -/
theorem Coherent.loosen {n : Node} (h : n.Coherent) {p : Pid} : (n.loosen p).Coherent :=
  h.update fun c _ => ⟨rfl, fun hs => Process.sound_handles hs (c.handles - 1)⟩

/-- A name is given out that no process will have. -/
theorem Coherent.mint {n : Node} (h : n.Coherent) {id serial : UInt32} {table : ProcessTable}
    (hm : n.table.mint = (.ok (id, serial), table)) :
    ({ n with table } : Node).Coherent := by
  -- The name is spent, but no slot gets an owner, so for the processes nothing has changed.
  rcases ProcessTable.issues_mint h.table hm with ⟨hi, ho⟩
  refine ⟨hi.sound, h.own, h.sound, ?_, ?_, ?_, h.names, h.routes, h.targets⟩
  · intro q c hc
    exact (hi.spent _ _).mpr (Or.inl (h.spent q c hc))
  · intro q c hc
    exact (ho _ _).trans (h.slot q c hc)
  · intro i s hne
    exact h.owner i s (ho i s ▸ hne)

/-- The name of a new process was not in use. -/
theorem Coherent.process?_of_insert {n : Node} (h : n.Coherent) {id serial : UInt32}
    {table : ProcessTable} (hi : n.table.insert = (.ok (id, serial), table)) :
    n.process? (.ofSlot id serial n.creation) = none := by
  rcases hc : n.process? (.ofSlot id serial n.creation) with _ | c
  · rfl
  · -- Whoever is there has a name that was given out, and the table gives none out twice.
    exact absurd (h.spent _ c hc) (ProcessTable.issues_insert h.table hi).1.fresh

/-- A process comes to be. It has the slot that the table occupied for it, and everybody else has
    the one he had. -/
theorem Coherent.addProcess {n : Node} (h : n.Coherent) {id serial : UInt32}
    {table : ProcessTable} (hi : n.table.insert = (.ok (id, serial), table)) :
    (n.addProcess (.ofSlot id serial n.creation) table).Coherent := by
  rcases ProcessTable.issues_insert h.table hi with ⟨hissue, ho⟩
  -- Each fact is one about the new process, or was true of an old one.
  refine ⟨hissue.sound, fun q c hc => ?own, fun q c hc => ?sound, fun q c hc => ?spent,
    fun q c hc => ?slot, fun i s hne => ?owner, fun name q hq => ?names,
    fun node route hr => ?routes, fun d hd => ?targets⟩
  case own =>
    rcases process?_of_addProcess hc with ⟨rfl, -⟩ | ⟨-, hold⟩
    · rfl
    · exact h.own q c hold
  case sound =>
    rcases process?_of_addProcess hc with ⟨-, rfl⟩ | ⟨-, hold⟩
    · exact Process.sound_fresh
    · exact h.sound q c hold
  case spent =>
    refine (hissue.spent q.id q.serial).mpr ?_
    rcases process?_of_addProcess hc with ⟨rfl, -⟩ | ⟨-, hold⟩
    · exact Or.inr ⟨rfl, rfl⟩
    · exact Or.inl (h.spent q c hold)
  case slot =>
    refine (ho q.id q.serial).trans ?_
    rcases process?_of_addProcess hc with ⟨rfl, rfl⟩ | ⟨hne, hold⟩
    · exact if_pos ⟨rfl, rfl⟩
    · rw [if_neg, h.slot q c hold]
      -- An old process in that slot would have the new name.
      rintro ⟨hid, hserial⟩
      exact hne (by rw [h.own q c hold, hid, hserial])
  case owner =>
    change table.occupant i s ≠ .none at hne
    change ((n.addProcess (.ofSlot id serial n.creation) table).process?
      (.ofSlot i s n.creation)).isSome
    rw [ho] at hne
    split at hne
    next heq =>
      rw [heq.1, heq.2, process?_addProcess, if_pos rfl]
      rfl
    next => exact isSome_process?_addProcess (h.owner i s hne) _ _
  case names =>
    exact ⟨(h.names name q hq).1, lives_addProcess (h.names name q hq).2 _ _⟩
  case routes =>
    exact lives_addProcess (h.routes node route hr) _ _
  case targets =>
    exact isSome_process?_addProcess (h.targets d hd) _ _

/-! ## A process leaves -/

/-- A process leaves, dead or forgotten: its slot, its names and its routes go
    with it, and all others stay as they are. -/
theorem Coherent.vacate {n n' : Node} (h : n.Coherent) {p : Pid} {c₀ : Process}
    (hp : n.process? p = some c₀) (hcreation : n'.creation = n.creation)
    (htable : n'.table = (n.table.remove p.id p.serial).2)
    (hnames : n'.names = n.names.unregisterAll p) (hrouters : n'.routers = n.routers.unregister p)
    (hself : ∀ c, n'.process? p = some c → c.isAlive = false ∧ c.Sound)
    (hother : ∀ q, q ≠ p → n'.process? q = n.process? q)
    (htargets : ∀ d ∈ n'.queue.signals, (n'.process? d.target).isSome) : n'.Coherent := by
  have hlives : ∀ q, q ≠ p → n.lives q = true → n'.lives q = true := by
    intro q hne hq
    rw [lives, hother q hne]
    exact hq
  have hocc : ∀ i s, n'.table.occupant i s =
      if i = p.id ∧ s = p.serial then .none else n.table.occupant i s := by
    intro i s
    rw [htable, ProcessTable.occupant_remove]
  refine ⟨?table, ?own, ?sound, ?spent, ?slot, ?owner, ?names, ?routes, htargets⟩
  case table =>
    rw [htable]
    exact ProcessTable.sound_remove h.table p.id p.serial
  case own =>
    intro q c hc
    rw [hcreation]
    by_cases hq : q = p
    · rw [hq]
      exact h.own p c₀ hp
    · exact h.own q c (hother q hq ▸ hc)
  case sound =>
    intro q c hc
    by_cases hq : q = p
    · rw [hq] at hc
      exact (hself c hc).2
    · exact h.sound q c (hother q hq ▸ hc)
  case spent =>
    -- A slot that is given back keeps the generations it has seen.
    intro q c hc
    rw [htable, ProcessTable.spent_remove h.table]
    by_cases hq : q = p
    · rw [hq]
      exact h.spent p c₀ hp
    · exact h.spent q c (hother q hq ▸ hc)
  case slot =>
    intro q c hc
    rw [hocc]
    by_cases hq : q = p
    · rw [hq] at hc ⊢
      rw [if_pos ⟨rfl, rfl⟩, (hself c hc).1]
      rfl
    · rw [hother q hq] at hc
      -- Another process is in another slot.
      rw [if_neg (fun hs => hq (h.eq_of_slot hp hc hs.1 hs.2))]
      exact h.slot q c hc
  case owner =>
    intro i s hne
    rw [hocc] at hne
    split at hne
    next => exact absurd rfl hne
    next hslot =>
      rw [hcreation]
      rw [hother]
      · exact h.owner i s hne
      · intro heq
        rw [← heq] at hslot
        exact hslot ⟨rfl, rfl⟩
  case names =>
    intro name q hq
    -- What is still registered did not belong to the one that left.
    rw [whereis, hnames, NameRegistry.whereis_unregisterAll, Option.filter_eq_some_iff,
      decide_eq_true_iff] at hq
    exact ⟨(h.names name q hq.1).1, hlives q hq.2 (h.names name q hq.1).2⟩
  case routes =>
    intro node route hr
    rw [hrouters, RouterTable.routesTo_unregister, List.mem_filter, decide_eq_true_iff] at hr
    exact hlives _ hr.2 (h.routes node route hr.1)

/-- What a death queues was sent as one of the farewells. -/
theorem mem_farewellsOf {n : Node} {p : Pid} {c : Process} {reason : Term} {d : Delivery}
    (hd : d ∈ n.farewellsOf p c reason) :
    ∃ e ∈ c.farewells reason, d ∈ n.deliveries p e.2 (.pid e.1) := List.mem_flatMap.mp hd

/-- A process that ends stays as a dead one. It gives back its slot with the names and routes that
    went by it, and its farewells go to the living. -/
theorem Coherent.fall {n : Node} (h : n.Coherent) {p : Pid} {c₀ : Process}
    (hp : n.process? p = some c₀) (c : Process) (reason : Term) :
    (n.fall p c (Reason.recorded reason)).Coherent := by
  refine h.vacate hp rfl rfl rfl rfl ?_ ?_ ?_
  · intro c' hc'
    rcases process?_of_fall hc' with ⟨-, rfl⟩ | ⟨hne, -⟩
    · exact ⟨rfl, Process.sound_die c reason⟩
    · exact absurd rfl hne
  · intro q hne
    rw [process?_fall, if_neg hne]
  · intro d hd
    have hsome : (n.process? d.target).isSome := by
      rw [signals_fall, List.mem_append] at hd
      rcases hd with hd | hd
      · exact h.targets d hd
      · rcases mem_farewellsOf hd with ⟨e, -, hd⟩
        exact isSome_of_lives (h.lives_of_delivery hd)
    rw [process?_fall]
    split
    · rw [Option.isSome_map]
      exact hsome
    · exact hsome

/-- What the dead answer goes to somebody alive, or nowhere. -/
theorem Coherent.answers {n : Node} (h : n.Coherent) (d : Delivery) :
    (n.queueAll (n.answers d)).Coherent := by
  refine h.queueAll fun d' hd' => ?_
  rw [Node.answers] at hd'
  split at hd'
  · exact h.lives_of_delivery hd'
  · exact absurd hd' List.not_mem_nil

/-- Whatever becomes of the target of a signal, the tables agree about it afterwards. -/
theorem Coherent.handle {n : Node} (h : n.Coherent) (d : Delivery) : (n.handle d).Coherent := by
  rcases hc : n.process? d.target with _ | c
  · rw [handle_of_none hc]
    exact h
  · rcases handle_cases hc with ⟨-, hd⟩ | ⟨ha, c', hr, hd⟩ | ⟨-, reason, -, -, hd⟩ <;> rw [hd]
    · exact h.answers d
    · rcases Process.reactAlive_become hr with ⟨hlife, -, hnotice, hclosed⟩
      refine h.update fun c₁ hc₁ => ?_
      rw [hc, Option.some.injEq] at hc₁
      rw [← hc₁]
      refine ⟨hlife, fun hs => ?_⟩
      -- It was open before, and a reaction neither closes nor ends it.
      have ho := hs.alive (Process.isAlive_iff.mp ha)
      exact Process.sound_of_alive (hlife.trans (Process.isAlive_iff.mp ha)) (hclosed.trans ho.1)
        (hnotice.trans ho.2)
    · exact h.fall hc _ reason

/-- A dead process leaves nothing behind when it is forgotten. -/
theorem Coherent.forget {n : Node} (h : n.Coherent) {p : Pid} (hdead : n.lives p = false)
    (ht : n.queue.targets p = false) : (n.forget p).Coherent := by
  have hne : ∀ q, n.lives q = true → q ≠ p := by
    intro q hq heq
    rw [heq, hdead] at hq
    exact absurd hq (by simp)
  have hlives : ∀ q, n.lives q = true → (n.forget p).lives q = true := by
    intro q hq
    rw [lives, process?_forget, if_neg (hne q hq)]
    exact hq
  have hold : ∀ q c, (n.forget p).process? q = some c → n.process? q = some c :=
    fun q c hc => (process?_of_forget hc).2
  refine ⟨h.table, fun q c hc => h.own q c (hold q c hc), fun q c hc => h.sound q c (hold q c hc),
    fun q c hc => h.spent q c (hold q c hc), fun q c hc => h.slot q c (hold q c hc), ?_,
    fun name q hq => ⟨(h.names name q hq).1, hlives q (h.names name q hq).2⟩,
    fun node route hr => hlives _ (h.routes node route hr), ?_⟩
  · intro i s ho
    -- A slot that is held has a living owner, so it is not the one forgotten.
    rcases Option.isSome_iff_exists.mp (h.owner i s ho) with ⟨c, hc⟩
    have hslot := h.slot _ c hc
    have ha : c.isAlive = true := by
      by_cases ha : c.isAlive = true
      · exact ha
      · rw [if_neg ha] at hslot
        exact absurd hslot ho
    exact isSome_of_lives (hlives _ (lives_of hc ha))
  · intro d hd
    rw [process?_forget, if_neg (target_ne_of_targets ht hd)]
    exact h.targets d hd

/-- A process that nobody holds leaves the table of processes. If it was alive it takes its slot,
    its names and its routes along; if it was dead they are gone already. -/
theorem Coherent.reclaim {n : Node} (h : n.Coherent) (p : Pid) : (n.reclaim p).Coherent := by
  rcases reclaim_cases n p with ⟨hr, -⟩ | ⟨c, hc, -, ht, ⟨-, hr⟩ | ⟨ha, hr⟩⟩ <;> rw [hr]
  · exact h
  · -- It disappears alive, so it is as if it had fallen, only that not even a dead process stays.
    refine h.vacate hc rfl rfl rfl rfl ?_ ?_ ?_
    · intro c' hc'
      change (n.forget p).process? p = some c' at hc'
      rw [process?_forget, if_pos rfl] at hc'
      exact absurd hc' (by simp)
    · intro q hne
      change (n.forget p).process? q = n.process? q
      rw [process?_forget, if_neg hne]
    · intro d hd
      change ((n.forget p).process? d.target).isSome
      rw [process?_forget, if_neg (target_ne_of_targets ht hd)]
      exact h.targets d hd
  · refine h.forget ?_ ht
    rw [lives_of_process? hc, ha]

end Node

end Actors
