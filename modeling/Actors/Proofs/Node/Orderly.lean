import Actors.Proofs.Node.Moves

/-!
# Every State of a Node Is in Order

What can be seen from outside of the agreement between the tables of a node:
a name resolves exactly if its process is alive and somebody holds it, the
processes in reach are counted and never too many, names and routes lead to
living processes, and a process that ended has left nothing but its reason.

That somebody holds a process fails for one process at a time, between the
moment its last queued signal is taken and the moment it is let go; `HeldBut`
names the exception.

## Main definitions

* `Node.isHeld`: Whether there is a handle to a process, or a queued signal for it.
* `Node.HeldBut`: Every process is held, with an exception allowed.
* `Node.Orderly`: What can be seen from outside.

## Theorems

* `held_step`: Every operation keeps every process held.
* `limit_run`: The limit of a node stays what it was configured to be.
* `orderly_run`: Every state of every run is in order.
-/

namespace Actors

namespace Node

/-! ## Every process is held -/

/-- Whether there is a handle to a process, or a queued signal for it. -/
def isHeld (n : Node) (p : Pid) : Bool :=
  (n.process? p).any fun c => c.handles ≠ 0 || n.queue.targets p

/-- Every process is held, but those excepted. -/
def HeldBut (n : Node) (excepted : Pid → Prop) : Prop :=
  ∀ p c, n.process? p = some c → ¬ excepted p → c.handles ≠ 0 ∨ n.queue.targets p = true

/-- Every process is held. -/
def Held (n : Node) : Prop := n.HeldBut fun _ => False

theorem Held.isHeld {n : Node} (h : n.Held) {p : Pid} {c : Process} (hc : n.process? p = some c) :
    n.isHeld p = true := by
  rw [Node.isHeld, hc, Option.any_some, Bool.or_eq_true, decide_eq_true_iff]
  exact h p c hc id

/-- A change by which no process loses a handle and no signal is taken away. -/
theorem HeldBut.mono {n n' : Node} {e : Pid → Prop} (h : n.HeldBut e)
    (hp : ∀ p c', n'.process? p = some c' →
      c'.handles ≠ 0 ∨ ∃ c, n.process? p = some c ∧ (c.handles ≠ 0 → c'.handles ≠ 0))
    (hq : n.queue.signals ⊆ n'.queue.signals) : n'.HeldBut e := by
  intro p c' hc' he
  rcases hp p c' hc' with hpos | ⟨c, hc, hle⟩
  · exact Or.inl hpos
  · rcases h p c hc he with hpos | ht
    · exact Or.inl (hle hpos)
    · rcases targets_iff.mp ht with ⟨d, hd, heq⟩
      exact Or.inr (targets_iff.mpr ⟨d, hq hd, heq⟩)

/-- Signals that are queued hold more processes, not fewer. -/
theorem HeldBut.queueAll {n : Node} {e : Pid → Prop} (h : n.HeldBut e) (ds : List Delivery) :
    (n.queueAll ds).HeldBut e := by
  refine h.mono (fun p c hc => Or.inr ⟨c, hc, id⟩) ?_
  rw [signals_queueAll]
  exact List.subset_append_left _ _

/-- A change of a process that leaves it its handles. -/
theorem HeldBut.update {n : Node} {e : Pid → Prop} (h : n.HeldBut e) {p : Pid}
    {f : Process → Process} (hf : ∀ c, n.process? p = some c → c.handles ≠ 0 → (f c).handles ≠ 0) :
    (n.update p f).HeldBut e := by
  refine h.mono (fun q c' hc' => ?_) (fun d hd => hd)
  rcases process?_of_update hc' with ⟨c, rfl, hc, rfl⟩ | ⟨-, hold⟩
  · exact Or.inr ⟨c, hc, hf c hc⟩
  · exact Or.inr ⟨c', hold, id⟩

/-- Letting a process go when nobody holds it restores what was excepted. -/
theorem held_reclaim {n : Node} {p : Pid} (h : n.HeldBut (· = p)) : (n.reclaim p).Held := by
  -- The process that was excepted is gone, and all others were held.
  have hforget : (n.forget p).Held := by
    intro q c hc _
    rcases process?_of_forget hc with ⟨hne, hold⟩
    exact h q c hold hne
  rcases reclaim_cases n p with ⟨hr, hheld⟩ | ⟨c, -, -, -, ⟨-, hr⟩ | ⟨-, hr⟩⟩ <;> rw [hr]
  · intro q c hc _
    by_cases hq : q = p
    · rw [hq] at hc ⊢
      exact hheld c hc
    · exact h q c hc hq
  · exact hforget
  · exact hforget

theorem HeldBut.fall {n : Node} {e : Pid → Prop} (h : n.HeldBut e) {p : Pid} {c₀ : Process}
    (hp : n.process? p = some c₀) {c : Process} (hc : c.handles = c₀.handles) (reason : Term) :
    (n.fall p c reason).HeldBut e := by
  refine (h.update (p := p) (f := fun _ => c.die reason) fun c₁ hc₁ hpos => ?_).queueAll _
  rw [hp, Option.some.injEq] at hc₁
  change c.handles ≠ 0
  rwa [hc, hc₁]

/-- A signal that is handled drops no handle. What it held in the queue is excepted by the
    caller. -/
theorem HeldBut.handle {n : Node} {e : Pid → Prop} (h : n.HeldBut e) (d : Delivery) :
    (n.handle d).HeldBut e := by
  rcases hc : n.process? d.target with _ | c
  · rw [handle_of_none hc]
    exact h
  · rcases handle_cases hc with ⟨-, hd⟩ | ⟨-, c', hr, hd⟩ | ⟨-, reason, -, -, hd⟩ <;> rw [hd]
    · exact h.queueAll _
    · refine h.update fun c₁ hc₁ hpos => ?_
      rw [hc, Option.some.injEq] at hc₁
      rwa [(Process.reactAlive_become hr).2.1, hc₁]
    · exact h.fall hc (c := { c with links := c.links.erase d.sender }) rfl _

/-- Moves drop no handle and take nothing out of the queue. -/
theorem held_move {K : Ref → Prop} {n n' : Node} (hm : Move K n n') (h : n.Held) : n'.Held := by
  cases hm with
  | queue ds => exact HeldBut.queueAll h ds
  | edit p f hf => exact HeldBut.update h fun c hc => (hf c hc).handles
  | insert id serial table =>
      refine HeldBut.mono h (fun q c hc => ?_) (fun d hd => hd)
      rcases process?_of_addProcess hc with ⟨-, rfl⟩ | ⟨-, hold⟩
      · exact Or.inl (by simp [Process.fresh])
      · exact Or.inr ⟨c, hold, fun hpos => hpos⟩
  | beginTurn =>
      refine HeldBut.mono h (fun p c hc => Or.inr ⟨c, hc, id⟩) fun d hd => ?_
      change d ∈ n.queue.beginTurn.signals
      rwa [Dispatcher.signals_beginTurn]
  | _ => exact h

/-- A handle is dropped, and if it was the last hold of the process, the process is gone. -/
theorem held_letGo {n : Node} (h : n.Held) (p : Pid) : (n.letGo p).Held := by
  refine held_reclaim fun q c hc hne => ?_
  rw [process?_update, if_neg hne] at hc
  exact h q c hc id

/-- A signal is handled, and if it was the last hold of its target, the target is gone. -/
theorem held_handleInHand {n : Node} (h : n.Held) : n.handleInHand.Held := by
  rcases handleInHand_cases n with ⟨-, hi⟩ | ⟨d, q, -, hs, hi⟩ <;> rw [hi]
  · exact h
  · refine held_reclaim (HeldBut.handle (fun p c hc hne => ?_) d)
    -- Only the target of the signal that was taken may have lost its last hold.
    rcases h p c hc id with hpos | ht
    · exact Or.inl hpos
    · rcases targets_iff.mp ht with ⟨d', hd', heq⟩
      rw [hs, List.mem_cons] at hd'
      rcases hd' with rfl | hd'
      · exact absurd heq.symm hne
      · exact Or.inr (targets_iff.mpr ⟨d', hd', heq⟩)

/-- After every operation every process is held. This is what keeps the table free of processes that
    nobody could ever reach. -/
theorem held_step {n : Node} (hc : n.Coherent) (h : n.Held) (op : NodeOp) : (n.step op).Held := by
  by_cases hop : op.isPlain = true
  · exact (moves_step hc hop).induction (P := Held) (fun _ _ hm hh => held_move hm hh) h
  · cases op with
    | die p reason =>
        rw [step]
        rcases die_cases n p reason with ⟨hd, -⟩ | ⟨c, hc, -, hd⟩ <;> rw [hd]
        · exact h
        · exact HeldBut.fall h hc rfl _
    | letGo p => exact held_letGo h p
    | handleInHand => exact held_handleInHand h
    | _ => exact absurd rfl hop

/-- So it is in every state that a node can reach. -/
theorem Reachable.held {n : Node} (h : n.Reachable) : n.Held := by
  rcases h with ⟨config, ops, rfl⟩
  refine run_new_induction (P := Held) (fun _ _ hc _ => absurd hc (by simp [process?, new]))
    (fun m op hm hh => held_step hm hh op) ops

/-! ## The processes are counted -/

theorem limit_move {K : Ref → Prop} {n n' : Node} (hm : Move K n n') (h : n.Coherent) :
    n'.table.limit = n.table.limit := by
  cases hm with
  | mint id serial table hmint => exact (ProcessTable.issues_mint h.table hmint).1.limit
  | insert id serial table hi => exact (ProcessTable.issues_insert h.table hi).1.limit
  | _ => rfl

theorem limit_reclaim (n : Node) (p : Pid) : (n.reclaim p).table.limit = n.table.limit := by
  rcases reclaim_cases n p with ⟨hr, -⟩ | ⟨c, -, -, -, ⟨-, hr⟩ | ⟨-, hr⟩⟩ <;> rw [hr]
  · exact ProcessTable.limit_remove _ _ _
  · rfl

theorem limit_handle (n : Node) (d : Delivery) : (n.handle d).table.limit = n.table.limit := by
  rcases hc : n.process? d.target with _ | c
  · rw [handle_of_none hc]
  · rcases handle_cases hc with ⟨-, hd⟩ | ⟨-, c', -, hd⟩ | ⟨-, reason, -, -, hd⟩ <;> rw [hd]
    · rfl
    · rfl
    · exact ProcessTable.limit_remove _ _ _

/-- No operation changes the limit. -/
theorem limit_step {n : Node} (h : n.Coherent) (op : NodeOp) :
    (n.step op).table.limit = n.table.limit := by
  by_cases hop : op.isPlain = true
  · exact (moves_step h hop).induction_coherent (P := fun m => m.table.limit = n.table.limit) h
      (fun _ _ hm hmove hlimit => (limit_move hmove hm).trans hlimit) rfl
  · cases op with
    | die p reason =>
        rw [step]
        rcases die_cases n p reason with ⟨hd, -⟩ | ⟨c, -, -, hd⟩ <;> rw [hd]
        exact ProcessTable.limit_remove _ _ _
    | letGo p => exact limit_reclaim _ p
    | handleInHand =>
        rw [step]
        rcases handleInHand_cases n with ⟨-, hi⟩ | ⟨d, q, -, -, hi⟩ <;> rw [hi]
        rw [limit_reclaim, limit_handle]
        rfl
    | _ => exact absurd rfl hop

theorem limit_run (config : NodeConfig) (ops : List NodeOp) :
    ((new config).run ops).table.limit = config.maxProcesses :=
  run_new_induction (P := fun m => m.table.limit = config.maxProcesses) rfl
    (fun _ op hm hlimit => (limit_step hm op).trans hlimit) ops

/-- The names in reach are those of the living processes. -/
theorem Coherent.mem_living {n : Node} (h : n.Coherent) {p : Pid} :
    p ∈ n.living ↔ n.lives p = true := by
  rw [living, List.mem_map]
  constructor
  · rintro ⟨⟨id, serial⟩, hmem, rfl⟩
    rw [ProcessTable.mem_occupied_iff h.table.arranged] at hmem
    rw [← h.resolves_iff, resolves, ProcessTable.resolves]
    simp only [Pid.isLocal, Pid.ofSlot, beq_self_eq_true, Bool.true_and]
    exact decide_eq_true hmem
  · intro hlives
    rcases lives_iff.mp hlives with ⟨c, hc, ha⟩
    refine ⟨(p.id, p.serial), ?_, (h.own p c hc).symm⟩
    rw [ProcessTable.mem_occupied_iff h.table.arranged, h.slot p c hc, if_pos ha]

/-- No living process is listed twice, as no slot is. -/
theorem Coherent.nodup_living {n : Node} (h : n.Coherent) : n.living.Nodup := by
  rw [living, List.Nodup, List.pairwise_map]
  refine (ProcessTable.nodup_occupied h.table.arranged).imp ?_
  rintro ⟨id, serial⟩ ⟨id', serial'⟩ hne heq
  simp only [Pid.ofSlot, Pid.mk.injEq, true_and, and_true] at heq
  exact hne (by rw [heq.1, heq.2])

/-- No slot is held by a process out of reach. -/
theorem Coherent.length_living {n : Node} (h : n.Coherent) : n.living.length = n.processCount := by
  rw [living, List.length_map, ProcessTable.length_occupied, processCount, h.table.live_eq]
  refine List.countP_congr fun s hs => ?_
  rcases List.getElem?_of_mem hs with ⟨i, hi⟩
  have hlt := (List.getElem?_eq_some_iff.mp hi).1
  have hslot : n.table.slot? i.toUInt32 = some s := by
    rw [ProcessTable.slot?, ProcessTable.toNat_toUInt32 h.table.arranged hlt]
    exact hi
  have hocc : n.table.occupant i.toUInt32 s.serial = s.occupant := by
    rw [ProcessTable.occupant_eq hslot, if_pos rfl]
  rw [decide_eq_true_iff, Slot.isOccupied, decide_eq_true_iff]
  constructor
  · intro hreach
    rw [hreach]
    simp
  · intro hne
    -- An entry that is held belongs to a process, which is alive and so in reach.
    have howner := h.owner i.toUInt32 s.serial (by rwa [hocc])
    rcases Option.isSome_iff_exists.mp howner with ⟨c, hc⟩
    have hs' := h.slot _ c hc
    change n.table.occupant i.toUInt32 s.serial = _ at hs'
    rw [hocc] at hs'
    split at hs'
    · exact hs'
    · exact absurd hs' hne

/-- The processes that are alive and held. -/
def aliveEntries (n : Node) : List (Pid × Process) :=
  n.processes.entries.filter fun e => e.2.isAlive && n.isHeld e.1

theorem Coherent.length_aliveEntries {n : Node} (h : n.Coherent) (hheld : n.Held) :
    n.aliveEntries.length = n.processCount := by
  have hnodup : (n.aliveEntries.map Prod.fst).Nodup :=
    n.processes.nodup.sublist (List.filter_sublist.map Prod.fst)
  -- Both lists name each living process once.
  have hperm : (n.aliveEntries.map Prod.fst).Perm n.living := by
    refine (List.perm_ext_iff_of_nodup hnodup h.nodup_living).mpr fun p => ?_
    rw [h.mem_living, List.mem_map]
    -- What the table of processes says about life, the table of slots says about reach.
    constructor
    · rintro ⟨⟨q, c⟩, hmem, rfl⟩
      rw [aliveEntries, List.mem_filter, Bool.and_eq_true] at hmem
      exact lives_of (Dict.mem_entries_iff.mp hmem.1) hmem.2.1
    · intro hlives
      rcases lives_iff.mp hlives with ⟨c, hc, ha⟩
      refine ⟨(p, c), ?_, rfl⟩
      rw [aliveEntries, List.mem_filter, Bool.and_eq_true]
      exact ⟨Dict.mem_entries_iff.mpr hc, ha, hheld.isHeld hc⟩
  rw [← h.length_living, ← hperm.length_eq, List.length_map]

/-! ## Seen from outside -/

/-- What can be seen of the invariant from outside. -/
structure Orderly (n : Node) (limit : Option Nat) : Prop where
  /-- A name resolves exactly if its process is alive and held. -/
  resolves_iff : ∀ p, (n.lookup p).isSome ↔
    ∃ c, n.process? p = some c ∧ c.isAlive = true ∧ n.isHeld p = true
  /-- The table counts the processes in reach. -/
  count_living : n.processCount = n.living.length
  /-- They are the processes that are alive and held. -/
  count_alive : n.processCount = n.aliveEntries.length
  /-- There are no more of them than there may be. -/
  count_le : ∀ m, limit = some m → n.processCount ≤ m
  /-- A name belongs to a living process in reach, and may be registered. -/
  names : ∀ name p, n.whereis name = some p →
    n.isAlive p = true ∧ name ≠ "" ∧ name ≠ "undefined"
  /-- A route goes through a living process in reach. -/
  routes : ∀ node route, route ∈ n.routers.routesTo node → n.isAlive route.router = true
  /-- Nothing is left of a process that ended but its reason. -/
  ended : ∀ p c reason, n.process? p = some c → c.exitReason = some reason →
    c.Ended reason ∧ n.table.occupant p.id p.serial = .none ∧
      (∀ name, n.whereis name ≠ some p) ∧
      ∀ node route, route ∈ n.routers.routesTo node → route.router ≠ p

/-- Every state of every run is orderly. -/
theorem orderly_run (config : NodeConfig) (ops : List NodeOp) :
    ((new config).run ops).Orderly config.maxProcesses := by
  have hreach : ((new config).run ops).Reachable := ⟨config, ops, rfl⟩
  have h := hreach.coherent
  have hheld := hreach.held
  have hdead : ∀ p c reason, ((new config).run ops).process? p = some c →
      c.life = .dead reason → ((new config).run ops).lives p = false := by
    intro p c reason hc hl
    rw [lives_of_process? hc, Process.isAlive, hl]
    rfl
  refine ⟨?_, h.length_living.symm, (h.length_aliveEntries hheld).symm, ?_, ?_, ?_, ?_⟩
  · intro p
    rw [h.isSome_lookup, lives_iff]
    constructor
    · rintro ⟨c, hc, ha⟩
      exact ⟨c, hc, ha, hheld.isHeld hc⟩
    · rintro ⟨c, hc, ha, -⟩
      exact ⟨c, hc, ha⟩
  · intro m hm
    exact h.table.live_le m ((limit_run config ops).trans hm)
  · intro name p hp
    rw [h.isAlive_eq]
    have hname := h.names name p hp
    rw [isValidName, Bool.and_eq_true, decide_eq_true_iff, decide_eq_true_iff] at hname
    exact ⟨hname.2, hname.1⟩
  · intro node route hr
    rw [h.isAlive_eq]
    exact h.routes node route hr
  · intro p c reason hc hr
    have hl : c.life = .dead reason := by
      rw [Process.exitReason] at hr
      rcases hl : c.life with _ | r
      · rw [hl] at hr
        exact absurd hr (by simp)
      · rw [hl, Option.some.injEq] at hr
        rw [hr]
    -- Names and routes lead to the living only, and this one is dead.
    have hnot := hdead p c reason hc hl
    refine ⟨(h.sound p c hc).ended reason hl, ?_, ?_, ?_⟩
    · rw [h.slot p c hc, if_neg]
      rw [Process.isAlive, hl]
      simp
    · intro name hname
      have hlives := (h.names name p hname).2
      rw [hnot] at hlives
      exact absurd hlives (by simp)
    · intro node route hroute heq
      have hlives := h.routes node route hroute
      rw [heq, hnot] at hlives
      exact absurd hlives (by simp)

end Node

end Actors
