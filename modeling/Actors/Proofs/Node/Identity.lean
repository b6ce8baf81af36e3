import Actors.Proofs.Node.Ageing

/-!
# Names Are Given Out Once

A process name is a slot in a generation, and an operation gives out one name
at most. The name it gives out is not spent before and is spent after, and
nothing else spends a name. Spent names stay spent, and with a generation of a
slot all earlier ones are spent too. So the names a run gives out of one slot
go up in generation, however often the slot changes hands and whether it was a
process that had it or a name without one. A slot in its last generation is
not given out again.

Who is alive after an operation was alive before it or was made by it. Traced
back through a run this gives every living process the operation that made it
under just that name. A name that is spent and does not belong to a living
process will never belong to one again.

## Main definitions

* `Node.births`, `Node.mints`: The names an operation gives to processes, and
  those no process will have.
* `Node.GivenOnce`: What holds of the names that a run gives out.

## Theorems

* `issues_cases`: An operation gives out one new name, or none.
* `rising_issues`: The names of one slot go up in generation.
* `lives_step`: Who is alive was alive before, or was just made.
* `origin_of_lives`: Who is alive was made by an operation of the run.
* `given_once`: No name is given out twice, and none comes back.
-/

namespace Actors

namespace Node

/-- The names an operation gives to processes. -/
def births (n : Node) : NodeOp → List Pid
  | .makePid => []
  | op => n.issues op

/-- The names an operation gives out that no process will have. -/
def mints (n : Node) : NodeOp → List Pid
  | .makePid => n.issues .makePid
  | _ => []

variable {n : Node}

/-- The names of the processes that are born are given out. -/
theorem issues_of_births {op : NodeOp} {p : Pid} (h : p ∈ n.births op) : p ∈ n.issues op := by
  cases op with
  | makePid => exact absurd h List.not_mem_nil
  | _ => exact h

/-- The names that nobody will have are given out too. -/
theorem issues_of_mints {op : NodeOp} {p : Pid} (h : p ∈ n.mints op) : p ∈ n.issues op := by
  cases op with
  | makePid => exact h
  | _ => exact absurd h List.not_mem_nil

/-! ## One operation -/

/-- A monitor is nothing to the table of processes. -/
theorem table_track (n : Node) (watcher : Pid) (ref : Ref) (watchee : Pid) :
    (n.track watcher ref watchee).table = n.table := by
  rcases track_cases n watcher ref watchee with h | h <;> rw [h]
  rfl

/-- A death frees a slot, but spends no name and makes none new. -/
theorem spent_fall (h : n.table.Sound) (p : Pid) (c : Process) (reason : Term)
    (id serial : UInt32) :
    (n.fall p c reason).table.Spent id serial ↔ n.table.Spent id serial :=
  ProcessTable.spent_remove h p.id p.serial id serial

/-- A process that disappears does not make its name new. -/
theorem spent_reclaim (h : n.table.Sound) (p : Pid) (id serial : UInt32) :
    (n.reclaim p).table.Spent id serial ↔ n.table.Spent id serial := by
  rcases reclaim_cases n p with ⟨hr, -⟩ | ⟨c, -, -, -, ⟨-, hr⟩ | ⟨-, hr⟩⟩ <;> rw [hr]
  · exact ProcessTable.spent_remove h p.id p.serial id serial
  · rfl

/-- Nor does a signal, whatever becomes of its target. -/
theorem spent_handle (h : n.table.Sound) (d : Delivery) (id serial : UInt32) :
    (n.handle d).table.Spent id serial ↔ n.table.Spent id serial := by
  rcases hc : n.process? d.target with _ | c
  · rw [handle_of_none hc]
  · rcases handle_cases hc with ⟨-, hd⟩ | ⟨-, c', -, hd⟩ | ⟨-, reason, -, -, hd⟩ <;> rw [hd]
    · rfl
    · rfl
    · exact spent_fall h d.target _ _ id serial

/-- A process that is made gets a new name. -/
theorem issues_makeProcess (h : n.Coherent) {p : Pid} {n' : Node}
    (hm : n.makeProcess = (.ok p, n')) :
    ∃ id serial, p = .ofSlot id serial n.creation ∧ n.table.Issues n'.table id serial := by
  rcases makeProcess_ok hm with ⟨id, serial, table, hi, rfl, rfl⟩
  exact ⟨id, serial, rfl, (ProcessTable.issues_insert h.table hi).1⟩

/-- An operation gives out one new name, or none, and spends no other. -/
theorem issues_cases (h : n.Coherent) (op : NodeOp) :
    (n.issues op = [] ∧
      ∀ id serial, (n.step op).table.Spent id serial ↔ n.table.Spent id serial) ∨
    ∃ id serial, n.issues op = [.ofSlot id serial n.creation] ∧
      n.table.Issues (n.step op).table id serial := by
  have hkept : op.isClerical = true ∨ op.isPosting = true →
      ∀ id serial, (n.step op).table.Spent id serial ↔ n.table.Spent id serial := by
    intro hop id serial
    rw [(processes_step n hop).2.1]
  cases op with
  -- A name is given out with a slot, by the operations that take one.
  | makePid =>
      rw [issues, step]
      rcases makePid_cases n with he | ⟨id, serial, table, hm, he⟩ <;> rw [he]
      · exact Or.inl ⟨rfl, fun _ _ => Iff.rfl⟩
      · exact Or.inr ⟨id, serial, rfl, (ProcessTable.issues_mint h.table hm).1⟩
  | spawn =>
      rw [issues, step, spawn]
      rcases makeProcess_cases n with he | ⟨id, serial, table, hi, he⟩ <;> rw [he]
      · exact Or.inl ⟨rfl, fun _ _ => Iff.rfl⟩
      · exact Or.inr ⟨id, serial, rfl, (ProcessTable.issues_insert h.table hi).1⟩
  | spawnLink linked =>
      rw [issues, step]
      rcases spawnLink_cases n linked with he | ⟨p, n', hm, he⟩ <;> rw [he]
      · exact Or.inl ⟨rfl, fun _ _ => Iff.rfl⟩
      · rcases issues_makeProcess h hm with ⟨id, serial, rfl, hissue⟩
        exact Or.inr ⟨id, serial, rfl, hissue⟩
  | spawnMonitor watcher =>
      rw [issues, step]
      rcases spawnMonitor_cases n watcher with he | ⟨p, n', hm, he⟩ <;> rw [he]
      · exact Or.inl ⟨rfl, fun _ _ => Iff.rfl⟩
      · rcases issues_makeProcess h hm with ⟨id, serial, rfl, hissue⟩
        refine Or.inr ⟨id, serial, rfl, ?_⟩
        rw [table_track]
        exact hissue
  | monitor watcher watchee =>
      refine Or.inl ⟨rfl, fun _ _ => ?_⟩
      have htable : (n.monitor watcher watchee).2.table = n.table := by
        rw [monitor_eq]
        exact table_track n.countRef watcher n.nextRef watchee
      rw [step, htable]
  | demonitor watcher ref =>
      refine Or.inl ⟨rfl, fun _ _ => ?_⟩
      rw [step]
      rcases demonitor_cases n watcher ref with hd | ⟨c, watchee, -, -, hd⟩ <;> rw [hd]
      rfl
  -- A slot that is given back is as spent as it was.
  | die p reason =>
      refine Or.inl ⟨rfl, fun id serial => ?_⟩
      rw [step]
      rcases die_cases n p reason with ⟨hd, -⟩ | ⟨c, -, -, hd⟩ <;> rw [hd]
      exact spent_fall h.table p c _ id serial
  | letGo p =>
      refine Or.inl ⟨rfl, fun id serial => ?_⟩
      rw [step, letGo_eq, spent_reclaim (n := n.loosen p) h.table]
      rfl
  | handleInHand =>
      refine Or.inl ⟨rfl, fun id serial => ?_⟩
      rw [step]
      rcases handleInHand_cases n with ⟨-, hi⟩ | ⟨d, q, -, hs, hi⟩ <;> rw [hi]
      rw [spent_reclaim ((h.next hs).handle d).table, spent_handle (h.next hs).table]
      rfl
  | signal | link | unlink => exact Or.inl ⟨rfl, hkept (Or.inr rfl)⟩
  | register | unregister | registerRouter | unregisterRouter | nodeIndex | remotePid =>
      exact Or.inl ⟨rfl, hkept (Or.inl rfl)⟩
  | makeRef | setFlag | receive | reorder | retain | beginTurn =>
      exact Or.inl ⟨rfl, fun _ _ => Iff.rfl⟩

/-- A name that is given out is a name of this node, and was not given out before. -/
theorem fresh_of_issues (h : n.Coherent) {op : NodeOp} {p : Pid} (hp : p ∈ n.issues op) :
    p = .ofSlot p.id p.serial n.creation ∧ ¬ n.table.Spent p.id p.serial := by
  rcases issues_cases h op with ⟨hi, -⟩ | ⟨id, serial, hi, hissue⟩ <;> rw [hi] at hp
  · exact absurd hp List.not_mem_nil
  · rw [List.mem_singleton] at hp
    rw [hp]
    exact ⟨rfl, hissue.fresh⟩

/-- A name that is minted brings nobody into being and sends nobody away. -/
theorem process?_makePid (n : Node) (p : Pid) : (n.step .makePid).process? p = n.process? p := by
  rw [step]
  rcases makePid_cases n with he | ⟨id, serial, table, -, he⟩ <;> rw [he]
  rfl

/-- Who is alive was alive before, or was just made under the name. -/
theorem lives_step (h : n.Coherent) {op : NodeOp} {p : Pid} (hl : (n.step op).lives p = true) :
    n.lives p = true ∨ p ∈ n.births op := by
  by_cases hs : n.table.Spent p.id p.serial
  · exact Or.inl ((ages_step h op).lives hs hl)
  · rcases lives_iff.mp hl with ⟨c, hc, ha⟩
    have hspent := (coherent_step h op).spent p c hc
    have hown := (coherent_step h op).own p c hc
    rw [(ages_step h op).creation] at hown
    -- The name was spent by this operation, so this operation gave it out.
    rcases issues_cases h op with ⟨-, hsame⟩ | ⟨id, serial, hi, hissue⟩
    · exact absurd ((hsame _ _).mp hspent) hs
    · rcases (hissue.spent _ _).mp hspent with hold | ⟨hid, hserial⟩
      · exact absurd hold hs
      · have hmem : p ∈ n.issues op := by
          rw [hi, List.mem_singleton, hown, hid, hserial]
        cases op with
        | makePid =>
            rw [process?_makePid] at hc
            exact Or.inl (lives_of hc ha)
        | _ => exact Or.inr hmem

/-! ## The names of a run -/

/-- What a run gives out was not given out before it. -/
theorem fresh_of_collect (h : n.Coherent) {ops : List NodeOp} {p : Pid}
    (hp : p ∈ n.collect issues ops) :
    p = .ofSlot p.id p.serial n.creation ∧ ¬ n.table.Spent p.id p.serial := by
  rcases mem_collect hp with ⟨before, op, after, rfl, hop⟩
  have hage := ages_run h before
  rcases fresh_of_issues (coherent_run h before) hop with ⟨hown, hfresh⟩
  rw [hage.creation] at hown
  exact ⟨hown, fun hs => hfresh (hage.spent _ _ hs)⟩

/-- The names that a run gives out of one slot go up in generation. -/
theorem rising_issues (h : n.Coherent) (ops : List NodeOp) :
    (n.collect issues ops).Pairwise fun p q => p.id = q.id → p.serial < q.serial := by
  induction ops generalizing n with
  | nil => exact .nil
  | cons op rest ih =>
      have hstep := coherent_step h op
      rw [collect, List.pairwise_append]
      refine ⟨?_, ih hstep, fun p hp q hq hid => ?_⟩
      · rcases issues_cases h op with ⟨hi, -⟩ | ⟨id, serial, hi, -⟩ <;> rw [hi]
        · exact .nil
        · exact List.pairwise_singleton _ _
      · -- A later name that is not in a later generation would have been spent with the first.
        rw [← UInt32.not_le]
        intro hle
        have hspent := (issued_of_issues h hp).2.of_le hle
        rw [hid] at hspent
        exact (fresh_of_collect hstep hq).2 hspent

/-- A name that was given out and belongs to nobody alive stays so. -/
theorem not_resolves_of_spent (h : n.Coherent) {p : Pid} (hs : n.table.Spent p.id p.serial)
    (hl : n.lives p = false) {ops : List NodeOp} {m : Node} (hm : m ∈ n.states ops) :
    m.resolves p = false := by
  rcases mem_states hm with ⟨before, after, -, rfl⟩
  rw [Bool.eq_false_iff]
  intro hr
  rw [(coherent_run h before).resolves_iff] at hr
  rw [(ages_run h before).lives hs hr] at hl
  exact absurd hl (by simp)

/-- Who is alive was alive when the run began, or was made by an operation of it. -/
theorem origin_of_lives (h : n.Coherent) {ops : List NodeOp} {p : Pid}
    (hl : (n.run ops).lives p = true) :
    n.lives p = true ∨ ∃ before op after, ops = before ++ op :: after ∧
      p ∈ (n.run before).births op := by
  induction ops generalizing n with
  | nil => exact Or.inl hl
  | cons op rest ih =>
      -- Back from the end: the first operation is the one to blame if it gave birth to the process.
      rcases ih (coherent_step h op) hl with hnow | ⟨before, op', after, rfl, hp⟩
      · rcases lives_step h hnow with hold | hp
        · exact Or.inl hold
        · exact Or.inr ⟨[], op, rest, rfl, hp⟩
      · exact Or.inr ⟨op :: before, op', after, rfl, hp⟩

/-- Who has a spent name and is alive in the end was alive all along. -/
theorem resolves_of_lives_run (h : n.Coherent) {p : Pid} (hs : n.table.Spent p.id p.serial)
    {ops : List NodeOp} (hl : (n.run ops).lives p = true) {m : Node} (hm : m ∈ n.states ops) :
    m.resolves p = true := by
  rcases mem_states hm with ⟨before, after, rfl, rfl⟩
  rw [run_append] at hl
  have hmid := coherent_run h before
  exact hmid.resolves_iff.mpr ((ages_run hmid after).lives ((ages_run h before).spent _ _ hs) hl)

/-- As long as a process is alive its slot is given to nobody else. -/
theorem id_ne_of_collect (h : n.Coherent) {p : Pid} (hs : n.table.Spent p.id p.serial)
    {ops : List NodeOp} (hl : (n.run ops).lives p = true) {q : Pid}
    (hq : q ∈ n.collect issues ops) : q.id ≠ p.id := by
  intro hid
  have hend := coherent_run h ops
  rcases lives_iff.mp hl with ⟨c, hc, ha⟩
  have hocc := hend.slot p c hc
  rw [if_pos ha] at hocc
  -- A later name of the slot is in a later generation, but the slot is still in this one.
  have hspent := (issued_of_collect h hq).2
  rw [hid] at hspent
  have hle : q.serial ≤ p.serial := hspent.le_of_occupant (by rw [hocc]; simp)
  have hfresh := (fresh_of_collect h hq).2
  rw [hid] at hfresh
  exact hfresh (hs.of_le hle)

/-- A name that was minted belongs to nobody, before or after. -/
theorem process?_of_mints (h : n.Coherent) {op : NodeOp} {p : Pid} (hp : p ∈ n.mints op) :
    (n.step op).process? p = none := by
  have hfresh := (fresh_of_issues h (issues_of_mints hp)).2
  cases op with
  | makePid =>
      rw [process?_makePid]
      rcases hc : n.process? p with _ | c
      · rfl
      · exact absurd (h.spent p c hc) hfresh
  | _ => exact absurd hp List.not_mem_nil

/-- A name that was not given out belongs to nobody. -/
theorem not_lives_of_fresh (h : n.Coherent) {p : Pid} (hs : ¬ n.table.Spent p.id p.serial) :
    n.lives p = false := by
  rw [Bool.eq_false_iff]
  intro hl
  rcases lives_iff.mp hl with ⟨c, hc, -⟩
  exact hs (h.spent p c hc)

/-- Nobody is ever alive under a name that was minted. It belongs to nobody when it is minted, and
    from then on it is spent. -/
theorem not_lives_of_mints (h : n.Coherent) {ops : List NodeOp} {p : Pid}
    (hp : p ∈ n.collect mints ops) : (n.run ops).lives p = false := by
  rcases mem_collect hp with ⟨before, op, after, rfl, hop⟩
  have hmid := coherent_run h before
  have hspent := (issued_of_issues hmid (issues_of_mints hop)).2
  rw [run_append, run_cons, Bool.eq_false_iff]
  intro hl
  have hl' := (ages_run (coherent_step hmid op) after).lives hspent hl
  rw [lives_of_process?_none (process?_of_mints hmid hop)] at hl'
  exact absurd hl' (by simp)

/-- Whom a run ended had a name that was given out. -/
theorem spent_of_deaths (h : n.Coherent) {ops : List NodeOp} {p : Pid} {reason : Term}
    (hd : (p, reason) ∈ n.collect deaths ops) : (n.run ops).table.Spent p.id p.serial := by
  rcases mem_collect hd with ⟨before, op, after, rfl, hop⟩
  have hmid := coherent_run h before
  rcases lives_iff.mp (lives_of_deaths hop) with ⟨c, hc, -⟩
  rw [run_append]
  exact (ages_run hmid (op :: after)).spent _ _ (hmid.spent p c hc)

/-! ## The result -/

/-- What holds of the names that a run gives out. -/
structure GivenOnce (n : Node) (ops : List NodeOp) : Prop where
  /-- No name is given out twice. -/
  nodup : (n.collect issues ops).Nodup
  /-- The names of one slot go up in generation, so the generation never wraps. -/
  rising : (n.collect issues ops).Pairwise fun p q => p.id = q.id → p.serial < q.serial
  /-- A slot that was given out in its last generation is retired. -/
  retired : (n.collect issues ops).Pairwise fun p q => p.serial = maxWord → p.id ≠ q.id
  /-- The sender of signals that no process sent is not among them. -/
  system : (n.run ops).systemPid ∉ n.collect issues ops
  /-- A name that resolves, of whatever node and incarnation, was given to a
      process by one operation of the run. That process has been in reach from
      then on, and its slot was not given to anybody else. -/
  origin : ∀ p, (n.run ops).resolves p = true →
    ((n.run ops).lookup p).isSome ∧ ∃ before op after, ops = before ++ op :: after ∧
      p ∈ (n.run before).births op ∧
      (∀ m ∈ (n.run (before ++ [op])).states after, m.resolves p = true) ∧
      ∀ q ∈ (n.run (before ++ [op])).collect issues after, q.id ≠ p.id
  /-- A name that is not for a process never resolves. -/
  minted : ∀ p ∈ n.collect mints ops, ∀ m ∈ n.states ops, m.resolves p = false
  /-- The name of a process that died does not resolve from then on. -/
  dead : ∀ before after p reason, ops = before ++ after →
    (p, reason) ∈ n.collect deaths before →
    ∀ m ∈ (n.run before).states after, m.resolves p = false
  /-- Nor does that of a process that is not there any more. -/
  gone : ∀ before after p, ops = before ++ after → p ∈ n.collect births before →
    (n.run before).process? p = none →
    ∀ m ∈ (n.run before).states after, m.resolves p = false
  /-- A name that was given out and does not resolve never resolves again. -/
  past : ∀ before after p, ops = before ++ after → p ∈ n.collect issues before →
    (n.run before).resolves p = false →
    ∀ m ∈ (n.run before).states after, m.resolves p = false

/-- No name is given out twice, and none comes back. -/
theorem given_once (config : NodeConfig) (ops : List NodeOp) :
    GivenOnce (new config) ops := by
  have hnew := coherent_new config
  have hrising := rising_issues hnew ops
  refine ⟨?_, hrising, ?_, ?_, fun p hr => ?_, fun p hp m hm => ?_, ?_, ?_, ?_⟩
  · refine hrising.imp fun {p q} hlt heq => ?_
    rw [heq] at hlt
    exact UInt32.lt_irrefl _ (hlt rfl)
  · refine hrising.imp fun {p q} hlt hmax hid => ?_
    have hword := UInt32.lt_iff_toNat_lt.mp (hmax ▸ hlt hid)
    exact absurd q.serial.toNat_lt (Nat.not_lt.mpr hword)
  · intro hmem
    exact (fresh_of_collect hnew hmem).2 (hnew.table.spent_zero 0)
  · have hend := coherent_run hnew ops
    have hl := hend.resolves_iff.mp hr
    refine ⟨hend.isSome_lookup p ▸ hl, ?_⟩
    rcases origin_of_lives hnew hl with hold | ⟨before, op, after, rfl, hp⟩
    · rw [lives_of_process?_none (by simp [process?, new])] at hold
      exact absurd hold (by simp)
    · have hmid := coherent_run hnew before
      have hspent := (issued_of_issues hmid (issues_of_births hp)).2
      rw [run_append, run_cons] at hl
      refine ⟨before, op, after, rfl, hp, fun m hm => ?_, fun q hq => ?_⟩
      · rw [run_append] at hm
        exact resolves_of_lives_run (coherent_step hmid op) hspent hl hm
      · rw [run_append] at hq
        exact id_ne_of_collect (coherent_step hmid op) hspent hl hq
  · -- At this state the name is minted already, or is not given out yet.
    rcases mem_states hm with ⟨before, after, rfl, rfl⟩
    have hmid := coherent_run hnew before
    rw [Bool.eq_false_iff, Ne, hmid.resolves_iff, Bool.not_eq_true]
    rw [collect_append, List.mem_append] at hp
    rcases hp with hp | hp
    · exact not_lives_of_mints hnew hp
    · refine not_lives_of_fresh hmid ?_
      exact (fresh_of_collect hmid (collect_mono (fun _ _ => issues_of_mints) hp)).2
  · intro before after p reason hops hd m hm
    exact not_resolves_of_spent (coherent_run hnew before) (spent_of_deaths hnew hd)
      (not_lives_of_deaths hnew hd) hm
  · intro before after p hops hp hnone m hm
    have hissued := issued_of_collect hnew (collect_mono (fun _ _ => issues_of_births) hp)
    exact not_resolves_of_spent (coherent_run hnew before) hissued.2
      (lives_of_process?_none hnone) hm
  · intro before after p hops hp hr m hm
    have hmid := coherent_run hnew before
    rw [Bool.eq_false_iff, Ne, hmid.resolves_iff, Bool.not_eq_true] at hr
    exact not_resolves_of_spent hmid (issued_of_collect hnew hp).2 hr hm

/-- A slot that is freed is given out again, to a process or not, in the next generation. -/
example : (new .standard).collect issues [.spawn, .die ⟨0, 1, 0, 0⟩ Reason.normal, .makePid,
    .spawn] = [.ofSlot 1 0 0, .ofSlot 1 1 0, .ofSlot 1 2 0] := by decide

end Node

end Actors
