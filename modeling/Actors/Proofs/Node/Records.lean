import Actors.Proofs.Node.TwoSided

/-!
# Who Is on Record

A process has on record who watches it. An entry is made when the request to watch
arrives, and it is struck out when the request to end the monitor arrives. Nothing
else strikes it out while the process lives. In particular the end of a watcher does
not: it tells those who watch the watcher, and those who are linked with it, but not
those whom it watches.

So the entries are those of the monitors that were not taken back. A watcher that
lives takes a monitor back or knows of it, and what it knows of is on record. A watcher
that is gone leaves what it had not taken back, and that stays for as long as the
watched process lives, as `record_of_the_dead` shows. The same is left by a request in
the name of a watcher that is gone already.

## Main definitions

* `Node.TakesBack`: A watcher takes a monitor back in a run.
* `Node.Entered`: What holds of a monitor that was not taken back.
* `Node.RecordLaw`: What can be relied on about the entries of a process.

## Theorems

* `entered_of_opens`: A monitor of a living process will be on record.
* `entered_step`, `entered_run`: It stays so until the watcher takes it back.
* `recordLaw_run`: On record are those who did not take their monitor back.
-/

namespace Actors

namespace Node

/-- A process takes a monitor back in a run, and is alive when it does. -/
def TakesBack (n : Node) (a : Pid) (r : Ref) (ops : List NodeOp) : Prop :=
  ∃ between after, ops = between ++ .demonitor a r :: after ∧ (n.run between).lives a = true

/-- What holds of a monitor that was not taken back, as long as the watched process lives. -/
structure Entered (a b : Pid) (r : Ref) (n : Node) : Prop where
  /-- The watcher is on record, or it will be when the request arrives. -/
  awaits : Awaits False a b r n
  /-- If the watcher lives, it knows of the monitor. -/
  held : n.lives a = true → n.watchee? r a = some b

variable {a b : Pid} {r : Ref} {n : Node} {op : NodeOp} {ops : List NodeOp}

theorem takesBack_now (ha : n.lives a = true) (rest : List NodeOp) :
    n.TakesBack a r (.demonitor a r :: rest) :=
  ⟨[], rest, rfl, ha⟩

theorem TakesBack.cons (h : (n.step op).TakesBack a r ops) : n.TakesBack a r (op :: ops) := by
  rcases h with ⟨between, after, rfl, ha⟩
  exact ⟨op :: between, after, rfl, ha⟩

/-! ## A monitor that was not taken back -/

/-- A monitor of a living process will be on record, whoever asks for it. -/
theorem entered_of_opens (hn : n.Coherent) (habsent : Absent r n) (hop : n.Opens a b r op)
    (hb : (n.step op).lives b = true) : Entered a b r (n.step op) := by
  refine ⟨?_, watchee?_of_opens hn hop⟩
  cases hop with
  | monitor hr =>
      -- The request goes to somebody who lives, so it is not answered with a notice.
      rw [step, lives_monitor] at hb
      rcases lives_iff.mp hb with ⟨c, hc, -⟩
      exact awaits_monitor hn habsent (hn.isLocal hc) hr fun hdead =>
        absurd (hdead.symm.trans hb) (by simp)
  | spawnMonitor hr => exact awaits_spawnMonitor hn habsent hr

theorem entered_step (hn : n.Coherent) (h : Entered a b r n) (hmake : r ∉ n.makes op)
    (hraw : op.injects r = false) (ha : n.Issued a) (hb : (n.step op).lives b = true)
    (hnot : op = .demonitor a r → n.lives a = false) : Entered a b r (n.step op) := by
  -- Others cannot take the monitor back, and a watcher that is gone cannot either.
  have hend : ∀ w, op = .demonitor w r → n.watchee? r w = none := by
    intro w hop
    rcases hw : n.watchee? r w with _ | x
    · rfl
    · rcases h.awaits.owner w x hw with ⟨rfl, -⟩
      exact absurd ((hnot hop).symm.trans (hn.lives_of_watchee? hw)) (by simp)
  refine ⟨awaits_step hn h.awaits hmake hraw (not_mem_losses hb) (fun hdead => ?_) hend False.elim,
    fun ha' => ?_⟩
  · exact absurd (hdead.symm.trans hb) (by simp)
  · -- Who lives afterwards lived before, and knew of the monitor.
    have hheld := h.held ((ages_step hn op).lives ha.2 ha')
    by_cases hask : ∃ w, op = .demonitor w r
    · rcases hask with ⟨w, rfl⟩
      rw [step, demonitor_of_watchee?_none (hend w rfl)]
      exact hheld
    · exact watchee?_step hn hmake (fun w hop => hask ⟨w, hop⟩) h.awaits.quiet hheld ha'

theorem entered_run (hn : n.Coherent) (h : Entered a b r n) (hmake : r ∉ n.collect makes ops)
    (hraw : ∀ op ∈ ops, op.injects r = false) (ha : n.Issued a) (hb : n.lives b = true)
    (hb' : (n.run ops).lives b = true) (hnot : ¬ n.TakesBack a r ops) :
    Entered a b r (n.run ops) := by
  induction ops generalizing n with
  | nil => exact h
  | cons op rest ih =>
      rw [collect, List.mem_append, not_or] at hmake
      have hb₁ := lives_between hn hb hb'
      -- What is not taken back in the run is not taken back by its first operation.
      have hnow : op = .demonitor a r → n.lives a = false := by
        rintro rfl
        rw [Bool.eq_false_iff]
        exact fun hlive => hnot (takesBack_now hlive rest)
      exact ih (coherent_step hn op)
        (entered_step hn h hmake.1 (hraw op List.mem_cons_self) ha hb₁ hnow) hmake.2
        (fun op' hop' => hraw op' (List.mem_cons_of_mem op hop')) (ha.ages (ages_step hn op))
        hb₁ hb' fun hback => hnot hback.cons

/-- When nothing is queued about a monitor that was not taken back, the watcher is on record. -/
theorem Entered.watcher? (h : Entered a b r n) (hnil : n.about r = []) :
    n.watcher? r b = some a := by
  cases h.awaits.stage with
  | asked hq => exact absurd (hnil.symm.trans hq) (by simp)
  | recorded _ hw => exact (hw b).trans (if_pos rfl)
  | told hm => exact hm.elim

/-! ## Runs -/

/-- What can be relied on about the entries of a process at the end of a run. -/
structure RecordLaw (n : Node) (r : Ref) (ops : List NodeOp) : Prop where
  /-- When no signal waits, a living process has on record exactly those who watched it
      and did not take that back. -/
  entries : (n.run ops).queue.signals = [] → ∀ a b c, (n.run ops).process? b = some c →
    c.isAlive = true → ((r, a) ∈ Process.sortedMonitors c.monitoredBy ↔
      ∃ before op after, ops = before ++ op :: after ∧ (n.run before).Opens a b r op ∧
        ¬ ((n.run before).step op).TakesBack a r after)
  /-- Of these, the ones who live hold the monitor. -/
  held : (n.run ops).queue.signals = [] → ∀ a b c, (n.run ops).process? b = some c →
    c.isAlive = true → (r, a) ∈ Process.sortedMonitors c.monitoredBy →
    (n.run ops).lives a = true → (n.run ops).watchee? r a = some b
  /-- All of them live, if those who do not took their monitors back. -/
  living : (n.run ops).queue.signals = [] →
    (∀ a b before op after, ops = before ++ op :: after → (n.run before).Opens a b r op →
      (n.run ops).lives a = false → ((n.run before).step op).TakesBack a r after) →
    ∀ a b c, (n.run ops).process? b = some c → c.isAlive = true →
      (r, a) ∈ Process.sortedMonitors c.monitoredBy → (n.run ops).lives a = true

variable {config : NodeConfig} {before after : List NodeOp}

/-- An entry is one of a monitor that was made in the run, by its watcher. -/
theorem opens_of_watcher? (hraw : ∀ op ∈ ops, op.injects r = false)
    (hissued : ∀ i (hi : i < ops.length), ∀ p ∈ ops[i].monitored,
      p ∈ (new config).collect issues (ops.take i))
    (hcount : ((new config).collect makes ops).length ≤ UInt64.size)
    (hw : ((new config).run ops).watcher? r b = some a) :
    ∃ before op after, ops = before ++ op :: after ∧ ((new config).run before).Opens a b r op := by
  have hn := coherent_new config
  -- Nobody is on record under a reference that was never made.
  have hmade : r ∈ (new config).collect makes ops := by
    refine Decidable.of_not_not fun hnot => ?_
    have habsent := absent_states hn (absent_new r config) hnot hraw _ (mem_states_run _ ops)
    exact absurd ((habsent.watcher b).symm.trans hw) (by simp)
  rcases mem_collect hmade with ⟨before, op, after, rfl, hop⟩
  rcases opens_of_makes hop with rfl | ⟨x, y, hopens⟩
  · -- The reference was made for something else.
    rcases made_at hraw (nodup_makes hn hcount) hop with ⟨habsent, hnever, hafter⟩
    have hstill : Absent r (((new config).run before).step .makeRef) :=
      ⟨habsent.about, habsent.watcher, habsent.watchee⟩
    have hlast := absent_states (coherent_step (coherent_run hn before) .makeRef) hstill hnever
      hafter _ (mem_states_run _ after)
    rw [run_append, run_cons] at hw
    exact absurd ((hlast.watcher b).symm.trans hw) (by simp)
  · rcases issued_of_opens hissued hopens with ⟨hx, hy⟩
    have hwatch := watch_of_opens hopens hx hy hraw hcount
    rcases hwatch.watcher?_cases b with hnone | ⟨rfl, hwatcher, -⟩
    · exact absurd (hnone.symm.trans hw) (by simp)
    · rw [hw, Option.some.injEq] at hwatcher
      subst hwatcher
      exact ⟨before, op, after, rfl, hopens⟩

/-- At the end of a run a monitor of a living process is entered, if it was not taken back. -/
theorem entered_of_run (hraw : ∀ op' ∈ before ++ op :: after, op'.injects r = false)
    (hcount : ((new config).collect makes (before ++ op :: after)).length ≤ UInt64.size)
    (hopens : ((new config).run before).Opens a b r op)
    (ha : a ∈ (new config).collect issues before)
    (hb : b ∈ (new config).collect issues (before ++ [op]))
    (hlive : ((new config).run (before ++ op :: after)).lives b = true)
    (hnot : ¬ (((new config).run before).step op).TakesBack a r after) :
    Entered a b r ((new config).run (before ++ op :: after)) := by
  have hn := coherent_new config
  have hcoh := coherent_run hn before
  have hnext := coherent_step hcoh op
  rcases made_at hraw (nodup_makes hn hcount) hopens.makes with ⟨habsent, hnever, hafter⟩
  have hb' := issued_of_collect hn hb
  rw [run_append, run_cons, run_nil] at hb'
  rw [run_append, run_cons] at hlive ⊢
  -- The watched process was given out when it was asked, so it lives from then on.
  have hb₁ := (ages_run hnext after).lives hb'.2 hlive
  exact entered_run hnext (entered_of_opens hcoh habsent hopens hb₁) hnever hafter
    ((issued_of_collect hn ha).ages (ages_step hcoh op)) hb₁ hlive hnot

/-- A monitor that is on record when no signal waits was not taken back. -/
theorem not_takesBack_of_watcher? (hraw : ∀ op' ∈ before ++ op :: after, op'.injects r = false)
    (hcount : ((new config).collect makes (before ++ op :: after)).length ≤ UInt64.size)
    (hopens : ((new config).run before).Opens a b r op)
    (ha : a ∈ (new config).collect issues before)
    (hb : b ∈ (new config).collect issues (before ++ [op]))
    (hquiet : ((new config).run (before ++ op :: after)).queue.signals = [])
    (hw : ((new config).run (before ++ op :: after)).watcher? r b = some a) :
    ¬ (((new config).run before).step op).TakesBack a r after := by
  rintro ⟨between, rest, rfl, hlive⟩
  have hn := coherent_new config
  have hcoh := coherent_run hn before
  rcases made_at hraw (nodup_makes hn hcount) hopens.makes with ⟨habsent, hnever, hafter⟩
  have hwatch := watch_of_opens hopens ha hb hraw hcount
  have hb' := issued_of_collect hn hb
  rw [run_append, run_cons, run_nil] at hb'
  rw [run_append, run_cons] at hquiet hw hwatch
  -- Taken back, the monitor would have left no trace, and yet it is on record.
  have hgone := absent_of_demonitor hcoh habsent hopens
    ((issued_of_collect hn ha).ages (ages_step hcoh op)) hb' hnever hafter hlive
    (fun q w hq => ?_) hquiet
  · exact absurd ((hgone.watcher b).symm.trans hw) (by simp)
  · rcases hwatch.watcher?_cases q with hnone | ⟨heq, -⟩
    · exact absurd (hnone.symm.trans hq) (by simp)
    · exact heq

/-- On record with a living process are those who watched it and did not take that back, in
    every run in which the processes that requests to watch name were given out before.
    Nobody may send signals about the monitor directly, and the counter of references must
    not come around. -/
theorem recordLaw_run (hraw : ∀ op ∈ ops, op.injects r = false)
    (hissued : ∀ i (hi : i < ops.length), ∀ p ∈ ops[i].monitored,
      p ∈ (new config).collect issues (ops.take i))
    (hcount : ((new config).collect makes ops).length ≤ UInt64.size) :
    (new config).RecordLaw r ops := by
  -- An entry is of a monitor that was not taken back, and what was not taken back is entered.
  have hkept : ((new config).run ops).queue.signals = [] → ∀ a b,
      ((new config).run ops).watcher? r b = some a →
      ∃ before op after, ops = before ++ op :: after ∧ ((new config).run before).Opens a b r op ∧
        ¬ (((new config).run before).step op).TakesBack a r after := by
    intro hquiet a b hw
    rcases opens_of_watcher? hraw hissued hcount hw with ⟨before, op, after, rfl, hopens⟩
    rcases issued_of_opens hissued hopens with ⟨ha, hb⟩
    exact ⟨before, op, after, rfl, hopens,
      not_takesBack_of_watcher? hraw hcount hopens ha hb hquiet hw⟩
  have hentered : ∀ a b, ((new config).run ops).lives b = true →
      (∃ before op after, ops = before ++ op :: after ∧ ((new config).run before).Opens a b r op ∧
        ¬ (((new config).run before).step op).TakesBack a r after) →
      Entered a b r ((new config).run ops) := by
    rintro a b hlive ⟨before, op, after, rfl, hopens, hnot⟩
    rcases issued_of_opens hissued hopens with ⟨ha, hb⟩
    exact entered_of_run hraw hcount hopens ha hb hlive hnot
  refine ⟨fun hquiet a b c hc hlive => ?_, fun hquiet a b c hc hlive hmem ha => ?_,
    fun hquiet hback a b c hc hlive hmem => ?_⟩
  · rw [Process.mem_sortedMonitors, ← watcher?_eq hc]
    refine ⟨hkept hquiet a b, fun hex => ?_⟩
    exact (hentered a b (lives_of hc hlive) hex).watcher? (by rw [about, hquiet, List.filter_nil])
  · rw [Process.mem_sortedMonitors, ← watcher?_eq hc] at hmem
    exact (hentered a b (lives_of hc hlive) (hkept hquiet a b hmem)).held ha
  · rw [Process.mem_sortedMonitors, ← watcher?_eq hc] at hmem
    rcases hkept hquiet a b hmem with ⟨before, op, after, hops, hopens, hnot⟩
    rw [← Bool.not_eq_false]
    exact fun hdead => hnot (hback a b before op after hops hopens hdead)

/-- Two processes watch a third. The first takes its monitor back and ends, the other stays.
    Only the other is on record. -/
theorem recordLaw_trio :
    let ops : List NodeOp := [.spawn, .spawn, .spawn, .monitor (.ofSlot 1 0 0) (.ofSlot 3 0 0),
      .monitor (.ofSlot 2 0 0) (.ofSlot 3 0 0), .demonitor (.ofSlot 1 0 0) (.ofCounter 0 0),
      .die (.ofSlot 1 0 0) Reason.shutdown, .beginTurn, .handleInHand, .handleInHand,
      .handleInHand]
    let n := (new .standard).run ops
    (new .standard).RecordLaw (.ofCounter 0 0) ops ∧
      (new .standard).RecordLaw (.ofCounter 1 0) ops ∧
      n.queue.signals = [] ∧ n.lives (.ofSlot 3 0 0) = true ∧
      n.watcher? (.ofCounter 0 0) (.ofSlot 3 0 0) = none ∧
      n.watcher? (.ofCounter 1 0) (.ofSlot 3 0 0) = some (.ofSlot 2 0 0) :=
  ⟨recordLaw_run (by decide) (by decide) (by decide),
    recordLaw_run (by decide) (by decide) (by decide), by decide, by decide, by decide, by decide⟩

/-- A process watches another and ends. No signal waits, the other lives and has it on
    record still, and nobody holds the monitor. -/
theorem record_of_the_dead :
    let n := (new .standard).run [.spawn, .spawn, .monitor (.ofSlot 1 0 0) (.ofSlot 2 0 0),
      .beginTurn, .handleInHand, .die (.ofSlot 1 0 0) Reason.shutdown]
    n.queue.signals = [] ∧ n.lives (.ofSlot 2 0 0) = true ∧
      n.watcher? (.ofCounter 0 0) (.ofSlot 2 0 0) = some (.ofSlot 1 0 0) ∧
      n.lives (.ofSlot 1 0 0) = false ∧ n.watchee? (.ofCounter 0 0) (.ofSlot 1 0 0) = none := by
  decide

end Node

end Actors
