import Actors.Proofs.Node.Handling

/-!
# The First Cause Decides

A process can be ended by whoever has a handle to it, its own body among them, and
by an exit signal that it handles and does not trap. Each of these is a `Cause`, and
a cause is one whether the process is alive or not. So there may be many, one after
another, and this module shows that the first one counts and the others do nothing.

The proof is an induction over a run. Two things are carried along: the reason that
is on record, which is that of the first cause so far, and that there was no cause
before there was a process, since a name that has not been given out is nobody's.

What a process owes to others it pays in the moment of the first cause. The tables
are walked once, each entry that leads somewhere becomes one queued signal, and all
of them carry the reason that is on record.

## Main definitions

* `Node.Cause`, `Node.causes`: An operation is reason enough for a process to end.
* `Node.atDeath`: A process as it is when it is ended.
* `Node.Departs`: An operation ends a process, and those it is tied to are told.
* `Node.Ignored`: An operation comes too late to end a process.

## Theorems

* `mem_causes_iff`: The list of causes is the relation.
* `exitReason_step`, `exitReason_run`: The reason on record is that of the first cause.
* `departs_of_cause`, `ignored_of_cause`: What the first cause does, and the others.
-/

namespace Actors

namespace Node

open Process (Fatal)

/-- An operation is reason enough for a process to end, should it still be alive. -/
inductive Cause (n : Node) (p : Pid) (reason : Term) : NodeOp → Prop
  /-- Somebody who has a handle to the process ends it. -/
  | call (hp : (n.process? p).isSome) : Cause n p reason (.die p reason)
  /-- The process handles an exit signal that it does not trap. -/
  | signal {d : Delivery} {rest : Dispatcher} {c : Process}
      (hq : n.queue.next? = some (d, rest)) (ht : d.target = p) (hc : n.process? p = some c)
      (hf : c.Fatal d reason) : Cause n p reason .handleInHand

/-- The reasons that an operation gives a process to end. There is one at most. -/
def causes (n : Node) (p : Pid) : NodeOp → List Term
  | .die q reason => if q = p ∧ (n.process? p).isSome then [reason] else []
  | .handleInHand =>
      match n.queue.next?, n.process? p with
      | some (d, _), some c =>
          match d.signal with
          | .exit reason =>
              if d.target = p ∧ (c.trapExit = false ∨ reason = Reason.kill) then [reason] else []
          | _ => []
      | _, _ => []
  | _ => []

/-- A process as it is when an operation ends it. An exit signal ends the link with its
    sender first. -/
def atDeath (n : Node) (p : Pid) : NodeOp → Option Process
  | .handleInHand =>
      match n.queue.next? with
      | some (d, _) =>
          (n.process? p).map fun c => { c with links := c.links.erase d.sender }
      | none => none
  | _ => n.process? p

/-- An operation ends a process for a reason, and those it is tied to are told. -/
structure Departs (n : Node) (p : Pid) (c : Process) (reason : Term) (op : NodeOp) : Prop where
  /-- These are the tables in the moment of the end. -/
  tables : n.atDeath p op = some c
  /-- The process is on record with the reason, unless nobody holds it any more. -/
  recorded : (n.step op).process? p = some (c.die reason) ∨
    c.handles = 0 ∧ (n.step op).process? p = none
  /-- Each link is told, and after them each watcher, and nobody else. -/
  told : n.takes op ++ (n.step op).queue.signals = n.queue.signals ++
    ((c.links.toList.flatMap fun q => n.deliveries p (.exit reason) (.pid q)) ++
      c.monitoredBy.entries.flatMap fun e => n.deliveries p (.down e.1 reason) (.pid e.2))
  /-- A link that leads somewhere is told once. -/
  link : ∀ q r, n.resolve (.pid q) = .ok r →
    SentOnce (n.deliveries p (.exit reason) (.pid q)) p q (.exit reason)
  /-- So is a watcher. -/
  watcher : ∀ ref q r, n.resolve (.pid q) = .ok r →
    SentOnce (n.deliveries p (.down ref reason) (.pid q)) p q (.down ref reason)

/-- An operation comes too late to end a process: a call does nothing, and a signal is
    taken from the queue. -/
def Ignored (n : Node) (p : Pid) (op : NodeOp) : Prop :=
  (∃ reason, op = .die p reason ∧ n.step op = n) ∨
    ∃ d rest, op = .handleInHand ∧ n.queue.next? = some (d, rest) ∧ d.target = p ∧
      n.step op = (n.withQueue rest).reclaim p

variable {n : Node} {p : Pid} {c c' : Process} {op : NodeOp} {reason : Term}

/-! ## Causes -/

theorem mem_causes_iff : reason ∈ n.causes p op ↔ n.Cause p reason op := by
  constructor
  · intro h
    cases op with
    | die q r =>
        rw [causes] at h
        split at h
        next hq =>
          rw [List.mem_singleton] at h
          rw [h, hq.1]
          exact .call hq.2
        next => exact absurd h List.not_mem_nil
    | handleInHand =>
        rw [causes] at h
        split at h
        next d rest c hq hc =>
          split at h
          next r hs =>
            split at h
            next hf =>
              rw [List.mem_singleton] at h
              rw [h]
              exact .signal hq hf.1 hc ⟨hs, hf.2⟩
            next => exact absurd h List.not_mem_nil
          next => exact absurd h List.not_mem_nil
        next => exact absurd h List.not_mem_nil
    | _ => exact absurd h List.not_mem_nil
  · -- The other way each kind of cause passes the tests of its branch.
    rintro (hp | ⟨hq, ht, hc, hf⟩)
    · rw [causes, if_pos ⟨rfl, hp⟩]
      exact List.mem_singleton_self reason
    · simp only [causes, hq, hc, hf.signal, ht, hf.untrapped, and_self, if_true]
      exact List.mem_singleton_self reason

/-- An operation gives one reason at most. -/
theorem causes_of_cause (h : n.Cause p reason op) : n.causes p op = [reason] := by
  cases h with
  | call hp => rw [causes, if_pos ⟨rfl, hp⟩]
  | signal hq ht hc hf =>
      simp only [causes, hq, hc, hf.signal, ht, hf.untrapped, and_self, if_true]

theorem Cause.isSome (h : n.Cause p reason op) : (n.process? p).isSome := by
  cases h with
  | call hp => exact hp
  | signal hq ht hc hf =>
      rw [hc]
      rfl

/-- What is no cause is none because nobody is there, or it is about something else. -/
theorem causes_of_none (hp : n.process? p = none) : n.causes p op = [] := by
  refine List.eq_nil_iff_forall_not_mem.mpr fun reason hr => ?_
  have hsome := (mem_causes_iff.mp hr).isSome
  rw [hp] at hsome
  exact absurd hsome (by simp)

/-! ## Causes and deaths -/

/-- A cause ends a process that is alive. -/
theorem deaths_of_cause (h : n.Cause p reason op) (hl : n.lives p = true) :
    (p, Reason.recorded reason) ∈ n.deaths op := by
  rcases lives_iff.mp hl with ⟨c₀, hc₀, ha⟩
  cases h with
  | call hp => exact mem_deaths_die.mpr ⟨hl, rfl, rfl⟩
  | signal hq ht hc hf =>
      subst ht
      rw [hc, Option.some.injEq] at hc₀
      rw [deaths_handleInHand hq hc (hc₀ ▸ ha) hf.signal
        (Process.traps_eq_false_iff.mpr hf.untrapped)]
      exact List.mem_singleton_self _

/-- Nothing else ends one. -/
theorem cause_of_deaths (h : (p, reason) ∈ n.deaths op) :
    ∃ r, n.Cause p r op ∧ reason = Reason.recorded r := by
  have hsome := isSome_of_lives (lives_of_deaths h)
  cases op with
  | die q r =>
      rcases mem_deaths_die.mp h with ⟨-, rfl, hreason⟩
      exact ⟨r, .call hsome, hreason⟩
  | handleInHand =>
      rcases deaths_handleInHand_cases h with ⟨d, rest, c, r, hq, hp, hc, -, hs, ht, hr⟩
      exact ⟨r, .signal hq hp.symm hc ⟨hs, Process.traps_eq_false_iff.mp ht⟩, hr⟩
  | _ => exact absurd h List.not_mem_nil

/-! ## The reason on record -/

theorem exitReason_of_alive (h : c.isAlive = true) : c.exitReason = none := by
  rw [Process.exitReason, Process.isAlive_iff.mp h]

theorem exitReason_of_dead (h : c.life = .dead reason) : c.exitReason = some reason := by
  rw [Process.exitReason, h]

theorem exitReason_eq_some_iff : c.exitReason = some reason ↔ c.life = .dead reason := by
  rw [Process.exitReason]
  rcases c.life with _ | r
  · simp
  · simp

/-- The reason on record stays, and where there is none the operation may give one. -/
theorem exitReason_step (hn : n.Coherent) (hc : n.process? p = some c)
    (hc' : (n.step op).process? p = some c') :
    c'.exitReason = c.exitReason.or ((n.causes p op).head?.map Reason.recorded) := by
  rcases hlife : c.life with _ | reason
  · have ha : c.isAlive = true := Process.isAlive_iff.mpr hlife
    rw [exitReason_of_alive ha, Option.none_or]
    rcases hlife' : c'.life with _ | reason
    · -- It lived on, so there was no cause.
      have hnone : n.causes p op = [] := by
        refine List.eq_nil_iff_forall_not_mem.mpr fun reason hr => ?_
        have hdead := life_of_deaths (deaths_of_cause (mem_causes_iff.mp hr) (lives_of hc ha)) hc'
        exact absurd (hlife'.symm.trans hdead) (by simp)
      rw [exitReason_of_alive (Process.isAlive_iff.mpr hlife'), hnone]
      rfl
    · rcases mem_deaths_or_dead hn hc' hlife' with hd | ⟨c₀, hc₀, hdead⟩
      · rcases cause_of_deaths hd with ⟨r, hr, rfl⟩
        rw [exitReason_of_dead hlife', causes_of_cause hr]
        rfl
      · rw [hc, Option.some.injEq] at hc₀
        exact absurd (hlife.symm.trans (hc₀ ▸ hdead)) (by simp)
  · rw [exitReason_of_dead hlife, Option.some_or,
      exitReason_of_dead ((ages_step hn op).reason hn hc hlife hc')]

/-- A process that was not there before is alive. -/
theorem exitReason_of_none (hn : n.Coherent) (hp : n.process? p = none)
    (hc : (n.step op).process? p = some c) : c.exitReason = none := by
  rcases hlife : c.life with _ | reason
  · exact exitReason_of_alive (Process.isAlive_iff.mpr hlife)
  · rcases mem_deaths_or_dead hn hc hlife with hd | ⟨c₀, hc₀, -⟩
    · have hsome := isSome_of_lives (lives_of_deaths hd)
      rw [hp] at hsome
      exact absurd hsome (by simp)
    · exact absurd (hp.symm.trans hc₀) (by simp)

/-- The reason on record is the one there was at the start, or else that of the first cause. -/
theorem exitReason_run (hn : n.Coherent) {ops : List NodeOp}
    (hc : (n.run ops).process? p = some c) :
    c.exitReason = ((n.process? p).bind Process.exitReason).or
      ((n.collect (·.causes p) ops).head?.map Reason.recorded) := by
  induction ops generalizing n with
  | nil =>
      rw [run_nil] at hc
      rw [hc, collect, List.head?_nil, Option.map_none, Option.or_none]
      rfl
  | cons op rest ih =>
      have hrest := ih (coherent_step hn op) hc
      rw [collect, List.head?_append, Option.map_or, ← Option.or_assoc, hrest]
      refine congrArg (Option.or · _) ?_
      rcases hnow : n.process? p with _ | c₀
      · -- Nobody was there, and whoever is there now is newborn.
        rw [causes_of_none hnow]
        rcases hnext : (n.step op).process? p with _ | c₁
        · rfl
        · exact exitReason_of_none hn hnow hnext
      · rcases hnext : (n.step op).process? p with _ | c₁
        · -- Who is gone does not come back, and so is not there at the end.
          have hspent := (ages_step hn op).spent _ _ (hn.spent p c₀ hnow)
          rcases (ages_run (coherent_step hn op) rest).past p c hspent hc with ⟨c₂, hc₂, -⟩
          exact absurd (hnext.symm.trans hc₂) (by simp)
        · exact exitReason_step hn hnow hnext

/-! ## What a cause does -/

theorem farewellsOf_eq (n : Node) (p : Pid) (c : Process) (reason : Term) :
    n.farewellsOf p c reason =
      (c.links.toList.flatMap fun q => n.deliveries p (.exit reason) (.pid q)) ++
        c.monitoredBy.entries.flatMap fun e => n.deliveries p (.down e.1 reason) (.pid e.2) := by
  rw [farewellsOf, Process.farewells, List.flatMap_append, List.flatMap_map, List.flatMap_map]

/-- A fall leaves the process dead, and it goes only if nobody holds it. -/
theorem process?_reclaim_fall (hc : n.process? p = some c') (c : Process) (reason : Term) :
    ((n.fall p c reason).reclaim p).process? p = some (c.die reason) ∨
      c.handles = 0 ∧ ((n.fall p c reason).reclaim p).process? p = none := by
  have hdead : (n.fall p c reason).process? p = some (c.die reason) := by
    rw [process?_fall, if_pos rfl, hc]
    rfl
  rcases reclaim_cases (n.fall p c reason) p with ⟨hr, -⟩ | ⟨c₁, hc₁, hz, -, hgone⟩
  · rw [hr]
    exact Or.inl hdead
  · rw [hdead, Option.some.injEq] at hc₁
    rw [← hc₁] at hz
    refine Or.inr ⟨hz, ?_⟩
    have hforget : ((n.fall p c reason).forget p).process? p = none := by
      rw [process?_forget, if_pos rfl]
    rcases hgone with ⟨-, hr⟩ | ⟨-, hr⟩ <;> rw [hr] <;> exact hforget

/-- What a cause does and queues when it finds the process alive. -/
theorem posts_of_cause (h : n.Cause p reason op) (hl : n.lives p = true) :
    ∃ c, n.atDeath p op = some c ∧ n.posts op = n.farewellsOf p c (Reason.recorded reason) ∧
      ((n.step op).process? p = some (c.die (Reason.recorded reason)) ∨
        c.handles = 0 ∧ (n.step op).process? p = none) := by
  rcases lives_iff.mp hl with ⟨c₀, hc₀, ha⟩
  cases h with
  | call hp =>
      refine ⟨c₀, hc₀, ?_, Or.inl ?_⟩
      · rw [posts, hc₀, Option.filter_some, if_pos ha]
      · rcases die_cases n p reason with ⟨-, hdead⟩ | ⟨c₁, hc₁, -, hd⟩
        · exact absurd (ha.symm.trans (hdead c₀ hc₀)) (by simp)
        · rw [step, hd, process?_fall, if_pos rfl, hc₁]
          rw [hc₀, Option.some.injEq] at hc₁
          rw [← hc₁]
          rfl
  | @signal d rest c hq ht hc hf =>
      subst ht
      rw [hc, Option.some.injEq] at hc₀
      subst hc₀
      refine ⟨{ c with links := c.links.erase d.sender }, ?_, ?_, ?_⟩
      · rw [atDeath, hq, hc]
        rfl
      · simp only [posts, hq, replies, hc, Process.react, ha, if_true,
          Process.reactAlive_of_fatal hf]
      · have hfall := handle_of_fatal (n := n.withQueue rest) hc ha hf
        rw [step, handleInHand, hq]
        change (((n.withQueue rest).handle d).reclaim d.target).process? d.target = _ ∨ _ ∧
          (((n.withQueue rest).handle d).reclaim d.target).process? d.target = none
        rw [hfall]
        exact process?_reclaim_fall (n := n.withQueue rest) hc _ _

/-- A cause that finds the process alive ends it. -/
theorem departs_of_cause (h : n.Cause p reason op) (hl : n.lives p = true) :
    ∃ c, n.Departs p c (Reason.recorded reason) op := by
  rcases posts_of_cause h hl with ⟨c, htables, hposts, hrecorded⟩
  refine ⟨c, htables, hrecorded, ?_, fun q r hr => sentOnce_deliveries hr,
    fun ref q r hr => sentOnce_deliveries hr⟩
  rw [takes_append_signals_step, hposts, farewellsOf_eq]

/-- A cause that finds the process dead does nothing. -/
theorem ignored_of_cause (h : n.Cause p reason op) (hl : n.lives p = false) : n.Ignored p op := by
  rcases Option.isSome_iff_exists.mp h.isSome with ⟨c₀, hc₀⟩
  have hdead : c₀.isAlive = false := (lives_of_process? hc₀).symm.trans hl
  cases h with
  | call hp =>
      refine Or.inl ⟨reason, rfl, ?_⟩
      rcases die_cases n p reason with ⟨hd, -⟩ | ⟨c₁, hc₁, ha, -⟩
      · exact hd
      · rw [hc₀, Option.some.injEq] at hc₁
        exact absurd (ha.symm.trans (hc₁ ▸ hdead)) (by simp)
  | @signal d rest c hq ht hc hf =>
      subst ht
      refine Or.inr ⟨d, rest, rfl, hq, rfl, ?_⟩
      rw [step, handleInHand, hq]
      change ((n.withQueue rest).handle d).reclaim d.target = _
      -- The dead answer links and monitors, and this is neither.
      rw [handle_of_dead (n := n.withQueue rest) hc₀ hdead, answers, hf.signal]
      rfl

end Node

end Actors
