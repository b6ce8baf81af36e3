import Actors.Proofs.Node.Spreading

/-!
# The Cascade of Exits Is a Graph Closure

What happens when a process of a quiet node dies and the node is then left
alone. Partners that do not trap exits die with it, their partners with them,
and so on. The processes that die are a closure in the graph of links as it was
before: `Doomed` is the least set that contains the process and, with every
member, its living partners that do not trap exits. Nothing about the links is
assumed. They may be one-sided, they may form cycles, and the tables may be
walked in any order.

When the queue is empty nobody is still to be told of a death. So a living
process was told of all deaths in its neighbourhood. Had it been doomed it would
not have trapped the first of them.

## Main definitions

* `Node.Settles`: A node falls silent without any request.
* `Node.Aftermath`: What is true once the exits of a death have spread.

## Theorems

* `Spreading.all_fallen`: In the end all who were doomed are dead.
* `Spreading.aftermath`: What is true in the end.
* `aftermath_of_settles`: Every way to fall silent has the same aftermath.
-/

namespace Actors

open Process (exitMessage)

namespace Node

/-- A node falls silent, with nothing but dispatch happening. -/
def Settles (n m : Node) : Prop :=
  ∃ ops : List NodeOp, (∀ op ∈ ops, op.isDispatch = true) ∧ m = n.run ops ∧ m.queue.signals = []

/-- What is true once the exits of a death have spread. -/
structure Aftermath (n : Node) (p : Pid) (reason : Term) (m : Node) : Prop where
  /-- Nobody came and nobody was forgotten. -/
  present : ∀ q, (m.process? q).isSome = (n.process? q).isSome
  /-- Who was doomed is dead, for the reason of the first. -/
  dead : ∀ q, n.Doomed p q → ∃ c, m.process? q = some c ∧ c.exitReason = some reason
  /-- Everybody else is what he was, alive or dead. -/
  spared : ∀ q c, ¬ n.Doomed p q → n.process? q = some c →
    ∃ c', m.process? q = some c' ∧ c'.life = c.life
  /-- A survivor got one message for each of the dead that was linked with it,
      and none of another sender. -/
  told : ∀ q c c', ¬ n.Doomed p q → n.process? q = some c → c.isAlive = true →
    m.process? q = some c' → ∃ pushed : List Term, c'.mailbox = pushed.foldl .push c.mailbox ∧
      (∀ d, n.Doomed p d → q ∈ n.linksOf d → pushed.count (exitMessage d reason) = 1) ∧
      ∀ d r, exitMessage d r ∈ pushed → n.Doomed p d ∧ q ∈ n.linksOf d ∧ r = reason
  /-- It is not linked with them any more. -/
  unlinked : ∀ q c', ¬ n.Doomed p q → m.process? q = some c' → n.lives q = true →
    ∀ d, n.Doomed p d → q ∈ n.linksOf d → d ∉ c'.links

variable {n x : Node} {p : Pid} {reason : Term}

/-- When the exits have spread, everybody who was doomed fell. -/
theorem Spreading.all_fallen (h : Spreading n p reason x) (hq : x.queue.signals = [])
    (hp : fallen n x p = true) {q : Pid} (hd : n.Doomed p q) : fallen n x q = true := by
  induction hd with
  | first => exact hp
  | next hd hlink hlive htrap ih =>
      next d q =>
      refine fallen_iff.mpr ⟨hlive, Bool.eq_false_iff.mpr fun hnow => ?_⟩
      rcases lives_iff.mp hnow with ⟨c', hc', ha'⟩
      rcases h.told hc' ha' with ⟨c, pushed, hc, -, ht⟩
      -- It is owed one word of the death of its partner, and the queue is empty. So it was told.
      have hcount := ht.count d
      rw [if_pos ⟨ih, hlink⟩, hq, List.countP_nil, Nat.add_zero] at hcount
      have hmem : exitMessage d reason ∈ pushed := List.count_pos_iff.mp (by omega)
      rw [trapsExits_eq hc, (ht.traps d reason hmem).2] at htrap
      exact absurd htrap (by simp)

/-- Who is not doomed stays as he is: alive, because only the doomed fall, or dead as before. -/
theorem Spreading.spared (h : Spreading n p reason x) {q : Pid} {c : Process}
    (hnot : ¬ n.Doomed p q) (hc : n.process? q = some c) :
    ∃ c', x.process? q = some c' ∧ c'.life = c.life := by
  rcases h.kept q c hc with ⟨c', hc', -, hstay, hdie, -⟩
  refine ⟨c', hc', ?_⟩
  by_cases ha : c.isAlive = true
  · by_cases ha' : c'.isAlive = true
    · rw [Process.isAlive_iff.mp ha, Process.isAlive_iff.mp ha']
    · exact absurd (hdie ha (Bool.not_eq_true _ ▸ ha')).2 hnot
  · exact hstay (Bool.not_eq_true _ ▸ ha)

/-- A survivor was told once of each that fell next to it: the count of what it was told and
    of what it is still owed is one, and an empty queue owes nothing. -/
theorem Spreading.told_survivor (h : Spreading n p reason x) (hq : x.queue.signals = []) {q : Pid}
    {c c' : Process} (hnot : ¬ n.Doomed p q) (hc : n.process? q = some c)
    (ha : c.isAlive = true) (hc' : x.process? q = some c') :
    ∃ pushed, Told n x reason q c c' pushed ∧ ∀ d, pushed.count (exitMessage d reason) =
      if fallen n x d = true ∧ q ∈ n.linksOf d then 1 else 0 := by
  rcases h.spared hnot hc with ⟨c₁, hc₁, hlife⟩
  rw [hc', Option.some.injEq] at hc₁
  subst hc₁
  have ha' : c'.isAlive = true := by rwa [Process.isAlive, hlife, ← Process.isAlive]
  rcases h.told hc' ha' with ⟨c₁, pushed, hc₁, -, ht⟩
  rw [hc, Option.some.injEq] at hc₁
  subst hc₁
  refine ⟨pushed, ht, fun d => ?_⟩
  rw [← ht.count d, hq, List.countP_nil, Nat.add_zero]

/-- Once nothing is queued any more, what spreading keeps is what the aftermath says: those
    who fell are the doomed, and what a survivor is owed it was told. -/
theorem Spreading.aftermath (h : Spreading n p reason x) (hq : x.queue.signals = [])
    (hp : fallen n x p = true) : n.Aftermath p reason x := by
  have hiff : ∀ d, fallen n x d = true ↔ n.Doomed p d :=
    fun d => ⟨h.doomed, h.all_fallen hq hp⟩
  refine ⟨fun q => ?_, fun q hd => ?_, fun q c => h.spared, fun q c c' hnot hc ha hc' => ?_,
    fun q c' hnot hc' hlive d hd hl => ?_⟩
  · -- Nobody came and nobody went.
    rcases hc : n.process? q with _ | c
    · rw [h.gone q hc]
    · rcases h.kept q c hc with ⟨c', hc', -⟩
      rw [hc']
      rfl
  · have hq' := fallen_iff.mp ((hiff q).mpr hd)
    rcases lives_iff.mp hq'.1 with ⟨c, hc, ha⟩
    rcases h.kept q c hc with ⟨c', hc', -, -, hdie, -⟩
    refine ⟨c', hc', ?_⟩
    have hdead := hq'.2
    rw [lives_of_process? hc'] at hdead
    rw [Process.exitReason, (hdie ha hdead).1]
  · -- A survivor got the messages it should have got, and no other of this kind.
    rcases h.told_survivor hq hnot hc ha hc' with ⟨pushed, ht, hcount⟩
    refine ⟨pushed, ht.mailbox, fun d hd hl => ?_, fun d r hmem => ?_⟩
    · rw [hcount d, if_pos ⟨(hiff d).mpr hd, hl⟩]
    · have hr := (ht.traps d r hmem).1
      subst hr
      have hpos := List.count_pos_iff.mpr hmem
      rw [hcount d] at hpos
      split at hpos
      next hboth => exact ⟨(hiff d).mp hboth.1, hboth.2, rfl⟩
      next => exact absurd hpos (by simp)
  · rcases lives_iff.mp hlive with ⟨c, hc, ha⟩
    rcases h.told_survivor hq hnot hc ha hc' with ⟨pushed, ht, hcount⟩
    -- Having the message it has lost the link.
    have hone := hcount d
    rw [if_pos ⟨(hiff d).mpr hd, hl⟩] at hone
    have hmem : exitMessage d reason ∈ pushed := List.count_pos_iff.mp (by omega)
    exact fun hlink => ((ht.links d).mp hlink).2 hmem

theorem recorded_recorded (reason : Term) :
    Reason.recorded (Reason.recorded reason) = Reason.recorded reason :=
  Reason.recorded_of_ne_kill (Reason.recorded_ne_kill reason)

/-- A death in a quiet node starts the spreading. -/
theorem spreading_die (hn : n.Reachable) (hq : n.queue.signals = []) (hp : n.lives p = true)
    (reason : Term) : Spreading n p (Reason.recorded reason) (n.die p reason) ∧
      fallen n (n.die p reason) p = true := by
  rcases lives_iff.mp hp with ⟨c, hc, ha⟩
  -- It was alive, so this is a death.
  rcases die_cases n p reason with ⟨-, hdead⟩ | ⟨c', hc', -, hd⟩
  · rw [hdead c hc] at ha
    exact absurd ha (by simp)
  · rw [hc, Option.some.injEq] at hc'
    subst hc'
    rw [hd]
    refine ⟨?_, fallen_iff.mpr ⟨hp, ?_⟩⟩
    · refine spreading_fall (spreading_start hn.coherent hn.held hq p _) (recorded_recorded reason)
        hc ha .first rfl (fun y hy => ?_) fun y _ hy => ?_
      · rwa [linksOf_eq hc]
      · rwa [linksOf_eq hc] at hy
    · rw [lives_fall, if_pos rfl]

/-- A process of a quiet node dies, and the node is left alone until it is quiet
    again. Draining the queue leads there, and however it comes about, exactly
    the doomed processes are dead then, for the reason of the first. Each
    survivor was told once of each of them it was linked with, and lost that link. -/
theorem aftermath_of_settles (hn : n.Reachable) (hq : n.queue.signals = []) (hp : n.lives p = true)
    (reason : Term) :
    (n.die p reason).Settles (n.die p reason).drain ∧
      ∀ m, (n.die p reason).Settles m → n.Aftermath p (Reason.recorded reason) m := by
  rcases spreading_die hn hq hp reason with ⟨hstart, hfallen⟩
  constructor
  · rcases drain_eq_run (n.die p reason) with ⟨ops, hops, hrun⟩
    refine ⟨ops, hops, hrun, signals_drain ?_⟩
    rw [show n.die p reason = n.step (.die p reason) from rfl, batch_step hn.coherent]
    exact hn.batch_pos
  · rintro m ⟨ops, hops, rfl, hquiet⟩
    refine (spreading_run hstart (recorded_recorded reason) hops).aftermath hquiet ?_
    rw [fallen_iff] at hfallen ⊢
    refine ⟨hp, Bool.eq_false_iff.mpr fun hnow => ?_⟩
    rcases lives_iff.mp hp with ⟨c, hc, -⟩
    -- Nobody comes back to life, so the first is still dead in the end.
    have hages := ages_step hn.coherent (.die p reason)
    have hspent := hages.spent _ _ (hn.coherent.spent p c hc)
    have hlives := (ages_run hstart.coherent ops).lives hspent hnow
    rw [hfallen.2] at hlives
    exact absurd hlives (by simp)

/-- Two processes in a link, and a third in a link with the second that traps exits. -/
def trio : List NodeOp :=
  [.spawn, .spawnLink (.ofSlot 1 0 0), .beginTurn, .handleInHand, .spawnLink (.ofSlot 2 0 0),
    .setFlag (.ofSlot 3 0 0) .trapExit true, .beginTurn, .handleInHand]

/-- The first of the three is killed. The second falls with it, and the third is left. -/
theorem aftermath_of_trio :
    ((new .standard).run trio).Reachable ∧ ((new .standard).run trio).queue.signals = [] ∧
      ((new .standard).run trio).lives (.ofSlot 1 0 0) = true ∧
      ((new .standard).run trio).Aftermath (.ofSlot 1 0 0) Reason.killed
        (((new .standard).run trio).die (.ofSlot 1 0 0) Reason.kill).drain := by
  have hreach : ((new .standard).run trio).Reachable := ⟨.standard, trio, rfl⟩
  have hq : ((new .standard).run trio).queue.signals = [] := by decide
  have hp : ((new .standard).run trio).lives (.ofSlot 1 0 0) = true := by decide
  rcases aftermath_of_settles hreach hq hp Reason.kill with ⟨hdrain, hall⟩
  exact ⟨hreach, hq, hp, hall _ hdrain⟩

end Node

end Actors
