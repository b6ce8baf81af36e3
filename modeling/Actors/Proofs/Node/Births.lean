import Actors.Proofs.Node.Lockstep
import Actors.Proofs.Node.Refusals

/-!
# To Be Born in a Relation

A process can be made in a link, or watched, in one request; or it can be made first
and linked or watched then. This module compares the two. As long as no body has run
and the signals that wait have been handled, nothing tells them apart: a newborn holds
its side of the relation from the start in one case and gets it with the first signal
it handles in the other, and nodes that differ in that much come together.

It takes three facts about newborns. Nothing waits for a process that has just been
made, since its name was nobody's before. No route goes through it, so what is sent to
its partner is not sent to it. And it traps no exits, so that one that comes from a
partner that cannot be reached ends it whether it holds the link or not.

Two partners are treated differently. A newborn whose partner is on a node that cannot
be reached is told that there is no such process, where a request for a link would say
that there is no connection. And the name that is about to be given out can be named
as the partner. A newborn that is linked with itself keeps that link; no request makes
one.

## Main definitions

* `Node.Newborn`: A process that has just been made.
* `Node.BirthLaw`: What can be relied on about processes that are born in a relation.

## Theorems

* `newborn_makeProcess`, `resolve_birth`: Nobody knows a process that was just made.
* `sameOutcomes_of_rift`: A change at once or by signals that make up for it.
* `Newborn.linked`, `Newborn.watched`: A relation at once or by a signal.
* `Newborn.unreachable`, `Newborn.itself`: The partners that are treated differently.
* `Reachable.birthLaw`: To be born in a relation is to be born and related.
* `unreachable_partner`: The reasons that differ.
-/

namespace Actors

theorem PidSet.erase_insert_empty (p : Pid) :
    ((∅ : PidSet).insert p).erase p = (∅ : PidSet).erase p := by
  have hnot : p ∉ (∅ : PidSet).toList := List.not_mem_nil
  have hlist : (((∅ : PidSet).insert p).erase p).toList = ((∅ : PidSet).erase p).toList := by
    rw [insert, dif_neg hnot]
    change ([p].filter fun q => q ≠ p) = []
    simp
  rcases hs : ((∅ : PidSet).insert p).erase p with ⟨ps, hps⟩
  rw [hs] at hlist
  simp only at hlist
  subst hlist
  rfl

theorem PidSet.insert_of_mem {s : PidSet} {p : Pid} (h : p ∈ s) : s.insert p = s := dif_pos h

/-- A process that was just made, in a link. -/
def Process.freshLinked (l : Pid) : Process := { Process.fresh with links := (∅ : PidSet).insert l }

theorem RouterTable.mem_of_route {t : RouterTable} {node : String} {router : Pid}
    (h : t.route node = some router) : ∃ route ∈ t.routesTo node, route.router = router := by
  rw [route, Option.map_eq_some_iff] at h
  rcases h with ⟨best, hbest, hrouter⟩
  exact ⟨best, (cheapest_least hbest).1, hrouter⟩

namespace Node

/-- A process that has just been made. -/
structure Newborn (n : Node) (p : Pid) : Prop where
  /-- The tables of the node agree. -/
  coherent : n.Coherent
  /-- The draining task takes signals. -/
  batch : 0 < n.queue.batch
  /-- It is as it was made. -/
  fresh : n.process? p = some .fresh
  /-- Nothing waits for it. -/
  spared : ∀ d ∈ n.queue.signals, d.target ≠ p
  /-- It carries no signals to other nodes. -/
  unrouted : ∀ node, ∀ route ∈ n.routers.routesTo node, route.router ≠ p

variable {n n₁ : Node} {p l w : Pid} {c : Process} {e : Delivery}

/-! ## Newborns -/

/-- Nobody knows a process that was just made. -/
theorem newborn_makeProcess (hn : n.Reachable) (hm : n.makeProcess = (.ok p, n₁)) :
    n₁.Newborn p := by
  rcases makeProcess_ok hm with ⟨id, serial, table, hi, rfl, rfl⟩
  have hfree := hn.coherent.process?_of_insert hi
  refine ⟨hn.coherent.addProcess hi, hn.batch_pos, ?_, fun d hd ht => ?_,
    fun node route hr ht => ?_⟩
  · rw [process?_addProcess, if_pos rfl]
  · -- No signal waits for a pid that was never given out.
    have hsome := hn.coherent.targets d hd
    rw [ht, hfree] at hsome
    exact absurd hsome (by simp)
  · -- A router is a living process, and this one was not there.
    have hlives := hn.coherent.routes node route hr
    rw [ht, lives_of_process?_none hfree] at hlives
    exact absurd hlives (by simp)

theorem Newborn.lives (h : n.Newborn p) : n.lives p = true := lives_of h.fresh rfl

theorem Newborn.resolve_self (h : n.Newborn p) : n.resolve (.pid p) = .ok (.process p) := by
  rw [resolve, resolvePid, if_pos (h.coherent.isLocal h.fresh), h.coherent.isSome_lookup, h.lives,
    if_pos rfl]

/-- A signal to a newborn is queued for it. -/
theorem Newborn.deliveries (h : n.Newborn p) (sender : Pid) (s : Signal) :
    n.deliveries sender s (.pid p) = [⟨p, sender, s⟩] :=
  h.coherent.deliveries_of_lives h.lives sender s

/-- A signal to somebody else is not queued for a newborn. -/
theorem Newborn.spared_deliveries (h : n.Newborn p) (hl : l ≠ p) (sender : Pid) (s : Signal) :
    ∀ d ∈ n.deliveries sender s (.pid l), d.target ≠ p := by
  intro d hd
  rw [Node.deliveries] at hd
  split at hd
  next => exact absurd hd List.not_mem_nil
  next q hq =>
    rw [List.mem_singleton.mp hd, eq_of_resolve_process hq]
    exact hl
  next router hrouter =>
    rw [List.mem_singleton.mp hd]
    -- Only a route leads to a router.
    rw [resolve, resolvePid] at hrouter
    split at hrouter
    next => split at hrouter <;> exact absurd hrouter (by simp)
    next =>
      split at hrouter
      next => exact absurd hrouter (by simp)
      next node _ =>
        rw [routerFor] at hrouter
        split at hrouter
        next => exact absurd hrouter (by simp)
        next q hq =>
          split at hrouter
          next =>
            rw [Except.ok.injEq, Resolved.router.injEq] at hrouter
            rcases RouterTable.mem_of_route hq with ⟨route, hmem, heq⟩
            rw [← hrouter, ← heq]
            exact h.unrouted node route hmem
          next => exact absurd hrouter (by simp)

/-- A birth does not change what the name of another process resolves to. -/
theorem resolve_birth (hn : n.Reachable) (hm : n.makeProcess = (.ok p, n₁)) (hl : l ≠ p) :
    n₁.resolve (.pid l) = n.resolve (.pid l) := by
  have hborn := newborn_makeProcess hn hm
  rcases makeProcess_ok hm with ⟨id, serial, table, hi, -, hn₁⟩
  -- Everybody else is looked up as before, and no route goes through the newborn.
  have hlookup : ∀ q, q ≠ p → (n₁.lookup q).isSome = (n.lookup q).isSome := by
    intro q hq
    rw [hborn.coherent.isSome_lookup, hn.coherent.isSome_lookup, Node.lives, Node.lives, hn₁,
      process?_addProcess, if_neg hq]
  have hrouters : n₁.routers = n.routers := by
    rw [hn₁]
    rfl
  have hrouter : ∀ node, n₁.routerFor node = n.routerFor node := by
    intro node
    rw [routerFor, routerFor, hrouters]
    rcases hr : n.routers.route node with _ | router
    · rfl
    · rcases RouterTable.mem_of_route hr with ⟨route, hmem, heq⟩
      dsimp only
      rw [hlookup router (heq ▸ hborn.unrouted node route (hrouters ▸ hmem))]
  rw [resolve, resolve, resolvePid, resolvePid, hlookup l hl, hrouters]
  simp only [hrouter]

/-! ## At once, or by a signal -/

/-- A node with a process that differs from what it is, and other signals for it at the end
    of the queue, leads to the same states if the signals make up for the difference. -/
theorem sameOutcomes_of_rift {f : Process → Process} {ds sa sb : List Delivery}
    (hb : 0 < n.queue.batch) (hc : n.process? p = some c) (hlone : c.Lone ∧ (f c).Lone)
    (hspared : ∀ d ∈ n.queue.signals ++ ds, d.target ≠ p) (hrift : Rift p (f c) sa c sb) :
    SameOutcomes ((n.update p f).queueAll (ds ++ sa)) (n.queueAll (ds ++ sb)) := by
  -- Seen from the node that was changed, the other one is the one that differs.
  have hback : (n.update p f).update p (fun _ => c) = n := by
    rw [update_update]
    exact update_id hc
  have hparted : Parted p (f c) sa c sb (n.queue.signals ++ ds) []
      ((n.update p f).queueAll (ds ++ sa)) (n.queueAll (ds ++ sb)) := by
    refine ⟨hrift, hlone.symm, process?_update_self hc f, ?_, ?_, ?_, hspared⟩
    · change _ = ((n.update p f).update p fun _ => c).withQueue _
      rw [hback]
      rfl
    · rw [signals_queueAll, List.append_nil, List.append_assoc]
      rfl
    · rw [signals_queueAll, List.append_nil, List.append_assoc]
  refine sameOutcomes_of_near (Or.inl ⟨_, _, _, _, _, _, hparted⟩) ?_ ?_ <;> rwa [batch_queueAll]

theorem lone_freshLinked (l : Pid) : (Process.freshLinked l).Lone :=
  ⟨PidSet.size_insert_le ∅ l, Nat.zero_le 1⟩

theorem lone_fresh : Process.fresh.Lone := ⟨Nat.zero_le 1, Nat.zero_le 1⟩

/-! ## Links -/

/-- Who is born in a link holds it; who asks for one gets it by a signal. -/
theorem Newborn.linked (h : n.Newborn p) (hl : l ≠ p) {r : Resolved}
    (hr : n.resolve (.pid l) = .ok r) :
    SameOutcomes ((n.update p fun c => { c with links := c.links.insert l }).queueAll
      (n.birthDeliveries p l)) (n.link p l) := by
  rw [link_eq, linkDeliveries, if_neg hl.symm, birthDeliveries, hr]
  dsimp only
  rw [h.deliveries l .link]
  -- Neither what waited before nor what goes to the partner is for the newborn.
  have hspared : ∀ d ∈ n.queue.signals ++ n.deliveries p .link (.pid l), d.target ≠ p :=
    fun d hd => (List.mem_append.mp hd).elim (h.spared d) (h.spared_deliveries hl p .link d)
  have hrift : Rift p (.freshLinked l) [] .fresh [⟨p, l, .link⟩] := .ahead rfl rfl Nat.one_ne_zero
  have hsame := sameOutcomes_of_rift (f := fun c => { c with links := c.links.insert l }) h.batch
    h.fresh ⟨lone_fresh, lone_freshLinked l⟩ hspared hrift
  rwa [List.append_nil] at hsame

/-- A newborn whose partner cannot be reached ends, whether it held the link or not. -/
theorem Newborn.unreachable (h : n.Newborn p) {failure : Failure}
    (hr : n.resolve (.pid l) = .error failure) :
    SameOutcomes ((n.update p fun c => { c with links := c.links.insert l }).queueAll
      (n.birthDeliveries p l)) (n.post l (.exit Reason.noproc) p) := by
  rw [post_eq, birthDeliveries, hr]
  dsimp only
  rw [h.deliveries l]
  -- The exit signal takes the link with it.
  have hends : (Process.freshLinked l).react l (.exit Reason.noproc) =
      .die { Process.fresh with links := (∅ : PidSet).erase l } Reason.noproc := by
    rw [← PidSet.erase_insert_empty]
    rfl
  have hrift : Rift p (.freshLinked l) [⟨p, l, .exit Reason.noproc⟩] .fresh
      [⟨p, l, .exit Reason.noproc⟩] := .both rfl hends rfl
  have hspared : ∀ d ∈ n.queue.signals ++ [], d.target ≠ p := by
    rw [List.append_nil]
    exact h.spared
  exact sameOutcomes_of_rift (f := fun c => { c with links := c.links.insert l }) h.batch
    h.fresh ⟨lone_fresh, lone_freshLinked l⟩ hspared hrift

/-- A newborn that was linked with itself from the start stays in that link. -/
theorem Newborn.itself (h : n.Newborn p) :
    SameOutcomes ((n.update p fun c => { c with links := c.links.insert p }).queueAll
      (n.birthDeliveries p p)) (n.update p fun c => { c with links := c.links.insert p }) := by
  rw [birthDeliveries, h.resolve_self]
  dsimp only
  rw [h.deliveries p .link]
  generalize hx : (n.update p fun c => { c with links := c.links.insert p }) = x
  have hc : x.process? p = some (.freshLinked p) := by
    rw [← hx]
    exact process?_update_self h.fresh _
  have hspared : ∀ d ∈ x.queue.signals ++ [], d.target ≠ p := by
    rw [List.append_nil, ← hx]
    exact h.spared
  have hbatch : 0 < x.queue.batch := by
    rw [← hx]
    exact h.batch
  have hagain : (Process.freshLinked p).react p .link = .become (.freshLinked p) := by
    have hmem : p ∈ (∅ : PidSet).insert p := PidSet.mem_insert.mpr (Or.inr rfl)
    change Process.Reaction.become
      { Process.fresh with links := ((∅ : PidSet).insert p).insert p } = _
    rw [PidSet.insert_of_mem hmem]
    rfl
  have hrift : Rift p (.freshLinked p) [⟨p, p, .link⟩] (.freshLinked p) [] :=
    .behind rfl hagain Nat.one_ne_zero
  -- There is no difference to begin with, and the signal makes none.
  have hsame := sameOutcomes_of_rift (f := fun _ => .freshLinked p) hbatch hc
    ⟨lone_freshLinked p, lone_freshLinked p⟩ hspared hrift
  rwa [update_id hc] at hsame

/-! ## Monitors -/

/-- Who is born watched knows the watcher; who is watched later learns it by a signal. -/
theorem Newborn.watched (h : n.Newborn p) (w : Pid) :
    SameOutcomes
      ((n.countRef.update p fun c =>
        { c with monitoredBy := c.monitoredBy.insert n.nextRef w }).track w n.nextRef p)
      (n.monitor w p).2 := by
  rw [monitor_eq, monitorDeliveries, h.resolve_self]
  dsimp only
  rw [h.deliveries w]
  generalize hx : n.countRef.track w n.nextRef p = x
  have hswap : (n.countRef.update p fun c =>
      { c with monitoredBy := c.monitoredBy.insert n.nextRef w }).track w n.nextRef p =
      x.update p fun c => { c with monitoredBy := c.monitoredBy.insert n.nextRef w } := by
    rw [← hx, track, track, isSome_lookup_update]
    split
    · -- The watcher may be the newborn itself.
      refine update_comm _ fun _ c => ?_
      by_cases hlife : c.life = .alive <;> simp [Process.trackMonitor, Process.isAlive, hlife]
    · rfl
  -- What the newborn itself watches is no difference between the two nodes.
  have hc : ∃ monitors, x.process? p = some { Process.fresh with monitors } := by
    rw [← hx]
    rcases track_cases n.countRef w n.nextRef p with ht | ht <;> rw [ht]
    · exact ⟨∅, h.fresh⟩
    · by_cases hp : p = w
      · refine ⟨(∅ : Dict Ref Pid).insert n.nextRef p, ?_⟩
        rw [← hp]
        exact process?_update_self (n := n.countRef) h.fresh _
      · rw [process?_update, if_neg hp]
        exact ⟨∅, h.fresh⟩
  have hqueue : x.queue = n.queue := by
    rw [← hx]
    exact queue_track n.countRef w n.nextRef p
  rcases hc with ⟨monitors, hc⟩
  have hspared : ∀ d ∈ x.queue.signals ++ [], d.target ≠ p := by
    rw [List.append_nil, hqueue]
    exact h.spared
  have hrift : Rift p { Process.fresh with
      monitors, monitoredBy := (∅ : Dict Ref Pid).insert n.nextRef w } []
      { Process.fresh with monitors } [⟨p, w, .monitor n.nextRef⟩] :=
    .ahead rfl rfl Nat.one_ne_zero
  have hlone : ({ Process.fresh with monitors } : Process).Lone ∧ ({ Process.fresh with
      monitors, monitoredBy := (∅ : Dict Ref Pid).insert n.nextRef w } : Process).Lone :=
    ⟨lone_fresh, Nat.zero_le 1, Dict.size_insert_le ∅ n.nextRef w⟩
  rw [hswap]
  exact sameOutcomes_of_rift
    (f := fun c => { c with monitoredBy := c.monitoredBy.insert n.nextRef w })
    (by rw [hqueue]; exact h.batch) hc hlone hspared hrift

/-! ## The law of births -/

/-- What can be relied on about processes that are born in a relation. -/
structure BirthLaw (n : Node) : Prop where
  /-- They are refused when any process is refused, and then nothing changes. -/
  refused : ∀ e, n.spawn.1 = .error e → ∀ q,
    n.spawnLink q = (.error e, n) ∧ n.spawnMonitor q = (.error e, n)
  /-- To be born in a link is to be born and to ask for the link, if the partner is of this
      node or can be reached. -/
  linked : ∀ p n₁ l, n.spawn = (.ok p, n₁) → l ≠ p →
    (l.isLocal = true ∨ ∃ r, n.resolve (.pid l) = .ok r) →
    (n.spawnLink l).1 = .ok p ∧ SameOutcomes (n.spawnLink l).2 (n₁.link p l)
  /-- If the partner is on a node that cannot be reached, the reason that is given is not the
      one that is given to who asks for a link. -/
  severed : ∀ p n₁ l, n.spawn = (.ok p, n₁) → l.isLocal = false →
    (∀ r, n.resolve (.pid l) ≠ .ok r) →
    (n.spawnLink l).1 = .ok p ∧
      SameOutcomes (n.spawnLink l).2 (n₁.post l (.exit Reason.noproc) p) ∧
      n₁.link p l = n₁.post l (.exit Reason.noconnection) p
  /-- Who is born in a link with itself holds it, and who asks for one does not get it. -/
  itself : ∀ p n₁, n.spawn = (.ok p, n₁) →
    (n.spawnLink p).1 = .ok p ∧
      SameOutcomes (n.spawnLink p).2
        (n₁.update p fun c => { c with links := c.links.insert p }) ∧
      n₁.link p p = n₁
  /-- To be born watched is to be born and then watched, by whomever. -/
  watched : ∀ p n₁ w, n.spawn = (.ok p, n₁) →
    (n.spawnMonitor w).1 = .ok (p, (n₁.monitor w p).1) ∧
      SameOutcomes (n.spawnMonitor w).2 (n₁.monitor w p).2

/-- A process of another node that cannot be reached is one there is no connection to. -/
theorem resolve_abroad {failure : Failure} (hl : l.isLocal = false)
    (hr : n.resolve (.pid l) = .error failure) : failure = .noconnection := by
  rw [resolve, resolvePid, hl] at hr
  simp only [Bool.false_eq_true, if_false] at hr
  split at hr
  next => exact ((Except.error.injEq _ _).mp hr).symm
  next => exact routerFor_error hr

/-- In every state a node can reach, to be born in a relation is to be born and related,
    but for the reason given for a partner that cannot be reached. -/
theorem Reachable.birthLaw (hn : n.Reachable) : n.BirthLaw := by
  refine ⟨fun e he q => ?_, fun p n₁ l hm hl hpartner => ?_, fun p n₁ l hm hl hpartner => ?_,
    fun p n₁ hm => ?_, fun p n₁ w hm => ?_⟩
  · have hrefused : n.makeProcess = (.error e, n.makeProcess.2) := Prod.ext he rfl
    exact ⟨spawnLink_of_error hrefused q, spawnMonitor_of_error hrefused q⟩
  · have hborn := newborn_makeProcess hn hm
    rw [spawnLink_of_ok hm l]
    refine ⟨rfl, ?_⟩
    rcases hr : n₁.resolve (.pid l) with failure | r
    · -- The partner is of this node, so both say that there is no such process.
      have hreason : unreachableReason failure = Reason.noproc := by
        rw [resolve_birth hn hm hl] at hr
        rcases hpartner with hlocal | ⟨r, hr'⟩
        · rw [resolve, resolvePid, if_pos hlocal] at hr
          split at hr
          next => exact absurd hr (by simp)
          next =>
            rw [← (Except.error.injEq _ _).mp hr]
            rfl
        · exact absurd (hr.symm.trans hr') (by simp)
      have hlink : n₁.link p l = n₁.post l (.exit Reason.noproc) p := by
        rw [link_eq, linkDeliveries, if_neg hl.symm, hr, post_eq, ← hreason]
      rw [hlink]
      exact hborn.unreachable hr
    · exact hborn.linked hl hr
  · have hborn := newborn_makeProcess hn hm
    -- A newborn is of this node.
    have hne : l ≠ p := by
      rintro rfl
      rw [hborn.coherent.isLocal hborn.fresh] at hl
      exact absurd hl (by simp)
    rw [spawnLink_of_ok hm l]
    rcases hr : n₁.resolve (.pid l) with failure | r
    · refine ⟨rfl, hborn.unreachable hr, ?_⟩
      rw [link_eq, linkDeliveries, if_neg hne.symm, hr, post_eq, resolve_abroad hl hr]
      rfl
    · rw [resolve_birth hn hm hne] at hr
      exact absurd hr (hpartner r)
  · have hborn := newborn_makeProcess hn hm
    rw [spawnLink_of_ok hm p]
    exact ⟨rfl, hborn.itself, by rw [link, if_pos rfl]⟩
  · have hborn := newborn_makeProcess hn hm
    rw [spawnMonitor_of_ok hm w, ← nextRef_of_makeProcess hm]
    refine ⟨?_, hborn.watched w⟩
    rw [monitor_eq]

/-- A process that traps exits gets a partner. -/
theorem birthLaw_trapping :
    let n := (new .standard).run [.spawn, .setFlag (.ofSlot 1 0 0) .trapExit true]
    n.BirthLaw ∧ n.spawn.1 = .ok (.ofSlot 2 0 0) ∧
      SameOutcomes (n.spawnLink (.ofSlot 1 0 0)).2
        (n.spawn.2.link (.ofSlot 2 0 0) (.ofSlot 1 0 0)) := by
  intro n
  have hlaw : n.BirthLaw := Reachable.birthLaw ⟨.standard, _, rfl⟩
  exact ⟨hlaw, rfl, (hlaw.linked _ _ _ rfl (by decide) (Or.inl rfl)).2⟩

/-- The same partner, on a node that was never heard of, and two reasons to end. -/
theorem unreachable_partner :
    let n := new .standard
    let p : Pid := .ofSlot 1 0 0
    let l : Pid := ⟨1, 1, 0, 0⟩
    n.Reachable ∧ n.spawn.1 = .ok p ∧ (n.spawnLink l).1 = .ok p ∧
      ((n.spawnLink l).2.drain.process? p).bind Process.exitReason = some Reason.noproc ∧
      ((n.spawn.2.link p l).drain.process? p).bind Process.exitReason =
        some Reason.noconnection ∧
      ¬ SameOutcomes (n.spawnLink l).2 (n.spawn.2.link p l) := by
  intro n p l
  have hborn : ((n.spawnLink l).2.drain.process? p).bind Process.exitReason =
      some Reason.noproc := by decide
  have hasked : ((n.spawn.2.link p l).drain.process? p).bind Process.exitReason =
      some Reason.noconnection := by decide
  -- The two drained nodes give different reasons, so they cannot have the same outcomes.
  refine ⟨⟨.standard, [], rfl⟩, rfl, rfl, hborn, hasked, fun hsame => ?_⟩
  rw [hsame.drained.process? p, hborn] at hasked
  exact absurd hasked (by decide)

end Node

end Actors
