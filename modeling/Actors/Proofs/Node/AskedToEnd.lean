import Actors.Proofs.Node.Drain
import Actors.Proofs.Node.Outlook

/-!
# Asked to End by a Partner

A process is asked to end, by an exit signal that it does not trap, in a node
where nothing else waits. All its partners are told, once each and with the reason
that it reports, and whoever lives on does not list it any more. There is one
exception, the one who asked. The handler of exit signals drops the link with the
sender before anything else, and so the farewells of the process go to the partners
that are left. That is as it should be where the signal announces an end. A partner
that asks another to end has not ended, and is never told that its wish was granted.

What happens is told in two parts. Until the signal is handled nothing changes but
the order of tables, and when it is handled the farewells are queued. From then on
the process is dead, and nothing more is said in its name: the dead only answer, and
nobody asks, since a dispatching node sends no requests.

## Main definitions

* `Node.Asked`: A process is asked to end, and nothing else waits.

## Theorems

* `tie?_of_dispatch`: No request to link is made by dispatch.
* `silent_step`, `silent_of_dead`: A dead process says nothing more.
* `Asked.handled`: The moment at which the signal is handled.
* `Asked.farewells`: All that is queued in the name of the process.
* `Asked.told`, `Asked.listed`: Who hears of the end, and who does not list it.
* `told_of_exit`: Who is told, and who is not.
-/

namespace Actors

namespace Node

/-- A process is asked to end, and nothing else waits. It does not trap the request. -/
structure Asked (n : Node) (b x : Pid) (c : Process) (reason : Term) : Prop where
  alone : n.queue.signals = [⟨b, x, .exit reason⟩]
  target : n.process? b = some c
  alive : c.isAlive = true
  heeds : c.traps reason = false

variable {a b p x y : Pid} {n : Node} {c : Process} {reason : Term}

/-! ## While signals are handled -/

/-- Nobody is born while signals are handled. -/
theorem lives_of_dispatch {op : NodeOp} (hop : op.isDispatch = true)
    (h : (n.step op).lives p = true) : n.lives p = true := by
  cases op with
  | beginTurn => exact h
  | reorder q links watchers =>
      rwa [step, lives_update fun c _ => c.life_reorder links watchers] at h
  | handleInHand =>
      rw [step] at h
      rcases handleInHand_cases n with ⟨-, hi⟩ | ⟨d, q, -, -, hi⟩ <;> rw [hi] at h
      · exact h
      · exact lives_of_handle (n := n.withQueue q) (lives_of_reclaim h)
  | _ => exact absurd hop (by simp [NodeOp.isDispatch])

theorem lives_of_run {ops : List NodeOp} (hops : ∀ op ∈ ops, op.isDispatch = true)
    (h : (n.run ops).lives p = true) : n.lives p = true := by
  induction ops generalizing n with
  | nil => exact h
  | cons op rest ih =>
      exact lives_of_dispatch (hops op List.mem_cons_self)
        (ih (fun op' hop' => hops op' (List.mem_cons_of_mem op hop')) h)

theorem exists_next_of_posts {d : Delivery} {op : NodeOp} (hop : op.isDispatch = true)
    (hd : d ∈ n.posts op) : ∃ e q, n.queue.next? = some (e, q) ∧ d ∈ n.replies e := by
  cases op with
  | handleInHand => exact mem_posts_handleInHand hd
  | beginTurn | reorder => exact absurd hd List.not_mem_nil
  | _ => exact absurd hop (by simp [NodeOp.isDispatch])

/-- No request to link or to take a link back is made while signals are handled. -/
theorem tie?_of_dispatch {ops : List NodeOp} (hops : ∀ op ∈ ops, op.isDispatch = true) :
    ∀ d ∈ n.collect posts ops, d.signal.tie? = none := by
  intro d hd
  rcases mem_collect hd with ⟨before, op, after, rfl, hmem⟩
  have hop := hops op (List.mem_append_right before List.mem_cons_self)
  rcases exists_next_of_posts hop hmem with ⟨e, q, -, hr⟩
  exact tie?_of_replies hr

/-- Where no request to link waits none will, while signals are handled. -/
theorem no_link_of_dispatch {op : NodeOp} (hop : op.isDispatch = true)
    (hlinks : ∀ d ∈ n.queue.signals, d.signal ≠ .link) :
    ∀ d ∈ (n.step op).queue.signals, d.signal ≠ .link := by
  intro d hd
  rcases signals_step n op with ⟨kept, hkept, hs⟩
  rw [hs] at hd
  rcases List.mem_append.mp hd with hold | hnew
  · exact hlinks d (by rw [hkept]; exact List.mem_append_right _ hold)
  · -- What handling queues is an answer or a farewell, and neither is about a tie.
    intro hsig
    rcases exists_next_of_posts hop hnew with ⟨e, q, -, hr⟩
    have htie := tie?_of_replies hr
    rw [hsig] at htie
    exact absurd htie (by simp [Signal.tie?])

theorem silent_step (hn : n.Coherent) (hlinks : ∀ d ∈ n.queue.signals, d.signal ≠ .link)
    (hb : n.lives b = false) {op : NodeOp} (hop : op.isDispatch = true) :
    ∀ d ∈ n.posts op, tells b a d = false := by
  intro d hd
  rw [Bool.eq_false_iff]
  intro htells
  rcases tells_iff.mp htells with ⟨⟨r, hsig⟩, hsender, -⟩
  rcases exists_next_of_posts hop hd with ⟨e, q, hq, hr⟩
  have hmem : e ∈ n.queue.signals := by
    rw [Dispatcher.signals_of_next? hq]
    exact List.mem_cons_self
  rcases Option.isSome_iff_exists.mp (hn.targets e hmem) with ⟨c, hc⟩
  rcases replies_cases hc with ⟨-, -, hrep⟩ | ⟨-, -, hrep⟩ | ⟨ha, r', -, -, -, hrep⟩ <;>
    rw [hrep] at hr
  · -- A dead process answers only a request to link by an exit signal.
    exact hlinks e hmem (signal_of_answers hr hsig)
  · exact absurd hr List.not_mem_nil
  · -- Whoever says farewell was alive.
    rw [← hsender, sender_of_farewellsOf hr, lives_of_process? hc, ha] at hb
    exact absurd hb (by simp)

/-- A dead process sends no exit signal, if no request to link waits that it could
    answer by one. -/
theorem silent_of_dead (hn : n.Coherent) (hlinks : ∀ d ∈ n.queue.signals, d.signal ≠ .link)
    (hb : n.lives b = false) {ops : List NodeOp} (hops : ∀ op ∈ ops, op.isDispatch = true) :
    ∀ d ∈ n.collect posts ops, tells b a d = false := by
  -- Two things are carried along: the process is dead, and no request to link waits.
  induction ops generalizing n with
  | nil => exact fun d hd => absurd hd List.not_mem_nil
  | cons op rest ih =>
      have hop := hops op List.mem_cons_self
      intro d hd
      rcases List.mem_append.mp hd with hnow | hlater
      · exact silent_step hn hlinks hb hop d hnow
      · refine ih (coherent_step hn op) (no_link_of_dispatch hop hlinks) ?_
          (fun op' hop' => hops op' (List.mem_cons_of_mem op hop')) d hlater
        rw [Bool.eq_false_iff]
        exact fun hl => absurd (hb.symm.trans (lives_of_dispatch hop hl)) (by simp)

/-! ## The signal is handled -/

/-- As long as no signal is handled nothing is queued, and processes change at most
    the order of their tables. -/
theorem untouched_of_takes (hc : n.process? p = some c) {op : NodeOp} (hop : op.isDispatch = true)
    (ht : n.takes op = []) : n.posts op = [] ∧
      ∃ c', (n.step op).process? p = some c' ∧ c'.life = c.life ∧ c'.trapExit = c.trapExit := by
  cases op with
  | beginTurn => exact ⟨rfl, c, hc, rfl, rfl⟩
  | reorder q links watchers =>
      refine ⟨rfl, ?_⟩
      rw [step, process?_update, hc]
      split
      · rcases c.reorder_cases links watchers with hr | ⟨-, -, hr⟩
        · exact ⟨c, congrArg some hr, rfl, rfl⟩
        · exact ⟨_, congrArg some hr, rfl, rfl⟩
      · exact ⟨c, rfl, rfl, rfl⟩
  | handleInHand =>
      rw [takes] at ht
      rcases hq : n.queue.next? with _ | ⟨d, q⟩ <;> rw [hq] at ht
      · rw [posts, step, handleInHand, hq]
        exact ⟨rfl, c, hc, rfl, rfl⟩
      · exact absurd ht (by simp)
  | _ => exact absurd hop (by simp [NodeOp.isDispatch])

/-- A request that was not handled is still the only one that waits. -/
theorem Asked.step (h : Asked n b x c reason) {op : NodeOp} (hop : op.isDispatch = true)
    (ht : n.takes op = []) :
    n.posts op = [] ∧ ∃ c', Asked (n.step op) b x c' reason := by
  rcases untouched_of_takes h.target hop ht with ⟨hposts, c', hc', hlife, htrap⟩
  -- What waits afterwards is what waited before, as nothing was taken and nothing queued.
  have hsame := takes_append_signals_step n op
  rw [ht, hposts, List.append_nil, List.nil_append] at hsame
  refine ⟨hposts, c', hsame.trans h.alone, hc', ?_, ?_⟩
  · rw [Process.isAlive, hlife, ← Process.isAlive]
    exact h.alive
  · rw [Process.traps, htrap]
    exact h.heeds

/-- The moment at which the only signal that waits is handled and ends its target.
    Nothing was queued before, and the target has the partners it had. -/
theorem Asked.handled (hn : n.Coherent) (h : Asked n b x c reason) {ops : List NodeOp}
    (hops : ∀ op ∈ ops, op.isDispatch = true) (hend : (n.run ops).queue.signals = []) :
    ∃ before after, ops = before ++ .handleInHand :: after ∧ n.collect posts before = [] ∧
      (n.run before).takes .handleInHand = [⟨b, x, .exit reason⟩] ∧
      (b, Reason.recorded reason) ∈ (n.run before).deaths .handleInHand ∧
      ∀ y, y ∈ (n.run before).linksOf b ↔ y ∈ n.linksOf b := by
  -- Until something is taken the node stays `Asked`, and what is taken is the request.
  induction ops generalizing n c with
  | nil =>
      rw [run_nil, h.alone] at hend
      exact absurd hend (by simp)
  | cons op rest ih =>
      have hop := hops op List.mem_cons_self
      by_cases htaken : n.takes op = []
      · rcases h.step hop htaken with ⟨hposts, c', h'⟩
        have hlinks : ∀ y, y ∈ (n.step op).linksOf b ↔ y ∈ n.linksOf b := by
          intro y
          have hstep := links_step (y := y) hn (lives_of h.target h.alive)
            (lives_of h'.target h'.alive)
          rwa [htaken, List.foldl_nil, decide_eq_decide] at hstep
        rcases ih (coherent_step hn op) h'
          (fun op' hop' => hops op' (List.mem_cons_of_mem op hop')) hend with
          ⟨before, after, rfl, hbefore, hnext, hdeath, hsame⟩
        refine ⟨op :: before, after, rfl, ?_, hnext, hdeath, fun y => (hsame y).trans (hlinks y)⟩
        rw [collect, hposts, hbefore]
        rfl
      · have hhand : op = .handleInHand := by
          cases op with
          | handleInHand => rfl
          | _ => exact absurd rfl htaken
        subst hhand
        rw [takes] at htaken
        rcases hq : n.queue.next? with _ | ⟨d, q⟩
        · rw [hq] at htaken
          exact absurd rfl htaken
        · have hhead := Dispatcher.signals_of_next? hq
          rw [h.alone, List.cons.injEq] at hhead
          have hnext : n.takes .handleInHand = [⟨b, x, .exit reason⟩] := by
            rw [takes, hq, ← hhead.1]
          have hdeaths := deaths_handleInHand hq (by rw [← hhead.1]; exact h.target) h.alive
            (congrArg Delivery.signal hhead.1.symm) h.heeds
          refine ⟨[], rest, rfl, rfl, hnext, ?_, fun y => Iff.rfl⟩
          rw [run_nil, hdeaths, ← hhead.1]
          exact List.mem_singleton.mpr rfl

/-- The process ends. Everything that is said in its name are its farewells, to the
    partners other than the one who asked. -/
theorem Asked.farewells (hn : n.Coherent) (h : Asked n b x c reason) {ops : List NodeOp}
    (hops : ∀ op ∈ ops, op.isDispatch = true) (hend : (n.run ops).queue.signals = []) :
    (b, Reason.recorded reason) ∈ n.collect deaths ops ∧
      ∀ a, (n.run ops).lives a = true → (n.collect posts ops).filter (tells b a) =
        if a ∈ c.links ∧ a ≠ x then [⟨a, b, .exit (Reason.recorded reason)⟩] else [] := by
  rcases h.handled hn hops hend with ⟨before, after, rfl, hbefore, hnext, hdeath, hsame⟩
  refine ⟨?_, fun a hlive => ?_⟩
  · rw [collect_append, collect]
    exact List.mem_append_right _ (List.mem_append_left _ hdeath)
  · have hwaits := takes_append_signals n before
    rw [hbefore, h.alone, List.append_nil] at hwaits
    rw [collect_append, collect, hbefore, List.nil_append]
    have hm := coherent_run hn before
    rw [run_append, run_cons] at hlive
    generalize n.run before = m at *
    have hlater : ∀ op ∈ after, op.isDispatch = true := fun op hop =>
      hops op (List.mem_append_right before (List.mem_cons_of_mem _ hop))
    rcases posts_of_deaths hdeath with ⟨c', hposts, hlinks⟩
    -- The signal was alone in the queue, so what waits after it are the farewells.
    rcases signals_step m .handleInHand with ⟨kept, hkept, hleft⟩
    have hkept' : kept = [] := by
      rw [hkept, hnext] at hwaits
      have hlength := congrArg List.length hwaits
      simp only [List.length_append, List.length_singleton] at hlength
      exact List.eq_nil_of_length_eq_zero (by omega)
    rw [hkept', List.nil_append, hposts] at hleft
    have hdead : (m.run [.handleInHand]).lives b = false :=
      not_lives_of_deaths hm (List.mem_append_left [] hdeath)
    have hsilent := silent_of_dead (a := a) (coherent_step hm .handleInHand)
      (fun d hd => link_not_mem_farewellsOf d (hleft ▸ hd)) hdead hlater
    have hmem : a ∈ c'.links ↔ a ∈ c.links ∧ a ≠ x := by
      have hlist := hlinks a
      have hpartner : decide (a ∈ m.linksOf b) = decide (a ∈ c.links) := by
        rw [decide_eq_decide, hsame, linksOf_eq h.target]
      rw [hnext, List.foldl_cons, List.foldl_nil, hpartner] at hlist
      by_cases hax : x = a
      · rw [hax, settle_exit, decide_eq_false_iff_not] at hlist
        exact ⟨fun hl => absurd hl hlist, fun hl => absurd hax.symm hl.2⟩
      · rw [settle_of_ne (fun heq => hax heq.2), decide_eq_decide] at hlist
        exact hlist.trans ⟨fun hl => ⟨hl, Ne.symm hax⟩, And.left⟩
    rw [List.filter_append, hposts, filter_tells_farewellsOf hm
      (lives_of_dispatch rfl (lives_of_run hlater hlive)) c' (Reason.recorded reason),
      List.filter_eq_nil_iff.mpr fun d hd => Bool.not_eq_true _ ▸ hsilent d hd, List.append_nil]
    simp only [hmem]

/-! ## What becomes of the partners -/

/-- A process that lives on is another one. -/
theorem Asked.ne (hn : n.Coherent) (h : Asked n b x c reason) {ops : List NodeOp}
    (hops : ∀ op ∈ ops, op.isDispatch = true) (hend : (n.run ops).queue.signals = [])
    (hlive : (n.run ops).lives a = true) : b ≠ a := by
  rintro rfl
  have hdead := not_lives_of_deaths hn (h.farewells hn hops hend).1
  exact absurd (hdead.symm.trans hlive) (by simp)

theorem Asked.told (hn : n.Coherent) (h : Asked n b x c reason) {ops : List NodeOp}
    (hops : ∀ op ∈ ops, op.isDispatch = true) (hend : (n.run ops).queue.signals = [])
    (hlive : (n.run ops).lives a = true) : (n.collect attends ops).filter (tells b a) =
      if a ∈ c.links ∧ a ≠ x then [⟨a, b, .exit (Reason.recorded reason)⟩] else [] := by
  -- What was handled is what waited at first, and that was no farewell, and what was queued.
  have htaken := takes_append_signals n ops
  rw [hend, List.append_nil, h.alone] at htaken
  have hfirst : ¬ tells b a ⟨b, x, .exit reason⟩ = true := by
    rw [tells_false_of_target (h.ne hn hops hend hlive)]
    exact Bool.false_ne_true
  rw [filter_attends hn hlive fun d hd => (tells_iff.mp hd).2.2, htaken,
    List.filter_append, List.filter_cons_of_neg hfirst, (h.farewells hn hops hend).2 a hlive]
  rfl

theorem Asked.listed (hn : n.Coherent) (h : Asked n b x c reason) {ops : List NodeOp}
    (hops : ∀ op ∈ ops, op.isDispatch = true) (hend : (n.run ops).queue.signals = [])
    (hlive : (n.run ops).lives a = true) (hmutual : b ∈ n.linksOf a ↔ a ∈ c.links) :
    b ∈ (n.run ops).linksOf a ↔ a = x ∧ x ∈ c.links := by
  have htie := tie?_of_dispatch (n := n) hops
  have hposts := (h.farewells hn hops hend).2 a hlive
  have hwill := willList_run (y := b) hn (lives_of_run hops hlive) hlive
  have hfirst : n.willList a b = decide (a ∈ c.links) := by
    rw [willList, h.alone, List.foldl_cons, List.foldl_nil,
      settle_of_ne fun heq => h.ne hn hops hend hlive heq.1, decide_eq_decide]
    exact hmutual
  rw [willList_of_quiet hend, hfirst] at hwill
  -- Whoever was told does not list it. Nobody else changed, and of those only the
  -- one who asked was a partner.
  by_cases htold : a ∈ c.links ∧ a ≠ x
  · rw [if_pos htold] at hposts
    have hmem : ⟨a, b, .exit (Reason.recorded reason)⟩ ∈ n.collect posts ops :=
      (List.mem_filter.mp (hposts ▸ List.mem_singleton.mpr rfl)).1
    rw [foldl_settle_exit (fun hl => absurd (htie _ hl) (by simp [Signal.tie?])) hmem,
      decide_eq_false_iff_not] at hwill
    exact ⟨fun hl => absurd hl hwill, fun hl => absurd hl.1 htold.2⟩
  · rw [if_neg htold, List.filter_eq_nil_iff] at hposts
    rw [foldl_settle_of_silent htie fun d hd => Bool.eq_false_iff.mpr (hposts d hd),
      decide_eq_decide] at hwill
    rw [hwill]
    refine ⟨fun hl => ?_, fun hl => hl.1 ▸ hl.2⟩
    by_cases hax : a = x
    · exact ⟨hax, hax ▸ hl⟩
    · exact absurd ⟨hl, hax⟩ htold

/-- A process is asked to end, and nothing else waits. The node falls silent, and then
    the process is dead. Of its partners those that live have handled one exit signal
    of it, with the reason that it reports, and do not list it. Only the one who asked
    hears nothing, and lists it on. -/
theorem told_of_exit (hn : n.Reachable) (hquiet : n.queue.signals = [])
    (hmutual : ∀ p q, n.lives p = true → n.lives q = true →
      (q ∈ n.linksOf p ↔ p ∈ n.linksOf q))
    (hc : n.process? b = some c) (ha : c.isAlive = true) (ht : c.traps reason = false) :
    let start := (n.exit x b reason).2
    (∃ ops : List NodeOp, (∀ op ∈ ops, op.isDispatch = true) ∧
      (start.run ops).queue.signals = []) ∧
    ∀ ops : List NodeOp, (∀ op ∈ ops, op.isDispatch = true) →
      (start.run ops).queue.signals = [] →
      (b, Reason.recorded reason) ∈ start.collect deaths ops ∧
      (start.run ops).lives b = false ∧
      (∀ a ∈ c.links, (start.run ops).lives a = true →
        (start.collect attends ops).filter (tells b a) =
          if a = x then [] else [⟨a, b, .exit (Reason.recorded reason)⟩]) ∧
      ∀ a, (start.run ops).lives a = true →
        (b ∈ (start.run ops).linksOf a ↔ a = x ∧ x ∈ c.links) := by
  intro start
  have hb := lives_of hc ha
  have hstart : start = n.queueAll [⟨b, x, .exit reason⟩] := by
    rw [← hn.coherent.deliveries_of_lives hb]
    exact signal_snd n x (.exit reason) (.pid b)
  have hm : start.Coherent := coherent_step hn.coherent (.signal x (.exit reason) (.pid b))
  have hproc : ∀ p, start.process? p = n.process? p := fun p => by rw [hstart]; rfl
  -- Asking puts the exit signal behind an empty queue and changes no process.
  have hasked : Asked start b x c reason := by
    refine ⟨?_, (hproc b).trans hc, ha, ht⟩
    rw [hstart, signals_queueAll, hquiet, List.nil_append]
  refine ⟨?_, fun ops hops hend => ?_⟩
  · -- The node settles, since what handling queues is bounded.
    rcases drain_eq_run start with ⟨ops, hops, hdrain⟩
    refine ⟨ops, hops, ?_⟩
    rw [← hdrain]
    refine signals_drain ?_
    rw [hstart, batch_queueAll]
    exact hn.batch_pos
  · have hdeath := (hasked.farewells hm hops hend).1
    refine ⟨hdeath, not_lives_of_deaths hm hdeath, fun a hlink hlive => ?_, fun a hlive => ?_⟩
    · rw [hasked.told hm hops hend hlive]
      by_cases hax : a = x
      · rw [if_neg fun h => h.2 hax, if_pos hax]
      · rw [if_pos ⟨hlink, hax⟩, if_neg hax]
    · refine hasked.listed hm hops hend hlive ?_
      -- Who is alive in the end was alive when the links were mutual.
      have hnow : n.lives a = true := by
        rw [lives, ← hproc a]
        exact lives_of_run hops hlive
      rw [linksOf_congr (hproc a), hmutual a b hnow hb, linksOf_eq hc]

/-- The first of three processes in a chain asks the second one to end, and the third
    one hears of it. -/
theorem told_of_exit_chain :
    let n := (new .standard).run [.spawn, .spawn, .spawn, .link (.ofSlot 1 0 0) (.ofSlot 2 0 0),
      .link (.ofSlot 2 0 0) (.ofSlot 3 0 0), .setFlag (.ofSlot 3 0 0) .trapExit true, .beginTurn,
      .handleInHand, .handleInHand, .handleInHand, .handleInHand]
    let start := (n.exit (.ofSlot 1 0 0) (.ofSlot 2 0 0) Reason.shutdown).2
    let ops : List NodeOp := [.beginTurn, .handleInHand, .beginTurn, .handleInHand]
    (start.run ops).queue.signals = [] ∧
      (start.collect attends ops).filter (tells (.ofSlot 2 0 0) (.ofSlot 3 0 0)) =
        [⟨.ofSlot 3 0 0, .ofSlot 2 0 0, .exit Reason.shutdown⟩] ∧
      .ofSlot 2 0 0 ∈ (start.run ops).linksOf (.ofSlot 1 0 0) ∧
      .ofSlot 2 0 0 ∉ (start.run ops).linksOf (.ofSlot 3 0 0) := by
  intro n start ops
  have hn : n.Reachable := ⟨.standard, _, rfl⟩
  have hmutual : ∀ p ∈ n.processes.keys, ∀ q ∈ n.processes.keys,
      (q ∈ n.linksOf p ↔ p ∈ n.linksOf q) := by decide
  -- Only the living are asked about, and they are among the keys, so the check is finite.
  have hkeys : ∀ p, n.lives p = true → p ∈ n.processes.keys := fun p hp =>
    Dict.mem_keys_iff.mpr (isSome_of_lives hp)
  have hlives : n.lives (.ofSlot 2 0 0) = true := by decide
  rcases lives_iff.mp hlives with ⟨c, hc, ha⟩
  have ht : c.traps Reason.shutdown = false := by
    have htraps : ((n.process? (.ofSlot 2 0 0)).map fun c => c.traps Reason.shutdown) =
      some false := by decide
    rwa [hc, Option.map_some, Option.some.injEq] at htraps
  have hend : (start.run ops).queue.signals = [] := by decide
  rcases (told_of_exit (x := .ofSlot 1 0 0) hn (by decide)
    (fun p q hp hq => hmutual p (hkeys p hp) q (hkeys q hq)) hc ha ht).2 ops (by decide) hend with
    ⟨-, -, htold, hlinks⟩
  have hpartners : .ofSlot 1 0 0 ∈ c.links ∧ .ofSlot 3 0 0 ∈ c.links := by
    rw [← linksOf_eq hc]
    decide
  refine ⟨hend, htold (.ofSlot 3 0 0) hpartners.2 (by decide), ?_, fun hlisted => ?_⟩
  · exact (hlinks (.ofSlot 1 0 0) (by decide)).mpr ⟨rfl, hpartners.1⟩
  · exact absurd ((hlinks (.ofSlot 3 0 0) (by decide)).mp hlisted).1 (by decide)

/-- A process asks its partner to end. The partner ends, and the one who asked is
    not told of it and lists the dead one on. -/
theorem never_told :
    let n := (new .standard).run [.spawn, .spawn, .link (.ofSlot 1 0 0) (.ofSlot 2 0 0), .beginTurn,
      .handleInHand, .handleInHand, .setFlag (.ofSlot 1 0 0) .trapExit true]
    let start := (n.exit (.ofSlot 1 0 0) (.ofSlot 2 0 0) Reason.shutdown).2
    let ops : List NodeOp := [.beginTurn, .handleInHand, .beginTurn]
    n.queue.signals = [] ∧ .ofSlot 1 0 0 ∈ n.linksOf (.ofSlot 2 0 0) ∧
      .ofSlot 2 0 0 ∈ n.linksOf (.ofSlot 1 0 0) ∧
      (start.run ops).queue.signals = [] ∧ (start.run ops).lives (.ofSlot 2 0 0) = false ∧
      (start.run ops).lives (.ofSlot 1 0 0) = true ∧
      (start.collect attends ops).filter (tells (.ofSlot 2 0 0) (.ofSlot 1 0 0)) = [] ∧
      .ofSlot 2 0 0 ∈ (start.run ops).linksOf (.ofSlot 1 0 0) := by
  decide

end Node

end Actors
