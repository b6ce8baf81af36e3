import Actors.Proofs.Node.Monitoring

/-!
# A Monitor Falls Silent

What a watcher still hears after it ended a monitor. Nothing keeps the notice
away: the watcher takes every notice that reaches it, whether it still knows of
the monitor or not. So all depends on the watched process. Signals arrive in
the order in which they were sent, and the request to end the monitor is behind
the one to set it up. If the watched process lives until the request is
handled, there is no trace of the monitor left, and nothing can be heard any
more. If it ends before that, a notice goes out although the monitor was ended
first, as `belated_notice` shows.

Before the request and after it a monitor is followed by what is queued about
it, since only the watched process can have anything on record.

## Main definitions

* `Node.Spares`: Nothing is queued or put on record about a monitor.
* `Node.Standing`: What holds until the watcher ends the monitor.
* `Node.Leaving`: What holds after that, as long as the watched process lives.

## Theorems

* `spares_step`: What operations do that have nothing to do with a monitor.
* `spares_or_concerns`: What an operation can have to do with one.
* `standing_step`, `standing_run`: The course of a monitor that nobody ended.
* `leaving_step`, `leaving_run`: The course of one that was ended.
* `silent_after_demonitor`: A watcher hears no more, if the watched process
  lives to hear of it.
-/

namespace Actors

namespace Node

variable {a b : Pid} {r : Ref} {n n' n'' : Node}

/-! ## What a watcher knows -/

theorem watchee?_of_reclaim {p q w : Pid} (h : (n.reclaim p).watchee? r q = some w) :
    n.watchee? r q = some w := by
  rcases hc : (n.reclaim p).process? q with _ | c
  · rw [watchee?, hc] at h
    exact absurd h (by simp)
  · rwa [watchee?_eq hc, ← watchee?_eq (process?_of_reclaim hc)] at h

/-- No signal makes a process watch another. -/
theorem monitors_of_reactAlive {c c' : Process} {sender : Pid} {s : Signal}
    (h : c.reactAlive sender s = .become c') {w : Pid} (hw : c'.monitors.get? r = some w) :
    c.monitors.get? r = some w := by
  cases s with
  | exit reason =>
      rwa [(Process.reactAlive_exit_become h).2] at hw
  | down ref reason =>
      rw [Process.reactAlive, Process.Reaction.become.injEq] at h
      rw [← h] at hw
      exact (Dict.get?_of_erase hw).2
  | _ =>
      rw [Process.reactAlive, Process.Reaction.become.injEq] at h
      rwa [← h] at hw

theorem watchee?_of_handle {d : Delivery} {q w : Pid} (h : (n.handle d).watchee? r q = some w) :
    n.watchee? r q = some w := by
  rcases hc : n.process? d.target with _ | c
  · rwa [handle_of_none hc] at h
  · rcases handle_cases hc with ⟨-, hh⟩ | ⟨-, c', hr, hh⟩ | ⟨-, reason, -, -, hh⟩ <;> rw [hh] at h
    · exact h
    · rw [watchee?_update_const hc] at h
      split at h
      next heq =>
        rw [heq, watchee?_eq hc]
        exact monitors_of_reactAlive hr h
      next => exact h
    · exact watchee?_of_fall h

/-- Nobody learns of a monitor but by the operation that makes it. -/
theorem watchee_step (h : n.Coherent) {op : NodeOp} (hmake : r ∉ n.makes op)
    (hraw : op.injects r = false) {q w : Pid} (hw : (n.step op).watchee? r q = some w) :
    n.watchee? r q = some w := by
  by_cases hop : op.isPlain = true
  · -- To end this very monitor is the one plain operation that is about it, and it only forgets.
    by_cases hend : ∃ p, op = .demonitor p r
    · rcases hend with ⟨p, rfl⟩
      rw [step] at hw
      rcases demonitor_cases n p r with hd | ⟨c, watchee, -, -, hd⟩ <;> rw [hd] at hw
      · exact hw
      · exact (rests_forgetMonitor r n p).watchee q w hw
    · exact (rests_step h hop hmake hraw fun p hp => hend ⟨p, hp⟩).watchee q w hw
  · cases op with
    | die p reason =>
        rw [step] at hw
        rcases die_cases n p reason with ⟨hd, -⟩ | ⟨c, -, -, hd⟩ <;> rw [hd] at hw
        · exact hw
        · exact watchee?_of_fall hw
    | letGo p =>
        exact (rests_loosen r n p).watchee q w (watchee?_of_reclaim hw)
    | handleInHand =>
        rw [step] at hw
        rcases handleInHand_cases n with ⟨-, hi⟩ | ⟨d, queue, -, -, hi⟩ <;> rw [hi] at hw
        · exact hw
        · have hold := watchee?_of_reclaim hw
          exact watchee?_of_handle (n := n.withQueue queue) hold
    | _ => exact absurd rfl hop

/-- Nobody learns of a monitor over a run that does not make it. -/
theorem watchee_run (h : n.Coherent) {ops : List NodeOp} (hmake : r ∉ n.collect makes ops)
    (hraw : ∀ op ∈ ops, op.injects r = false) {q w : Pid}
    (hw : (n.run ops).watchee? r q = some w) : n.watchee? r q = some w := by
  induction ops generalizing n with
  | nil => exact hw
  | cons op rest ih =>
      rw [collect, List.mem_append, not_or] at hmake
      have hnext := ih (coherent_step h op) hmake.2
        (fun op' hop' => hraw op' (List.mem_cons_of_mem op hop')) hw
      exact watchee_step h hmake.1 (hraw op List.mem_cons_self) hnext

theorem demonitor_of_watchee? (h : n.Coherent) {w x : Pid} (hw : n.watchee? r w = some x) :
    n.demonitor w r = (n.update w fun c => { c with monitors := c.monitors.erase r }).queueAll
      (n.deliveries w (.demonitor r) (.pid x)) := by
  rcases hc : n.process? w with _ | c
  · rw [watchee?, hc] at hw
    exact absurd hw (by simp)
  · rw [watchee?_eq hc] at hw
    -- Who is dead knows of no monitor, so the watcher is alive and in reach.
    have ha : c.isAlive = true := by
      refine Bool.not_eq_false _ ▸ fun hdead => ?_
      rcases Process.life_of_not_alive hdead with ⟨reason, hd⟩
      rw [((h.sound w c hc).ended reason hd).monitors] at hw
      exact absurd hw (by simp)
    have hlookup : n.lookup w = some c := by
      rw [h.lookup_eq, hc, Option.filter_some, if_pos ha]
    simp only [demonitor, hlookup, hw]
    rw [post_eq, deliveries_update]

/-- A watcher that ended a monitor does not know of it any more. -/
theorem watchee?_demonitor (h : n.Coherent) (w : Pid) : (n.demonitor w r).watchee? r w = none := by
  rcases hw : n.watchee? r w with _ | x
  · rw [demonitor_of_watchee?_none hw, hw]
  · rw [demonitor_of_watchee? h hw]
    change (n.update w _).watchee? r w = none
    rw [watchee?, process?_update, if_pos rfl]
    rcases n.process? w with _ | c
    · rfl
    · exact Dict.get?_erase_self _ _

/-! ## What leaves a monitor alone -/

/-- Nothing new is queued about a monitor, and nobody new has it on record. -/
structure Spares (r : Ref) (n n' : Node) : Prop where
  about : n'.about r = n.about r
  watcher : ∀ q w, n'.watcher? r q = some w → n.watcher? r q = some w

theorem Rests.spares (h : Rests r n n') : Spares r n n' :=
  ⟨h.about, fun q _ hw => (h.watcher q).symm.trans hw⟩

theorem Spares.trans (h : Spares r n n') (h' : Spares r n' n'') : Spares r n n'' :=
  ⟨h'.about.trans h.about, fun q w hw => h.watcher q w (h'.watcher q w hw)⟩

theorem Spares.watcher_none (h : Spares r n n') {q : Pid} (hq : n.watcher? r q = none) :
    n'.watcher? r q = none := by
  rcases hw : n'.watcher? r q with _ | w
  · rfl
  · exact absurd (hq.symm.trans (h.watcher q w hw)) (by simp)

theorem spares_reclaim (n : Node) (r : Ref) (p : Pid) : Spares r n (n.reclaim p) := by
  have habout : (n.reclaim p).about r = n.about r := by
    rcases reclaim_cases n p with ⟨hr, -⟩ | ⟨c, -, -, -, ⟨-, hr⟩ | ⟨-, hr⟩⟩ <;> rw [hr] <;> rfl
  -- Who is still there is what it was.
  refine ⟨habout, fun q w hw => ?_⟩
  rcases hc : (n.reclaim p).process? q with _ | c
  · rw [watcher?, hc] at hw
    exact absurd hw (by simp)
  · rwa [watcher?_eq hc, ← watcher?_eq (process?_of_reclaim hc)] at hw

/-- An operation that does not ask for the end of a monitor, does not handle a
    signal about it, and ends nobody who is watched. -/
theorem spares_step (h : n.Coherent) {op : NodeOp} (hmake : r ∉ n.makes op)
    (hraw : op.injects r = false) (hend : ∀ w, op ≠ .demonitor w r)
    (hnext : ∀ d q, op = .handleInHand → n.queue.next? = some (d, q) → d.signal.ref? ≠ some r)
    (hdeath : ∀ p reason, (p, reason) ∈ n.deaths op → n.watcher? r p = none) :
    Spares r n (n.step op) := by
  by_cases hop : op.isPlain = true
  · exact (rests_step h hop hmake hraw hend).spares
  · cases op with
    | die p reason =>
        rw [step]
        rcases die_cases n p reason with ⟨hd, -⟩ | ⟨c, hc, ha, hd⟩ <;> rw [hd]
        · exact (Rests.refl r n).spares
        · have hmem : (p, Reason.recorded reason) ∈ n.deaths (.die p reason) :=
            mem_deaths_die.mpr ⟨lives_of hc ha, rfl, rfl⟩
          have hnone := hdeath p _ hmem
          refine (rests_fall ?_ hnone _).spares
          rwa [← watcher?_eq hc]
    | letGo p =>
        exact (rests_loosen r n p).spares.trans (spares_reclaim _ r p)
    | handleInHand =>
        rw [step]
        rcases handleInHand_cases n with ⟨-, hi⟩ | ⟨d, q, hq, hs, hi⟩ <;> rw [hi]
        · exact (Rests.refl r n).spares
        · have hd := hnext d q rfl hq
          have htaken := rests_withQueue hs hd
          refine Spares.trans ?_ (spares_reclaim _ r d.target)
          rcases rests_handle_cases (n := n.withQueue q) hd with hr |
            ⟨c, reason, hc, ha, hsig, ht, hh⟩
          · exact (htaken.trans hr).spares
          · -- The signal ends its target, which nobody watches.
            have hmem : (d.target, Reason.recorded reason) ∈ n.deaths .handleInHand := by
              rw [deaths_handleInHand hq hc ha hsig ht]
              exact List.mem_singleton.mpr rfl
            have hnone : (n.withQueue q).watcher? r d.target = none := hdeath d.target _ hmem
            rw [hh]
            refine (htaken.trans (rests_fall ?_ hnone _)).spares
            exact (watcher?_eq hc).symm.trans hnone
    | _ => exact absurd rfl hop

/-- Who is alive, does not end and has a signal waiting is alive afterwards. -/
theorem lives_of_queued (h : n.Coherent) {op : NodeOp} (hlive : n.lives b = true)
    (hdeath : ∀ reason, (b, reason) ∉ n.deaths op) {d : Delivery}
    (hd : d ∈ (n.step op).queue.signals) (htarget : d.target = b) :
    (n.step op).lives b = true := by
  -- The signal that waits keeps it in the table. So it is there, and it did not die.
  have hthere := (coherent_step h op).targets d hd
  rw [htarget] at hthere
  rcases Option.isSome_iff_exists.mp hthere with ⟨c, hc⟩
  by_cases ha : c.isAlive = true
  · exact lives_of hc ha
  · rcases Process.life_of_not_alive (Bool.not_eq_true _ ▸ ha) with ⟨reason, hdead⟩
    rcases mem_deaths_or_dead h hc hdead with hmem | ⟨c₀, hc₀, hdead₀⟩
    · exact absurd hmem (hdeath reason)
    · rw [lives_of_process? hc₀, Process.isAlive, hdead₀] at hlive
      exact absurd hlive (by simp)

theorem eq_down_of_isDown {s : Signal} (h : s.isDown r = true) : ∃ reason, s = .down r reason := by
  rcases s with m | _ | _ | ref | ref | reason | ⟨ref, reason⟩
  case down => exact ⟨reason, by rw [of_decide_eq_true h]⟩
  all_goals exact absurd h (by simp [Signal.isDown])

/-- A signal about a monitor is handled by somebody who is alive, or is a notice. It leads to
    no other signal about the monitor. Nobody gets a record of it from a notice, nor from a
    signal for somebody else, and a request to end it takes the record away. -/
theorem takes_handle {d : Delivery} {q : Dispatcher} (hd : d.signal.ref? = some r)
    (hreacts : n.lives d.target = true ∨ d.signal.isDown r = true) :
    ((n.withQueue q).handle d).about r = (n.withQueue q).about r ∧
      (∀ p, p ≠ d.target ∨ d.signal.isDown r = true → n.watcher? r p = none →
        ((n.withQueue q).handle d).watcher? r p = none) ∧
      (d.signal = .demonitor r → ((n.withQueue q).handle d).watcher? r d.target = none) := by
  -- Who is dead only gets the notice, and does nothing about it.
  have hidle : n.lives d.target = false → d.signal.isDown r = true := fun hdead =>
    hreacts.resolve_left (by rw [hdead]; simp)
  have hnot : d.signal.isDown r = true → d.signal ≠ .demonitor r := by
    intro hdown heq
    rw [heq] at hdown
    exact absurd hdown (by simp [Signal.isDown])
  rcases hc : n.process? d.target with _ | c
  · have hdown := hidle (by rw [lives, hc]; rfl)
    rw [handle_of_none (n := n.withQueue q) hc]
    exact ⟨rfl, fun _ _ hnone => hnone, fun hend => absurd hend (hnot hdown)⟩
  · rcases handle_cases (n := n.withQueue q) hc with ⟨hdead, hh⟩ | ⟨-, c', hr, hh⟩ |
      ⟨-, reason, hsig, -⟩
    · have hdown := hidle ((lives_of_process? hc).trans hdead)
      rcases eq_down_of_isDown hdown with ⟨reason, hsig⟩
      have hsilent : (n.withQueue q).answers d = [] := by
        rw [answers, hsig]
        rfl
      rw [hh, hsilent]
      exact ⟨rfl, fun _ _ hnone => hnone, fun hend => absurd hend (hnot hdown)⟩
    · rw [hh]
      refine ⟨rfl, fun p hp hnone => ?_, fun hend => ?_⟩
      · rw [watcher?_update_const (n := n.withQueue q) hc]
        split
        next heq =>
          rcases eq_down_of_isDown (hp.resolve_left (not_not_intro heq)) with ⟨reason, hsig⟩
          rw [hsig, Process.reactAlive, Process.Reaction.become.injEq] at hr
          rw [heq, watcher?_eq hc] at hnone
          rw [← hr]
          exact hnone
        next => exact hnone
      · rw [watcher?_update_const (n := n.withQueue q) hc, if_pos rfl]
        rw [hend, Process.reactAlive, Process.Reaction.become.injEq] at hr
        rw [← hr]
        exact Dict.get?_erase_self _ _
    · -- An exit signal is not about a monitor.
      rw [hsig] at hd
      exact absurd hd (by simp [Signal.ref?])

/-- A signal about a monitor is handled. It is gone from the queue then, and if
    it is the request to end the monitor, so is the record. -/
theorem takes_step {d : Delivery} {q : Dispatcher} (hq : n.queue.next? = some (d, q))
    (hd : d.signal.ref? = some r)
    (hreacts : n.lives d.target = true ∨ d.signal.isDown r = true) :
    n.about r = d :: (n.step .handleInHand).about r ∧
      (∀ p, p ≠ d.target ∨ d.signal.isDown r = true → n.watcher? r p = none →
        (n.step .handleInHand).watcher? r p = none) ∧
      (d.signal = .demonitor r → (n.step .handleInHand).watcher? r d.target = none) := by
  have hs := Dispatcher.signals_of_next? hq
  have hstep : n.step .handleInHand = ((n.withQueue q).handle d).reclaim d.target := by
    rw [step, handleInHand, hq]
    rfl
  -- To let the target go touches no record but its own, and that only to remove it.
  have hlast := spares_reclaim ((n.withQueue q).handle d) r d.target
  rcases takes_handle (q := q) hd hreacts with ⟨habout, hothers, hgone⟩
  rw [hstep, hlast.about, about_of_next hs hd]
  refine ⟨by rw [habout], fun p hp hnone => ?_, fun hend => ?_⟩
  · exact hlast.watcher_none (hothers p hp hnone)
  · exact hlast.watcher_none (hgone hend)

/-! ## Until the monitor is ended -/

/-- What holds of a monitor until its watcher ends it, as long as the watched
    process does not end: the request to set it up is queued, or the notice that
    there is no such process, or nothing. -/
structure Standing (a b : Pid) (r : Ref) (n : Node) : Prop where
  owner : ∀ q w, n.watchee? r q = some w → q = a ∧ w = b
  stranger : ∀ q, q ≠ b → n.watcher? r q = none
  queued : n.about r = [] ∨ (n.about r = [⟨b, a, .monitor r⟩] ∧ n.lives b = true) ∨
    ∃ d, n.about r = [d] ∧ d.signal.isDown r = true

/-- A signal about a monitor that stands first in the queue stands first among
    the signals about it. -/
theorem about_of_next? {d : Delivery} {q : Dispatcher} (hq : n.queue.next? = some (d, q))
    (hd : d.signal.ref? = some r) : ∃ rest, n.about r = d :: rest :=
  ⟨_, about_of_next (Dispatcher.signals_of_next? hq) hd⟩

/-- While the watched process does not end, an operation ends the monitor, handles a signal
    about it, or spares it. -/
theorem spares_or_concerns (hn : n.Coherent) {op : NodeOp} (hmake : r ∉ n.makes op)
    (hraw : op.injects r = false) (hstranger : ∀ q, q ≠ b → n.watcher? r q = none)
    (hdeath : ∀ reason, (b, reason) ∉ n.deaths op) :
    (∃ w, op = .demonitor w r) ∨
      (∃ d q rest, op = .handleInHand ∧ n.queue.next? = some (d, q) ∧ d.signal.ref? = some r ∧
        n.about r = d :: rest) ∨
      Spares r n (n.step op) := by
  by_cases hask : ∃ w, op = .demonitor w r
  · exact Or.inl hask
  · -- The queue is first in, first out, so the signal in hand is the first about the monitor if it
    -- is about it at all.
    by_cases hnext : ∃ d q, op = .handleInHand ∧ n.queue.next? = some (d, q) ∧
        d.signal.ref? = some r
    · rcases hnext with ⟨d, q, hop, hq, hd⟩
      rcases about_of_next? hq hd with ⟨rest, habout⟩
      exact Or.inr (Or.inl ⟨d, q, rest, hop, hq, hd, habout⟩)
    · refine Or.inr (Or.inr (spares_step hn hmake hraw (fun w hw => hask ⟨w, hw⟩)
        (fun d q hop hq hd => hnext ⟨d, q, hop, hq, hd⟩) fun p reason hmem => ?_))
      exact hstranger p fun hp => hdeath reason (hp ▸ hmem)

/-- One operation. As long as the watcher does not end the monitor, the operation leaves it alone,
    or handles the one signal there is about it. -/
theorem standing_step (hn : n.Coherent) (h : Standing a b r n) {op : NodeOp}
    (hmake : r ∉ n.makes op) (hraw : op.injects r = false)
    (hdeath : ∀ reason, (b, reason) ∉ n.deaths op)
    (hend : ∀ w, op = .demonitor w r → n.watchee? r w = none) : Standing a b r (n.step op) := by
  have howner : ∀ q w, (n.step op).watchee? r q = some w → q = a ∧ w = b := fun q w hw =>
    h.owner q w (watchee_step hn hmake hraw hw)
  rcases spares_or_concerns hn hmake hraw h.stranger hdeath with
    ⟨w, rfl⟩ | ⟨d, q, rest, rfl, hq, hd, habout⟩ | hspares
  · rw [step, demonitor_of_watchee?_none (hend w rfl)]
    exact h
  · -- What stands first among the signals about the monitor is all there is.
    have halone : n.about r = [d] ∧ ((d.target = b ∧ n.lives d.target = true) ∨
        d.signal.isDown r = true) := by
      rcases h.queued with hnil | ⟨hone, hlive⟩ | ⟨d', hone, hdown⟩
      · exact absurd (hnil.symm.trans habout) (by simp)
      · rw [hone, List.cons_eq_cons] at habout
        rw [hone, ← habout.1]
        exact ⟨rfl, Or.inl ⟨rfl, hlive⟩⟩
      · rw [hone, List.cons_eq_cons] at habout
        rw [hone, ← habout.1]
        exact ⟨rfl, Or.inr hdown⟩
    rcases takes_step hq hd (halone.2.imp_left And.right) with ⟨htail, hothers, -⟩
    rw [halone.1, List.cons_eq_cons] at htail
    refine ⟨howner, fun p hp => hothers p ?_ (h.stranger p hp), Or.inl htail.2.symm⟩
    rcases halone.2 with ⟨htarget, -⟩ | hdown
    · exact Or.inl (htarget.symm ▸ hp)
    · exact Or.inr hdown
  · refine ⟨howner, fun q hq => hspares.watcher_none (h.stranger q hq), ?_⟩
    rw [hspares.about]
    rcases h.queued with hnil | ⟨hone, hlive⟩ | hdown
    · exact Or.inl hnil
    · have hmem : (⟨b, a, .monitor r⟩ : Delivery) ∈ (n.step op).about r := by
        rw [hspares.about, hone]
        exact List.mem_singleton.mpr rfl
      have hstill := lives_of_queued hn hlive hdeath (mem_about.mp hmem).1 rfl
      exact Or.inr (Or.inl ⟨hone, hstill⟩)
    · exact Or.inr (Or.inr hdown)

/-- As long as its watcher knows of a monitor it did not end it. -/
theorem standing_run (hn : n.Coherent) (h : Standing a b r n) {ops : List NodeOp}
    (hmake : r ∉ n.collect makes ops) (hraw : ∀ op ∈ ops, op.injects r = false)
    (hdeath : ∀ reason, (b, reason) ∉ n.collect deaths ops)
    (hheld : (n.run ops).watchee? r a = some b) : Standing a b r (n.run ops) := by
  induction ops generalizing n with
  | nil => exact h
  | cons op rest ih =>
      have hcoh := coherent_step hn op
      rw [collect, List.mem_append, not_or] at hmake
      have hrest : ∀ op' ∈ rest, op'.injects r = false := fun op' hop' =>
        hraw op' (List.mem_cons_of_mem op hop')
      have hnow : ∀ reason, (b, reason) ∉ n.deaths op := fun reason hmem =>
        hdeath reason (List.mem_append_left _ hmem)
      have hlater : ∀ reason, (b, reason) ∉ (n.step op).collect deaths rest := fun reason hmem =>
        hdeath reason (List.mem_append_right _ hmem)
      -- That the watcher did not end it at this step follows from the end: having forgotten the
      -- monitor it would not know of it.
      refine ih hcoh (standing_step hn h hmake.1 (hraw op List.mem_cons_self) hnow ?_) hmake.2 hrest
        hlater hheld
      rintro w rfl
      rcases hw : n.watchee? r w with _ | x
      · rfl
      · have hthen := watchee_run hcoh hmake.2 hrest hheld
        rw [step, ← (h.owner w x hw).1, watchee?_demonitor hn] at hthen
        exact absurd hthen (by simp)

/-! ## The monitor is made -/

/-- Of a signal about a monitor that is sent to a process, the queue gets the
    signal if the process is alive, and nothing about the monitor if not. -/
theorem Coherent.filter_deliveries (h : n.Coherent) (sender p : Pid) {s : Signal}
    (hs : s.ref? = some r) :
    ((n.deliveries sender s (.pid p)).filter fun d => d.signal.ref? = some r) =
      if n.lives p = true then [⟨p, sender, s⟩] else [] := by
  split
  next hlive =>
    rw [h.deliveries_of_lives hlive, List.filter_cons_of_pos (by simpa using hs), List.filter_nil]
  next hdead =>
    refine List.filter_eq_nil_iff.mpr fun d hd => ?_
    rcases mem_deliveries_pid hd with rfl | ⟨router, rfl⟩
    · exact absurd (h.lives_of_delivery hd) hdead
    · simp [Signal.ref?]

theorem watchee?_of_track {w x y q : Pid} (h : (n.track w r x).watchee? r q = some y) :
    (q = w ∧ y = x) ∨ n.watchee? r q = some y := by
  rcases track_cases n w r x with ht | ht <;> rw [ht] at h
  · exact Or.inr h
  · rw [watchee?, process?_update] at h
    split at h
    next heq =>
      subst heq
      rcases hc : n.process? q with _ | c
      · rw [hc] at h
        exact absurd h (by simp)
      · rw [hc, Option.map_some, Option.bind_some, Process.trackMonitor] at h
        split at h
        next =>
          rw [Dict.get?_insert, if_pos rfl, Option.some.injEq] at h
          exact Or.inl ⟨rfl, h.symm⟩
        next =>
          rw [watchee?_eq hc]
          exact Or.inr h
    next => exact Or.inr h

theorem lives_track (n : Node) (w : Pid) (ref : Ref) (watchee q : Pid) :
    (n.track w ref watchee).lives q = n.lives q := by
  rcases track_cases n w ref watchee with ht | ht <;> rw [ht]
  refine lives_update (fun c _ => ?_) q
  rw [Process.trackMonitor]
  split <;> rfl

/-- A monitor that was just asked for stands: the request is queued, or the notice that there is
    nobody to watch. -/
theorem standing_monitor (h : n.Coherent) (habsent : Absent r n) (hr : (n.monitor a b).1 = r) :
    Standing a b r (n.monitor a b).2 := by
  rw [monitor_eq] at hr ⊢
  rw [show n.nextRef = r from hr]
  refine ⟨fun q w hw => ?_, fun q _ => ?_, ?_⟩
  · refine (watchee?_of_track hw).resolve_right fun hold => ?_
    have hnone : n.countRef.watchee? r q = none := habsent.watchee q
    exact absurd (hnone.symm.trans hold) (by simp)
  · exact (watcher?_track n.countRef a r b q).trans (habsent.watcher q)
  · -- Nothing was queued about the monitor before.
    rw [about_queueAll, about_track, show n.countRef.about r = [] from habsent.about,
      List.nil_append, monitorDeliveries]
    split
    next e _ =>
      rw [h.filter_deliveries b a rfl]
      split
      next => exact Or.inr (Or.inr ⟨_, rfl, by simp [Signal.isDown]⟩)
      next => exact Or.inl rfl
    next =>
      rw [h.filter_deliveries a b rfl]
      split
      next hlive =>
        exact Or.inr (Or.inl ⟨rfl, (lives_track n.countRef a r b b).trans hlive⟩)
      next => exact Or.inl rfl

/-- A process that is made under a watch has its watcher on record from the start, with nothing
    queued. -/
theorem standing_spawnMonitor (h : n.Coherent) (habsent : Absent r n)
    (hr : (n.spawnMonitor a).1 = .ok (b, r)) : Standing a b r (n.spawnMonitor a).2 := by
  rcases spawnMonitor_cases n a with he | ⟨p, n₁, hm, he⟩
  · rw [he] at hr
    exact absurd hr (by simp)
  · rw [he] at hr ⊢
    rw [Except.ok.injEq, Prod.mk.injEq] at hr
    rcases hr with ⟨rfl, hr⟩
    rw [hr]
    rcases move_makeProcess (K := fun _ => False) hm with ⟨hmove, hp⟩
    -- The birth knows nothing of the reference, which is made after it.
    have hempty := (rests_move (r := r) hmove h id).absent habsent
    have hwatchee : ∀ q, (n₁.countRef.update p fun c =>
        { c with monitoredBy := c.monitoredBy.insert r a }).watchee? r q = none := by
      intro q
      rw [watchee?, process?_update]
      split
      next heq =>
        have hfresh : n₁.countRef.process? p = some .fresh := hp
        rw [heq, hfresh]
        rfl
      next => exact hempty.watchee q
    refine ⟨fun q w hw => ?_, fun q hq => ?_, Or.inl ?_⟩
    · refine (watchee?_of_track hw).resolve_right fun hold => ?_
      exact absurd ((hwatchee q).symm.trans hold) (by simp)
    · rw [watcher?_track, watcher?, process?_update, if_neg hq]
      exact hempty.watcher q
    · rw [about_track]
      exact hempty.about

/-! ## After the monitor was ended -/

/-- What holds of a monitor that its watcher ended, as long as the watched
    process does not end: the request to end it is queued, behind the one to set
    it up if that is queued, or there is no trace of the monitor. -/
structure Leaving (a b : Pid) (r : Ref) (n : Node) : Prop where
  forgotten : ∀ q, n.watchee? r q = none
  stranger : ∀ q, q ≠ b → n.watcher? r q = none
  queued : (n.about r = [] ∧ n.watcher? r b = none) ∨ (n.lives b = true ∧
    (n.about r = [⟨b, a, .demonitor r⟩] ∨
      n.about r = [⟨b, a, .monitor r⟩, ⟨b, a, .demonitor r⟩]))

/-- When the watcher ends a monitor, the request to end it is queued behind whatever is queued about
    it, or the watched process is dead and there is nothing left to end. -/
theorem leaving_demonitor (hn : n.Coherent) (h : Standing a b r n) (hheld : n.watchee? r a = some b)
    (hquiet : ∀ d ∈ n.queue.signals, d.signal.isDown r = false) :
    Leaving a b r (n.demonitor a r) := by
  have herase := rests_forgetMonitor r n a
  have hlives : (n.demonitor a r).lives b = n.lives b := by
    rw [demonitor_of_watchee? hn hheld]
    exact lives_update (f := fun c => { c with monitors := c.monitors.erase r }) (fun _ _ => rfl) b
  have hforgets := watchee?_demonitor (r := r) hn a
  rw [demonitor_of_watchee? hn hheld] at hlives hforgets ⊢
  refine ⟨fun q => ?_, fun q hq => (herase.watcher q).trans (h.stranger q hq), ?_⟩
  · rcases hw : ((n.update a fun c => { c with monitors := c.monitors.erase r }).queueAll
        (n.deliveries a (.demonitor r) (.pid b))).watchee? r q with _ | w
    · rfl
    · have hq := (h.owner q w (herase.watchee q w hw)).1
      rw [hq, hforgets] at hw
      exact absurd hw (by simp)
  · rw [about_queueAll, herase.about, hn.filter_deliveries a b rfl, hlives]
    -- The third case is excluded, as no notice is queued.
    rcases h.queued with hnil | ⟨hone, hlive⟩ | ⟨d, hone, hdown⟩
    · rw [hnil, List.nil_append]
      by_cases hlive : n.lives b = true
      · rw [if_pos hlive]
        exact Or.inr ⟨hlive, Or.inl rfl⟩
      · rw [if_neg hlive]
        refine Or.inl ⟨rfl, (herase.watcher b).trans ?_⟩
        rcases hw : n.watcher? r b with _ | w
        · rfl
        · exact absurd (hn.lives_of_watcher? hw) hlive
    · rw [hone, if_pos hlive]
      exact Or.inr ⟨hlive, Or.inr rfl⟩
    · have hmem : d ∈ n.about r := by
        rw [hone]
        exact List.mem_singleton.mpr rfl
      rw [hquiet d (mem_about.mp hmem).1] at hdown
      exact absurd hdown (by simp)

/-- One operation of a monitor that was ended. What is queued about it is handled one by one, or
    stays. -/
theorem leaving_step (hn : n.Coherent) (h : Leaving a b r n) {op : NodeOp}
    (hmake : r ∉ n.makes op) (hraw : op.injects r = false)
    (hdeath : ∀ reason, (b, reason) ∉ n.deaths op) : Leaving a b r (n.step op) := by
  have hforgotten : ∀ q, (n.step op).watchee? r q = none := by
    intro q
    rcases hw : (n.step op).watchee? r q with _ | w
    · rfl
    · have hold := watchee_step hn hmake hraw hw
      exact absurd ((h.forgotten q).symm.trans hold) (by simp)
  have hlives : (⟨b, a, .demonitor r⟩ : Delivery) ∈ (n.step op).about r → n.lives b = true →
      (n.step op).lives b = true := fun hmem hlive =>
    lives_of_queued hn hlive hdeath (mem_about.mp hmem).1 rfl
  rcases spares_or_concerns hn hmake hraw h.stranger hdeath with
    ⟨w, rfl⟩ | ⟨d, q, rest, rfl, hq, hd, habout⟩ | hspares
  · rw [step, demonitor_of_watchee?_none (h.forgotten w)]
    exact h
  · rcases h.queued with ⟨hnil, -⟩ | ⟨hlive, hone | htwo⟩
    · exact absurd (hnil.symm.trans habout) (by simp)
    · -- The watched process hears of the end, and nothing is left.
      rw [hone, List.cons_eq_cons] at habout
      have hreacts : n.lives d.target = true := by rw [← habout.1]; exact hlive
      rcases takes_step hq hd (Or.inl hreacts) with ⟨htail, hothers, hgone⟩
      rw [hone, List.cons_eq_cons] at htail
      rw [← habout.1] at hothers hgone
      refine ⟨hforgotten, fun p hp => hothers p (Or.inl hp) (h.stranger p hp), Or.inl ?_⟩
      exact ⟨htail.2.symm, hgone rfl⟩
    · -- It puts the watcher on record, but the end is already on its way.
      rw [htwo, List.cons_eq_cons] at habout
      have hreacts : n.lives d.target = true := by rw [← habout.1]; exact hlive
      rcases takes_step hq hd (Or.inl hreacts) with ⟨htail, hothers, -⟩
      rw [htwo, List.cons_eq_cons] at htail
      rw [← habout.1] at hothers
      refine ⟨hforgotten, fun p hp => hothers p (Or.inl hp) (h.stranger p hp), Or.inr ?_⟩
      refine ⟨hlives ?_ hlive, Or.inl htail.2.symm⟩
      rw [← htail.2]
      exact List.mem_singleton.mpr rfl
  · refine ⟨hforgotten, fun q hq => hspares.watcher_none (h.stranger q hq), ?_⟩
    rw [hspares.about] at hlives ⊢
    rcases h.queued with ⟨hnil, hnone⟩ | ⟨hlive, hone | htwo⟩
    · exact Or.inl ⟨hnil, hspares.watcher_none hnone⟩
    · exact Or.inr ⟨hlives (by rw [hone]; simp) hlive, Or.inl hone⟩
    · exact Or.inr ⟨hlives (by rw [htwo]; simp) hlive, Or.inr htwo⟩

/-- A monitor that was ended is not heard of. -/
theorem Leaving.silent (h : Leaving a b r n) (op : NodeOp) :
    ((n.attends op).filter fun d => d.signal.isDown r) = [] := by
  refine List.filter_eq_nil_iff.mpr fun d hd hdown => ?_
  rcases eq_down_of_isDown hdown with ⟨reason, hsig⟩
  have hmem : d ∈ n.about r :=
    mem_about.mpr ⟨(mem_signals_of_attends hd).1, by rw [hsig]; rfl⟩
  have hnot : d.signal = .monitor r ∨ d.signal = .demonitor r := by
    rcases h.queued with ⟨hnil, -⟩ | ⟨-, hone | htwo⟩
    · rw [hnil] at hmem
      exact absurd hmem List.not_mem_nil
    · rw [hone, List.mem_singleton] at hmem
      exact Or.inr (by rw [hmem])
    · rw [htwo, List.mem_cons, List.mem_singleton] at hmem
      exact hmem.imp (fun heq => by rw [heq]) fun heq => by rw [heq]
  rcases hnot with heq | heq <;> rw [hsig] at heq <;> exact absurd heq (by simp)

/-- Over a run, and nobody hears a notice on the way. -/
theorem leaving_run (hn : n.Coherent) (h : Leaving a b r n) {ops : List NodeOp}
    (hmake : r ∉ n.collect makes ops) (hraw : ∀ op ∈ ops, op.injects r = false)
    (hdeath : ∀ reason, (b, reason) ∉ n.collect deaths ops) :
    Leaving a b r (n.run ops) ∧ n.notices r ops = [] := by
  induction ops generalizing n with
  | nil => exact ⟨h, rfl⟩
  | cons op rest ih =>
      rw [collect, List.mem_append, not_or] at hmake
      have hnow : ∀ reason, (b, reason) ∉ n.deaths op := fun reason hmem =>
        hdeath reason (List.mem_append_left _ hmem)
      have hlater : ∀ reason, (b, reason) ∉ (n.step op).collect deaths rest := fun reason hmem =>
        hdeath reason (List.mem_append_right _ hmem)
      -- The state after the first operation is one more that is being left.
      have hstep := leaving_step hn h hmake.1 (hraw op List.mem_cons_self) hnow
      rcases ih (coherent_step hn op) hstep hmake.2
        (fun op' hop' => hraw op' (List.mem_cons_of_mem op hop')) hlater with ⟨hend, hquiet⟩
      refine ⟨hend, ?_⟩
      rw [notices, collect, List.filter_append, h.silent op, List.nil_append]
      exact hquiet

theorem notices_append (n : Node) (r : Ref) (ops ops' : List NodeOp) :
    n.notices r (ops ++ ops') = n.notices r ops ++ (n.run ops).notices r ops' := by
  rw [notices, collect_append, List.filter_append, notices, notices]

/-- Without a trace of a monitor nobody hears of it any more. -/
theorem Absent.silent (hn : n.Coherent) (h : Absent r n) {ops : List NodeOp}
    (hmake : r ∉ n.collect makes ops) (hraw : ∀ op ∈ ops, op.injects r = false) :
    n.notices r ops = [] := by
  refine List.filter_eq_nil_iff.mpr fun d hd hdown => ?_
  rcases eq_down_of_isDown hdown with ⟨reason, hsig⟩
  exact ref?_ne_of_attends hn h hmake hraw d hd (by rw [hsig]; rfl)

/-- When the request to end the monitor is out of the queue, nobody hears of it
    any more. -/
theorem silent_of_leaving (hn : n.Coherent) (h : Leaving a b r n) {between after : List NodeOp}
    (hmake : r ∉ n.collect makes (between ++ after))
    (hraw : ∀ op ∈ between ++ after, op.injects r = false)
    (hdeath : ∀ reason, (b, reason) ∉ n.collect deaths between)
    (hheard : ∀ d ∈ (n.run between).queue.signals, d.signal ≠ .demonitor r) :
    n.notices r (between ++ after) = [] := by
  rw [collect_append, List.mem_append, not_or] at hmake
  have hraw₁ : ∀ op ∈ between, op.injects r = false := fun op hop =>
    hraw op (List.mem_append_left _ hop)
  have hraw₂ : ∀ op ∈ after, op.injects r = false := fun op hop =>
    hraw op (List.mem_append_right _ hop)
  rcases leaving_run hn h hmake.1 hraw₁ hdeath with ⟨hlast, hquiet⟩
  -- Once the request is out of the queue, only the case without any trace is left.
  have hout : (⟨b, a, .demonitor r⟩ : Delivery) ∉ (n.run between).about r := fun hmem =>
    hheard _ (mem_about.mp hmem).1 rfl
  have habsent : Absent r (n.run between) := by
    rcases hlast.queued with ⟨hnil, hnone⟩ | ⟨-, hone | htwo⟩
    · refine ⟨hnil, fun q => ?_, hlast.forgotten⟩
      by_cases hq : q = b
      · rw [hq, hnone]
      · exact hlast.stranger q hq
    · exact absurd (by rw [hone]; simp) hout
    · exact absurd (by rw [htwo]; simp) hout
  rw [notices_append, hquiet, List.nil_append]
  exact habsent.silent (coherent_run hn between) hmake.2 hraw₂

/-- Who knows of a monitor at the moment when its reference is made asked for it. -/
theorem standing_makes (hn : n.Coherent) (habsent : Absent r n) {op : NodeOp}
    (hmade : r ∈ n.makes op) (hheld : (n.step op).watchee? r a = some b) :
    Standing a b r (n.step op) := by
  -- There are three operations that make a reference, and one of them does so without a monitor.
  cases op with
  | makeRef => exact absurd ((habsent.watchee a).symm.trans hheld) (by simp)
  | monitor w x =>
      have hstanding := standing_monitor hn habsent (List.mem_singleton.mp hmade).symm
      rcases hstanding.owner a b hheld with ⟨rfl, rfl⟩
      exact hstanding
  | spawnMonitor w =>
      rcases hr : (n.spawnMonitor w).1 with e | ⟨x, ref⟩
      · simp [makes, hr, Except.toOption] at hmade
      · have href : r = ref := by simpa [makes, hr, Except.toOption] using hmade
        subst href
        have hstanding := standing_spawnMonitor hn habsent hr
        rcases hstanding.owner a b hheld with ⟨rfl, rfl⟩
        exact hstanding
  | _ => exact absurd hmade List.not_mem_nil

/-- Where a reference is made in a run there is no trace of its monitor yet, and afterwards
    it is not made again. -/
theorem made_at {config : NodeConfig} {before after : List NodeOp} {op : NodeOp}
    (hraw : ∀ op' ∈ before ++ op :: after, op'.injects r = false)
    (hnodup : ((new config).collect makes (before ++ op :: after)).Nodup)
    (hop : r ∈ ((new config).run before).makes op) :
    Absent r ((new config).run before) ∧
      r ∉ (((new config).run before).step op).collect makes after ∧
      ∀ op' ∈ after, op'.injects r = false := by
  -- No reference is made twice, so this is the moment.
  rcases made_once hnodup hop with ⟨hfresh, hnever⟩
  refine ⟨?_, hnever, fun op' hop' => ?_⟩
  · exact absent_states (coherent_new config) (absent_new r config) hfresh
      (fun op' hop' => hraw op' (List.mem_append_left _ hop')) _ (mem_states_run _ before)
  · exact hraw op' (List.mem_append_right _ (List.mem_cons_of_mem op hop'))

/-- The reference of a monitor that is held was made. -/
theorem mem_makes_of_watchee? {config : NodeConfig} {ops : List NodeOp}
    (hraw : ∀ op ∈ ops, op.injects r = false)
    (hheld : ((new config).run ops).watchee? r a = some b) :
    r ∈ (new config).collect makes ops := by
  refine Decidable.of_not_not fun hnot => ?_
  have hold := watchee_run (coherent_new config) hnot hraw hheld
  exact absurd (((absent_new r config).watchee a).symm.trans hold) (by simp)

/-- A monitor that is held stands, if its watched process did not end. -/
theorem standing_of_watchee? {config : NodeConfig} {ops : List NodeOp}
    (hraw : ∀ op ∈ ops, op.injects r = false) (hnodup : ((new config).collect makes ops).Nodup)
    (hheld : ((new config).run ops).watchee? r a = some b)
    (hdeath : ∀ reason, (b, reason) ∉ (new config).collect deaths ops) :
    Standing a b r ((new config).run ops) := by
  have hn := coherent_new config
  -- Go back to the operation that made the reference. From there on the monitor stands.
  rcases mem_collect (mem_makes_of_watchee? hraw hheld) with ⟨before, op, after, rfl, hop⟩
  have hcoh := coherent_run hn before
  rcases made_at hraw hnodup hop with ⟨habsent, hnever, hafter⟩
  rw [run_append, run_cons] at hheld ⊢
  have hnext := coherent_step hcoh op
  have hfirst := watchee_run hnext hnever hafter hheld
  refine standing_run hnext (standing_makes hcoh habsent hop hfirst) hnever hafter ?_ hheld
  intro reason hmem
  refine hdeath reason ?_
  rw [collect_append]
  exact List.mem_append_right _ (List.mem_append_right _ hmem)

/-- A watcher ends a monitor that it holds, while no notice is queued. If the watched
    process does not end before the request is out of the queue, then from the request
    on no notice is heard, whatever else happens before and after. Nobody may send
    signals about the monitor directly, and the counter of references must not come
    around. -/
theorem silent_after_demonitor {config : NodeConfig} {before between after : List NodeOp}
    (hraw : ∀ op ∈ before ++ .demonitor a r :: (between ++ after), op.injects r = false)
    (hcount : ((new config).collect makes
      (before ++ .demonitor a r :: (between ++ after))).length ≤ UInt64.size)
    (hheld : ((new config).run before).watchee? r a = some b)
    (hquiet : ∀ d ∈ ((new config).run before).queue.signals, d.signal.isDown r = false)
    (hlasts : ∀ reason, (b, reason) ∉
      (new config).collect deaths (before ++ .demonitor a r :: between))
    (hheard : ∀ d ∈ ((new config).run (before ++ .demonitor a r :: between)).queue.signals,
      d.signal ≠ .demonitor r) :
    ((new config).run (before ++ [.demonitor a r])).notices r (between ++ after) = [] := by
  have hn := coherent_new config
  have hcoh := coherent_run hn before
  have hearlier : ∀ op ∈ before, op.injects r = false := fun op hop =>
    hraw op (List.mem_append_left _ hop)
  have hnodup := nodup_makes hn hcount
  rw [collect_append, List.nodup_append] at hnodup
  have hstanding := standing_of_watchee? hearlier hnodup.1 hheld fun reason hmem => by
    refine hlasts reason ?_
    rw [collect_append]
    exact List.mem_append_left _ hmem
  -- The reference was made before, and is not made again.
  have hmade := mem_makes_of_watchee? hearlier hheld
  have hnever : r ∉ (((new config).run before).demonitor a r).collect makes (between ++ after) :=
    fun hmem => hnodup.2.2 r hmade r (List.mem_append_right _ hmem) rfl
  rw [run_append] at hheard ⊢
  refine silent_of_leaving (coherent_step hcoh (.demonitor a r))
    (leaving_demonitor hcoh hstanding hheld hquiet) hnever (fun op hop => ?_)
    (fun reason hmem => ?_) hheard
  · exact hraw op (List.mem_append_right _ (List.mem_cons_of_mem _ hop))
  · refine hlasts reason ?_
    rw [collect_append]
    exact List.mem_append_right _ hmem

/-- A process watches another, which hears of it, and then ends the monitor. The
    other ends after it has heard of that, too. -/
theorem silent_after_pair :
    let before : List NodeOp := [.spawn, .spawn, .monitor (.ofSlot 1 0 0) (.ofSlot 2 0 0),
      .beginTurn, .handleInHand]
    let between : List NodeOp := [.beginTurn, .handleInHand]
    let after : List NodeOp := [.die (.ofSlot 2 0 0) Reason.shutdown, .beginTurn, .handleInHand]
    ((new .standard).run before).watchee? (.ofCounter 0 0) (.ofSlot 1 0 0) =
        some (.ofSlot 2 0 0) ∧
      (∀ d ∈ ((new .standard).run (before ++ .demonitor (.ofSlot 1 0 0) (.ofCounter 0 0) ::
        between)).queue.signals, d.signal ≠ .demonitor (.ofCounter 0 0)) ∧
      ((new .standard).run (before ++ [.demonitor (.ofSlot 1 0 0) (.ofCounter 0 0)])).notices
        (.ofCounter 0 0) (between ++ after) = [] :=
  ⟨by decide, by decide, silent_after_demonitor (b := .ofSlot 2 0 0) (by decide) (by decide)
    (by decide) (by decide) (fun _ => List.not_mem_nil) (by decide)⟩

/-- The watched process ends before the request to watch it arrives. The watcher
    holds the monitor, no notice is queued, and it ends the monitor; but the
    notice comes all the same, and stays in its mailbox. -/
theorem belated_notice :
    let n := (new .standard).run [.spawn, .spawn, .monitor (.ofSlot 1 0 0) (.ofSlot 2 0 0),
      .die (.ofSlot 2 0 0) Reason.shutdown]
    let m := n.step (.demonitor (.ofSlot 1 0 0) (.ofCounter 0 0))
    let later : List NodeOp := [.beginTurn, .handleInHand, .beginTurn, .handleInHand]
    n.watchee? (.ofCounter 0 0) (.ofSlot 1 0 0) = some (.ofSlot 2 0 0) ∧
      (∀ d ∈ n.queue.signals, d.signal.isDown (.ofCounter 0 0) = false) ∧
      m.notices (.ofCounter 0 0) later =
        [⟨.ofSlot 1 0 0, .ofSlot 2 0 0, .down (.ofCounter 0 0) Reason.noproc⟩] ∧
      ((m.run later).process? (.ofSlot 1 0 0)).map (fun c => c.mailbox.messages) =
        some [Process.downMessage (.ofCounter 0 0) (.ofSlot 2 0 0) Reason.noproc] := by
  decide

end Node

end Actors
