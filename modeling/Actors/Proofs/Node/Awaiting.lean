import Actors.Node.Summary
import Actors.Proofs.Node.Silence

/-!
# What a Watcher Waits For

A watcher that knows of a monitor waits for something that will come. It asked
for the monitor and the request is on its way; or the watched process has the
watcher on record and will tell it of its end; or the notice is queued. When no
signal waits only the second is left, and so the watched process is alive.

One thing breaks this. A process whose last handle goes disappears without
having ended, and takes its record of watchers with it. Nobody is told then,
and a watcher that was on record waits for ever, as `unnoticed_loss` shows. In
all runs in which this does not happen to the watched process, nobody is left
waiting.

What is known of the stages does not depend on whether the watched process was
ever given out. That it may have ended is a parameter of the invariant: as long
as it cannot have, there is no notice.

## Main definitions

* `Node.losses`: The living processes that an operation takes away.
* `Node.Awaits`: What a watcher that knows of a monitor waits for.

## Theorems

* `Awaits.fall`, `Awaits.reclaim`, `Awaits.handle`: The single things that can
  happen to a monitor that its watcher knows of.
* `awaits_step`, `awaits_run`: A watcher that still knows of a monitor still waits.
* `awaits_of_watchee?`: What a watcher waits for at any moment of a run.
* `alive_of_watched`: When no signal waits, nobody watches a process that is gone.
-/

namespace Actors

namespace Process

/-- The monitors that can be seen are those that are there. -/
theorem mem_sortedMonitors {d : Dict Ref Pid} {r : Ref} {p : Pid} :
    (r, p) ∈ sortedMonitors d ↔ d.get? r = some p :=
  (List.mergeSort_perm d.entries _).mem_iff.trans Dict.mem_entries_iff

end Process

namespace Node

/-- The living processes that an operation takes away: they do not end, but are
    not there any more. -/
def losses (n : Node) (op : NodeOp) : List Pid :=
  n.processes.keys.filter fun p =>
    n.lives p && ((n.step op).process? p).isNone && !((n.deaths op).map Prod.fst).contains p

/-- How far a monitor has come that its watcher knows of. -/
inductive AwaitStage (mortal : Prop) (a b : Pid) (r : Ref) (n : Node) : Prop
  /-- It was asked for. -/
  | asked (hq : n.about r = [⟨b, a, .monitor r⟩]) (hw : ∀ q, n.watcher? r q = none)
  /-- The watched process has the watcher on record. -/
  | recorded (hq : n.about r = []) (hw : ∀ q, n.watcher? r q = if q = b then some a else none)
  /-- The notice is queued. -/
  | told (hm : mortal) (reason : Term) (hq : n.about r = [⟨a, b, .down r reason⟩])
      (hw : ∀ q, n.watcher? r q = none)

/-- What a watcher that knows of a monitor waits for. A notice only comes if the
    watched process may have ended. -/
structure Awaits (mortal : Prop) (a b : Pid) (r : Ref) (n : Node) : Prop where
  /-- Nobody else knows of the monitor. -/
  owner : ∀ q w, n.watchee? r q = some w → q = a ∧ w = b
  stage : AwaitStage mortal a b r n

variable {mortal : Prop} {a b p : Pid} {r : Ref} {n n' : Node}

/-- Who was alive, is gone and was not ended was taken away. -/
theorem mem_losses {op : NodeOp} (hl : n.lives p = true) (hgone : (n.step op).process? p = none)
    (hdeath : ∀ reason, (p, reason) ∉ n.deaths op) : p ∈ n.losses op := by
  have hnot : ((n.deaths op).map Prod.fst).contains p = false := by
    rw [List.contains_eq_mem, decide_eq_false_iff_not, List.mem_map]
    rintro ⟨⟨q, reason⟩, hmem, rfl⟩
    exact hdeath reason hmem
  rw [losses, List.mem_filter, hl, hgone, hnot]
  exact ⟨Dict.mem_keys_iff.mpr (isSome_of_lives hl), rfl⟩

/-- Who is alive afterwards was not taken away. -/
theorem not_mem_losses {op : NodeOp} (hl : (n.step op).lives p = true) : p ∉ n.losses op := by
  intro hmem
  rw [losses, List.mem_filter, Bool.and_eq_true, Bool.and_eq_true] at hmem
  rw [lives, Option.isNone_iff_eq_none.mp hmem.2.1.2] at hl
  exact absurd hl (by simp)

/-- Who knows of a monitor is alive. -/
theorem Coherent.lives_of_watchee? (h : n.Coherent) {q w : Pid} (hw : n.watchee? r q = some w) :
    n.lives q = true := by
  rcases hc : n.process? q with _ | c
  · rw [watchee?, hc] at hw
    exact absurd hw (by simp)
  · by_cases ha : c.isAlive = true
    · exact lives_of hc ha
    · -- Who ended watches nobody.
      rcases Process.life_of_not_alive (Bool.not_eq_true _ ▸ ha) with ⟨reason, hd⟩
      rw [watchee?_eq hc, ((h.sound q c hc).ended reason hd).monitors] at hw
      exact absurd hw (by simp)

/-! ## Single moves -/

/-- Where a monitor rests, its watcher goes on waiting as before. -/
theorem Awaits.rests (h : Awaits mortal a b r n) (hr : Rests r n n') : Awaits mortal a b r n' := by
  refine ⟨fun q w hw => h.owner q w (hr.watchee q w hw), ?_⟩
  cases h.stage with
  | asked hq hw => exact .asked (hr.about.trans hq) fun q => (hr.watcher q).trans (hw q)
  | recorded hq hw => exact .recorded (hr.about.trans hq) fun q => (hr.watcher q).trans (hw q)
  | told hm reason hq hw =>
      exact .told hm reason (hr.about.trans hq) fun q => (hr.watcher q).trans (hw q)

/-- Nobody has a watcher on record, except perhaps the watched process. -/
theorem Awaits.watcher?_cases (h : Awaits mortal a b r n) (q : Pid) :
    n.watcher? r q = none ∨ q = b ∧ n.watcher? r b = some a ∧ n.about r = [] := by
  -- Only in the second of the three stages somebody has it on record.
  cases h.stage with
  | asked _ hw => exact Or.inl (hw q)
  | recorded hq hw =>
      by_cases heq : q = b
      · exact Or.inr ⟨heq, by rw [hw, if_pos rfl], hq⟩
      · exact Or.inl (by rw [hw, if_neg heq])
  | told _ _ _ hw => exact Or.inl (hw q)

/-- The notice is the only signal about the monitor, and nobody has anything on record. -/
theorem Awaits.tell (h : Awaits mortal a b r n) (hm : mortal) (reason : Term)
    (hq : n'.about r = [⟨a, b, .down r reason⟩]) (hw : ∀ q, n'.watcher? r q = none)
    (hwatchee : ∀ q w, n'.watchee? r q = some w → n.watchee? r q = some w) :
    Awaits mortal a b r n' :=
  ⟨fun q w hq => h.owner q w (hwatchee q w hq), .told hm reason hq hw⟩

/-- A process ends. If it has the watcher on record, the watcher is told. -/
theorem Awaits.fall (hn : n.Coherent) (h : Awaits mortal a b r n) {c₀ c : Process} {reason : Term}
    (hp : n.process? p = some c₀) (hc : c.monitoredBy = c₀.monitoredBy)
    (hm : p = b → mortal ∧ n.lives a = true) : Awaits mortal a b r (n.fall p c reason) := by
  -- A process that is not watched under the reference dies without a notice. The one that is sends
  -- exactly one.
  rcases h.watcher?_cases p with hnone | ⟨rfl, hw, hnil⟩
  · refine h.rests (rests_fall ?_ hnone reason)
    rw [hc, ← watcher?_eq hp, hnone]
  · have hentry : c.monitoredBy.get? r = some a := by rw [hc, ← watcher?_eq hp, hw]
    have hothers : ∀ q, q ≠ p → n.watcher? r q = none :=
      fun q hne => (h.watcher?_cases q).resolve_right fun heq => hne heq.1
    refine h.tell (hm rfl).1 reason ?_ (watcher?_fall_eq_none hothers c reason)
      fun q w hq => watchee?_of_fall hq
    rw [about_fall, hnil, hentry, List.nil_append]
    exact (hn.filter_deliveries p a rfl).trans (if_pos (hm rfl).2)

/-- A process is let go that is not a watched process on its way. -/
theorem Awaits.reclaim (hn : n.Coherent) (h : Awaits mortal a b r n)
    (hkept : n.lives b = true → (n.reclaim p).process? b ≠ none) :
    Awaits mortal a b r (n.reclaim p) := by
  rcases h.watcher?_cases p with hnone | ⟨rfl, hw, -⟩
  · exact h.rests (rests_reclaim hnone)
  · -- The watched process is alive, as it has a watcher on record. So it is not forgotten.
    have hstays := hkept (hn.lives_of_watcher? hw)
    rcases reclaim_cases n p with ⟨hr, -⟩ | ⟨c, -, -, -, ⟨-, hr⟩ | ⟨-, hr⟩⟩
    · rwa [hr]
    · refine absurd ?_ hstays
      rw [hr]
      change (n.forget p).process? p = none
      rw [process?_forget, if_pos rfl]
    · refine absurd ?_ hstays
      rw [hr, process?_forget, if_pos rfl]

/-- The request reaches the watched process, which takes the watcher on record, or answers
    that it is not there any more. -/
theorem awaits_request (hn : n.Coherent) (howner : ∀ q w, n.watchee? r q = some w → q = a ∧ w = b)
    (hq : n.about r = []) (hw : ∀ q, n.watcher? r q = none) {c : Process}
    (hc : n.process? b = some c)
    (hm : (n.handle ⟨b, a, .monitor r⟩).lives b = false → mortal ∧ n.lives a = true) :
    Awaits mortal a b r (n.handle ⟨b, a, .monitor r⟩) := by
  -- It is dead and answers, or alive and takes the watcher down. The request does not end it.
  rcases handle_cases (d := ⟨b, a, .monitor r⟩) hc with ⟨hdead, hh⟩ | ⟨-, c', hr, hh⟩ |
    ⟨-, reason, hsig, -⟩
  · have hgone : (n.handle ⟨b, a, .monitor r⟩).lives b = false := by
      rw [hh]
      exact (lives_of_process? hc).trans hdead
    rcases hm hgone with ⟨hmortal, ha⟩
    rw [hh]
    refine ⟨howner, .told hmortal Reason.noproc ?_ hw⟩
    rw [about_queueAll, hq, List.nil_append]
    exact (hn.filter_deliveries b a rfl).trans (if_pos ha)
  · rw [Process.reactAlive, Process.Reaction.become.injEq] at hr
    rw [hh]
    refine ⟨fun q w hheld => ?_, .recorded hq fun q => ?_⟩
    · rw [watchee?_update_const hc, ← hr] at hheld
      split at hheld
      next heq =>
        refine howner q w ?_
        rw [heq, watchee?_eq hc, hheld]
      next => exact howner q w hheld
    · rw [watcher?_update_const hc, ← hr]
      split
      next => exact (Dict.get?_insert _ _ _ _).trans (if_pos rfl)
      next => exact hw q
  · exact absurd hsig (by simp)

/-- A living watcher that takes the notice forgets the monitor. -/
theorem watchee?_handle_down (ha : n.lives a = true) (reason : Term) :
    (n.handle ⟨a, b, .down r reason⟩).watchee? r a = none := by
  rcases lives_iff.mp ha with ⟨c, hc, hlive⟩
  rcases handle_cases (d := ⟨a, b, .down r reason⟩) hc with ⟨hdead, -⟩ | ⟨-, c', hr, hh⟩ |
    ⟨-, reason', hsig, -⟩
  · exact absurd (hlive.symm.trans hdead) (by simp)
  · rw [Process.reactAlive, Process.Reaction.become.injEq] at hr
    rw [hh, watchee?_update_const hc, if_pos rfl, ← hr]
    exact Dict.get?_erase_self _ _
  · exact absurd hsig (by simp)

/-- A signal is handled. If a notice may come, the watcher knows of the monitor afterwards. -/
theorem Awaits.handle (hn : n.Coherent) (h : Awaits mortal a b r n) {d : Delivery} {q : Dispatcher}
    (hs : n.queue.signals = d :: q.signals)
    (hheld : mortal → ((n.withQueue q).handle d).watchee? r a = some b)
    (hm : ((n.withQueue q).handle d).lives b = false → mortal) :
    Awaits mortal a b r ((n.withQueue q).handle d) := by
  have hcoh := hn.next hs
  have ha : mortal → (n.withQueue q).lives a = true := by
    intro hmortal
    have hold := watchee?_of_handle (hheld hmortal)
    exact hcoh.lives_of_watchee? hold
  by_cases hd : d.signal.ref? = some r
  · have hnext := about_of_next hs hd
    cases h.stage with
    | asked hq hw =>
        rw [hq, List.cons_eq_cons] at hnext
        rcases hnext with ⟨rfl, hrest⟩
        rcases Option.isSome_iff_exists.mp
          (hn.targets ⟨b, a, .monitor r⟩ (by rw [hs]; exact List.mem_cons_self)) with ⟨c, hc⟩
        exact awaits_request hcoh h.owner hrest.symm hw hc fun hdead => ⟨hm hdead, ha (hm hdead)⟩
    | recorded hq hw =>
        rw [hq] at hnext
        exact absurd hnext (by simp)
    | told hmortal reason hq hw =>
        rw [hq, List.cons_eq_cons] at hnext
        rcases hnext with ⟨rfl, -⟩
        have hforgets := watchee?_handle_down (b := b) (r := r) (ha hmortal) reason
        exact absurd (hforgets.symm.trans (hheld hmortal)) (by simp)
  · have htaken := h.rests (rests_withQueue hs hd)
    rcases rests_handle_cases (n := n.withQueue q) hd with hr | ⟨c, reason, hc, -, -, -, hh⟩
    · exact htaken.rests hr
    · -- The signal ends its target, which may be the watched process.
      rw [hh] at hm ⊢
      refine htaken.fall hcoh hc rfl fun hb => ?_
      have hmortal := hm (by rw [lives_fall, if_pos hb.symm])
      exact ⟨hmortal, ha hmortal⟩

/-! ## Operations and runs -/

/-- A process that is not lost, and that the signal in hand did not end, is still there. -/
theorem kept_of_losses {d : Delivery} {q : Dispatcher} (hq : n.queue.next? = some (d, q))
    (hi : n.handleInHand = ((n.withQueue q).handle d).reclaim d.target)
    (hkept : b ∉ n.losses .handleInHand) (hl : ((n.withQueue q).handle d).lives b = true) :
    (((n.withQueue q).handle d).reclaim d.target).process? b ≠ none := by
  intro hgone
  have hbefore : n.lives b = true := lives_of_handle (n := n.withQueue q) hl
  -- Otherwise it would have been alive before, gone afterwards, and not dead in between.
  refine hkept (mem_losses hbefore ?_ fun reason hmem => ?_)
  · rwa [step, hi]
  · rcases lives_iff.mp hl with ⟨c, hc, ha⟩
    rw [Process.isAlive_iff, life_of_handle hq hmem hc] at ha
    exact absurd ha (by simp)

/-- Nobody takes a monitor back of which the watcher still knows afterwards. -/
theorem Awaits.kept (hn : n.Coherent) (h : Awaits mortal a b r n) {op : NodeOp}
    (hheld : (n.step op).watchee? r a = some b) {w : Pid} (hop : op = .demonitor w r) :
    n.watchee? r w = none := by
  subst hop
  rcases hw : n.watchee? r w with _ | x
  · rfl
  · rw [step, (h.owner w x hw).1, watchee?_demonitor hn] at hheld
    exact absurd hheld (by simp)

/-- As long as nobody takes a monitor back it goes on as it is. If a notice may come, the
    watcher knows of the monitor afterwards. -/
theorem awaits_step (hn : n.Coherent) (h : Awaits mortal a b r n) {op : NodeOp}
    (hmake : r ∉ n.makes op) (hraw : op.injects r = false) (hkept : b ∉ n.losses op)
    (hm : (n.step op).lives b = false → mortal)
    (hend : ∀ w, op = .demonitor w r → n.watchee? r w = none)
    (hheld : mortal → (n.step op).watchee? r a = some b) : Awaits mortal a b r (n.step op) := by
  by_cases hop : op.isPlain = true
  · by_cases hask : ∃ w, op = .demonitor w r
    · rcases hask with ⟨w, rfl⟩
      rw [step, demonitor_of_watchee?_none (hend w rfl)]
      exact h
    · exact h.rests (rests_step hn hop hmake hraw fun w hw => hask ⟨w, hw⟩)
  · cases op with
    | die p reason =>
        rw [step] at hm ⊢
        rcases die_cases n p reason with ⟨hd, -⟩ | ⟨c, hc, -, hd⟩ <;> rw [hd] at hm ⊢
        · exact h
        · refine h.fall hn hc rfl fun hb => ?_
          have hmortal := hm (by rw [lives_fall, if_pos hb.symm])
          exact ⟨hmortal, hn.lives_of_watchee? (watchee_step hn hmake hraw (hheld hmortal))⟩
    | letGo p =>
        exact (h.rests (rests_loosen r n p)).reclaim hn.loosen fun hl hgone =>
          hkept (mem_losses ((lives_loosen n p b).symm.trans hl) hgone fun _ => List.not_mem_nil)
    | handleInHand =>
        rcases handleInHand_cases n with ⟨-, hi⟩ | ⟨d, q, hq, hs, hi⟩
        · rwa [step, hi]
        · have hlost := kept_of_losses hq hi hkept
          rw [step, hi] at hheld hm ⊢
          refine (h.handle hn hs (fun hmortal => watchee?_of_reclaim (hheld hmortal))
            fun hdead => hm ?_).reclaim ((hn.next hs).handle d) hlost
          -- Who is dead does not come back by being let go.
          rw [Bool.eq_false_iff]
          exact fun hl => absurd (hdead.symm.trans (lives_of_reclaim hl)) (by simp)
    | _ => exact absurd rfl hop

/-- A watcher that knows of a monitor to the last waits to the last. -/
theorem awaits_run (hn : n.Coherent) (h : Awaits True a b r n) {ops : List NodeOp}
    (hmake : r ∉ n.collect makes ops) (hraw : ∀ op ∈ ops, op.injects r = false)
    (hkept : b ∉ n.collect losses ops) (hheld : (n.run ops).watchee? r a = some b) :
    Awaits True a b r (n.run ops) := by
  induction ops generalizing n with
  | nil => exact h
  | cons op rest ih =>
      rw [collect, List.mem_append, not_or] at hmake hkept
      have hcoh := coherent_step hn op
      have hrest : ∀ op' ∈ rest, op'.injects r = false := fun op' hop' =>
        hraw op' (List.mem_cons_of_mem op hop')
      -- Who knows of the monitor in the end knew of it at every step.
      have hthen := watchee_run hcoh hmake.2 hrest hheld
      exact ih hcoh (awaits_step hn h hmake.1 (hraw op List.mem_cons_self) hkept.1
        (fun _ => trivial) (fun w hop => h.kept hn hthen hop) fun _ => hthen) hmake.2 hrest hkept.2
        hheld

/-! ## The monitor is made -/

/-- Of a request to watch a process of this node the queue gets the request, if the process
    is alive, and the notice if not. -/
theorem filter_monitorDeliveries (hn : n.Coherent) (hb : b.isLocal = true) :
    ((n.monitorDeliveries a b r).filter fun d => d.signal.ref? = some r) =
      if n.lives b = true then [⟨b, a, .monitor r⟩]
      else if n.lives a = true then [⟨a, b, .down r Reason.noproc⟩] else [] := by
  rw [monitorDeliveries, resolve, resolvePid, if_pos hb, hn.isSome_lookup]
  by_cases hl : n.lives b = true
  · rw [if_pos hl, if_pos hl]
    exact (hn.filter_deliveries a b rfl).trans (if_pos hl)
  · rw [if_neg hl, if_neg hl]
    exact hn.filter_deliveries b a rfl

/-- A process of this node is watched. It is asked, or the watcher is told that it is
    not there. -/
theorem awaits_monitor (hn : n.Coherent) (habsent : Absent r n) (hb : b.isLocal = true)
    (hr : (n.monitor a b).1 = r) (hm : n.lives b = false → mortal ∧ n.lives a = true) :
    Awaits mortal a b r (n.monitor a b).2 := by
  refine ⟨(standing_monitor hn habsent hr).owner, ?_⟩
  rw [monitor_eq] at hr ⊢
  rw [show n.nextRef = r from hr]
  have hwatcher : ∀ q,
      ((n.countRef.track a r b).queueAll (n.monitorDeliveries a b r)).watcher? r q = none :=
    fun q => (watcher?_track n.countRef a r b q).trans (habsent.watcher q)
  have habout : ((n.countRef.track a r b).queueAll (n.monitorDeliveries a b r)).about r =
      if n.lives b = true then [⟨b, a, .monitor r⟩]
      else if n.lives a = true then [⟨a, b, .down r Reason.noproc⟩] else [] := by
    rw [about_queueAll, about_track, show n.countRef.about r = [] from habsent.about,
      List.nil_append, filter_monitorDeliveries hn hb]
  -- The request is on its way if there is somebody to get it, and the notice if not.
  by_cases hl : n.lives b = true
  · rw [if_pos hl] at habout
    exact .asked habout hwatcher
  · rcases hm (Bool.not_eq_true _ ▸ hl) with ⟨hmortal, ha⟩
    rw [if_neg hl, if_pos ha] at habout
    exact .told hmortal Reason.noproc habout hwatcher

/-- A process that is made to be watched has the watcher on record from the start. -/
theorem awaits_spawnMonitor (hn : n.Coherent) (habsent : Absent r n)
    (hr : (n.spawnMonitor a).1 = .ok (b, r)) : Awaits mortal a b r (n.spawnMonitor a).2 := by
  have hstanding := standing_spawnMonitor hn habsent hr
  refine ⟨hstanding.owner, ?_⟩
  rcases spawnMonitor_cases n a with he | ⟨p, n₁, hmade, he⟩
  · rw [he] at hr
    exact absurd hr (by simp)
  · rw [he] at hr hstanding ⊢
    rw [Except.ok.injEq, Prod.mk.injEq] at hr
    rcases hr with ⟨rfl, hr⟩
    rw [hr] at hstanding ⊢
    rcases move_makeProcess (K := fun _ => False) hmade with ⟨hmove, hp⟩
    -- The reference is new, so neither tables nor queue mention it before.
    have hempty := (rests_move (r := r) hmove hn id).absent habsent
    refine .recorded ?_ fun q => ?_
    · rw [about_track]
      exact hempty.about
    · split
      next hq =>
        have hfresh : n₁.countRef.process? p = some .fresh := hp
        rw [watcher?_track, hq, watcher?, process?_update, if_pos rfl, hfresh, Option.map_some,
          Option.bind_some]
        exact (Dict.get?_insert _ _ _ _).trans (if_pos rfl)
      next hq => exact hstanding.stranger q hq

theorem lives_monitor (n : Node) (w x q : Pid) : (n.monitor w x).2.lives q = n.lives q := by
  rw [monitor_eq]
  exact lives_track n.countRef w n.nextRef x q

/-- Who knows of a monitor at the moment when its reference is made waits for it. -/
theorem awaits_makes (hn : n.Coherent) (habsent : Absent r n) {op : NodeOp} (hmade : r ∈ n.makes op)
    (hheld : (n.step op).watchee? r a = some b) (hb : b.isLocal = true)
    (hm : (n.step op).lives b = false → mortal) : Awaits mortal a b r (n.step op) := by
  have ha := (coherent_step hn op).lives_of_watchee? hheld
  cases op with
  | makeRef => exact absurd ((habsent.watchee a).symm.trans hheld) (by simp)
  | monitor w x =>
      have hr := (List.mem_singleton.mp hmade).symm
      rcases (standing_monitor hn habsent hr).owner a b hheld with ⟨rfl, rfl⟩
      rw [step, lives_monitor] at ha hm
      exact awaits_monitor hn habsent hb hr fun hdead => ⟨hm hdead, ha⟩
  | spawnMonitor w =>
      rcases hr : (n.spawnMonitor w).1 with e | ⟨x, ref⟩
      · simp [makes, hr, Except.toOption] at hmade
      · have href : r = ref := by simpa [makes, hr, Except.toOption] using hmade
        subst href
        rcases (standing_spawnMonitor hn habsent hr).owner a b hheld with ⟨rfl, rfl⟩
        exact awaits_spawnMonitor hn habsent hr
  | _ => exact absurd hmade List.not_mem_nil

/-- At any moment of a run, who knows of a monitor of a process of this node waits for it. -/
theorem awaits_of_watchee? {config : NodeConfig} {ops : List NodeOp}
    (hraw : ∀ op ∈ ops, op.injects r = false)
    (hcount : ((new config).collect makes ops).length ≤ UInt64.size)
    (hkept : b ∉ (new config).collect losses ops) (hb : b.isLocal = true)
    (hheld : ((new config).run ops).watchee? r a = some b) :
    Awaits True a b r ((new config).run ops) := by
  have hn := coherent_new config
  -- The watcher can know of the monitor only from the operation that made it.
  rcases mem_collect (mem_makes_of_watchee? hraw hheld) with ⟨before, op, after, rfl, hop⟩
  have hcoh := coherent_run hn before
  rcases made_at hraw (nodup_makes hn hcount) hop with ⟨habsent, hnever, hafter⟩
  rw [collect_append, collect, List.mem_append, List.mem_append, not_or, not_or] at hkept
  rw [run_append, run_cons] at hheld ⊢
  have hnext := coherent_step hcoh op
  have hfirst := watchee_run hnext hnever hafter hheld
  exact awaits_run hnext (awaits_makes hcoh habsent hop hfirst hb fun _ => trivial) hnever hafter
    hkept.2.2 hheld

/-! ## Nobody is left waiting -/

/-- When no signal waits, a process of this node that another one watches is alive, if
    it was not taken away alive. Nobody may send signals about the monitor directly, and
    the counter of references must not come around. -/
theorem alive_of_watched {config : NodeConfig} {ops : List NodeOp} {c : Process}
    (hraw : ∀ op ∈ ops, op.injects r = false)
    (hcount : ((new config).collect makes ops).length ≤ UInt64.size)
    (hkept : b ∉ (new config).collect losses ops)
    (hquiet : ((new config).run ops).queue.signals = [])
    (hc : ((new config).run ops).process? a = some c)
    (hheld : (r, b) ∈ Process.sortedMonitors c.monitors) (hb : b.isLocal = true) :
    ((new config).run ops).isAlive b = true := by
  have hn := coherent_run (coherent_new config) ops
  rw [Process.mem_sortedMonitors, ← watchee?_eq hc] at hheld
  have hnil : ((new config).run ops).about r = [] := by
    rw [about, hquiet, List.filter_nil]
  have h := awaits_of_watchee? hraw hcount hkept hb hheld
  rw [hn.isAlive_eq]
  -- With nothing in the queue only the stage is left in which the watched process has its watcher
  -- on record, and the dead have none.
  cases h.stage with
  | asked hq => exact absurd (hnil.symm.trans hq) (by simp)
  | recorded _ hw => exact hn.lives_of_watcher? ((hw b).trans (if_pos rfl))
  | told _ reason hq => exact absurd (hnil.symm.trans hq) (by simp)

/-- Of two processes that the first one watches, one ends and the notice is handled. The
    other one it still watches, and that one is alive. -/
theorem alive_of_watched_trio :
    let ops : List NodeOp := [.spawn, .spawn, .spawn, .monitor (.ofSlot 1 0 0) (.ofSlot 2 0 0),
      .monitor (.ofSlot 1 0 0) (.ofSlot 3 0 0), .beginTurn, .handleInHand, .handleInHand,
      .die (.ofSlot 3 0 0) Reason.shutdown, .beginTurn, .handleInHand, .letGo (.ofSlot 3 0 0)]
    let n := (new .standard).run ops
    n.queue.signals = [] ∧ n.watchee? (.ofCounter 1 0) (.ofSlot 1 0 0) = none ∧
      n.isAlive (.ofSlot 2 0 0) = true := by
  intro ops n
  have hheld : n.watchee? (.ofCounter 0 0) (.ofSlot 1 0 0) = some (.ofSlot 2 0 0) := by decide
  rcases hc : n.process? (.ofSlot 1 0 0) with _ | c
  · exact absurd hc (by decide)
  · refine ⟨by decide, by decide, alive_of_watched (r := .ofCounter 0 0) (c := c) (by decide)
      (by decide) (by decide) (by decide) hc ?_ (by decide)⟩
    rw [Process.mem_sortedMonitors, ← watchee?_eq hc]
    exact hheld

/-- The last handle to a watched process goes while it is alive and has its watcher on
    record. No signal waits then, the watcher has heard nothing, and it goes on watching
    a process that is not there. -/
theorem unnoticed_loss :
    let ops : List NodeOp := [.spawn, .spawn, .monitor (.ofSlot 1 0 0) (.ofSlot 2 0 0), .beginTurn,
      .handleInHand, .letGo (.ofSlot 2 0 0)]
    let n := (new .standard).run ops
    n.queue.signals = [] ∧ n.isAlive (.ofSlot 1 0 0) = true ∧
      n.watchee? (.ofCounter 0 0) (.ofSlot 1 0 0) = some (.ofSlot 2 0 0) ∧
      (Pid.ofSlot 2 0 0).isLocal = true ∧ n.isAlive (.ofSlot 2 0 0) = false ∧
      (n.process? (.ofSlot 1 0 0)).map (fun c => c.mailbox.messages) = some [] := by
  decide

end Node

end Actors
