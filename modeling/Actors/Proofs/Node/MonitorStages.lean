import Actors.Proofs.Node.Watching

/-!
# The Stages of a Monitor

How far a monitor has come, told by its reference. It is asked for, and the
signal waits in the queue. If the watched process is alive when the signal
arrives it records the watcher, and when it ends a notice is queued. If it is
dead by then, or cannot be found in the first place, a notice is queued at once.
The watcher handles the notice, and that is all.

At any moment a monitor is at exactly one of these stages, or it came to
nothing: because the watcher ended it or is gone itself, or because the watched
process was given up while it was alive. This module says what the single
things that can happen to a node do to the stage. Nothing leads back to an
earlier stage, and only the last step makes the watcher handle a notice.

## Main definitions

* `Node.Ledger`: What a run has shown of a monitor.
* `Node.Stage`: How far a monitor has come.
* `Node.Watch`: What holds at any moment after a monitor was made.

## Theorems

* `Watch.keep`, `Watch.rests`: What leaves a monitor alone.
* `Watch.fall`, `Watch.reclaim`: A process ends or is forgotten.
* `Watch.handle`: A signal is handled.
-/

namespace Actors

/-- Whether a signal is the notice of a monitor. -/
def Signal.isDown (r : Ref) : Signal → Bool
  | .down ref _ => ref = r
  | _ => false

namespace Node

/-- What a run has shown of a monitor of one process by another. -/
structure Ledger where
  /-- The notices that living processes handled. -/
  heard : List Delivery
  /-- The processes that ended. -/
  deaths : List (Pid × Term)
  /-- Whether the watched process had the watcher on record. -/
  recorded : Prop
  /-- Whether the watcher asked for the end of the monitor. -/
  demonitored : Prop

/-- The reason to give in the notice: that of the end of the watched process if
    it had the watcher on record, and that there is no such process if not. -/
def Ledger.Explains (l : Ledger) (b : Pid) (reason : Term) : Prop :=
  l.recorded ∧ (b, reason) ∈ l.deaths ∨ ¬ l.recorded ∧ reason = Reason.noproc

/-- How far a monitor has come. -/
inductive Stage (a b : Pid) (r : Ref) (l : Ledger) (n : Node) : Prop
  /-- It was asked for. -/
  | asked (hheard : l.heard = []) (hrec : ¬ l.recorded) (hq : n.pending r = [⟨b, a, .monitor r⟩])
      (hw : ∀ q, n.watcher? r q = none)
  /-- The watched process has the watcher on record. -/
  | recorded (hheard : l.heard = []) (hq : n.pending r = [])
      (hw : ∀ q, n.watcher? r q = if q = b then some a else none)
  /-- The notice is queued. -/
  | told (reason : Term) (hwhy : l.Explains b reason) (hheard : l.heard = [])
      (hq : n.pending r = [⟨a, b, .down r reason⟩]) (hw : ∀ q, n.watcher? r q = none)
  /-- The watcher handled the notice and forgot the monitor. -/
  | heard (reason : Term) (hwhy : l.Explains b reason)
      (hheard : l.heard = [⟨a, b, .down r reason⟩]) (hq : n.pending r = [])
      (hw : ∀ q, n.watcher? r q = none) (hfree : n.watchee? r a = none)
  /-- It came to nothing. -/
  | void (hheard : l.heard = []) (hq : n.pending r = []) (hw : ∀ q, n.watcher? r q = none)
      (hwhy : l.demonitored ∨ n.lives a = false ∨
        n.process? b = none ∧ ∀ reason, (b, reason) ∉ l.deaths)

/-- What holds at any moment after a monitor was made. -/
structure Watch (a b : Pid) (r : Ref) (l : Ledger) (n : Node) : Prop where
  coherent : n.Coherent
  watcher : n.Issued a
  watchee : n.Issued b
  stage : Stage a b r l n
  /-- Only the watcher knows of the monitor. -/
  owner : ∀ q w, n.watchee? r q = some w → q = a
  /-- Its end is only queued if the watcher asked for it. -/
  ended : ∀ d ∈ n.about r, d.signal = .demonitor r → l.demonitored

variable {a b : Pid} {r : Ref} {l l' : Ledger} {n n' : Node}

/-! ## Signals about a monitor -/

theorem ref?_eq_some_iff {s : Signal} :
    s.ref? = some r ↔ s = .monitor r ∨ s = .demonitor r ∨ ∃ reason, s = .down r reason := by
  rcases s with m | _ | _ | ref | ref | reason | ⟨ref, reason⟩ <;> simp [Signal.ref?]

theorem Rests.pending (hr : Rests r n n') : n'.pending r = n.pending r := by
  rw [Node.pending, hr.about, Node.pending]

theorem pending_of_next {q : Dispatcher} {d : Delivery} (hs : n.queue.signals = d :: q.signals)
    (hd : d.signal.ref? = some r) (hend : d.signal.isDemonitor = false) :
    n.pending r = d :: (n.withQueue q).pending r := by
  rw [Node.pending, about_of_next hs hd, List.filter_cons_of_pos (by rw [hend]; rfl)]
  rfl

theorem pending_of_next_demonitor {q : Dispatcher} {d : Delivery}
    (hs : n.queue.signals = d :: q.signals) (hd : d.signal = .demonitor r) :
    n.pending r = (n.withQueue q).pending r := by
  rw [Node.pending, about_of_next hs (by rw [hd]; rfl),
    List.filter_cons_of_neg (by rw [hd]; simp [Signal.isDemonitor])]
  rfl

/-! ## What leaves a monitor alone -/

theorem gone_of_ages (hage : n.Ages n') (hissued : n.Issued b)
    (hgone : n.process? b = none) : n'.process? b = none := by
  rcases hc : n'.process? b with _ | c
  · rfl
  · rcases hage.past b c hissued.2 hc with ⟨c', hc', -⟩
    rw [hgone] at hc'
    exact absurd hc' (by simp)

theorem dead_of_ages (hage : n.Ages n') (hissued : n.Issued a)
    (hdead : n.lives a = false) : n'.lives a = false := by
  rw [Bool.eq_false_iff]
  intro hl
  rw [hage.lives hissued.2 hl] at hdead
  exact absurd hdead (by simp)

/-- Everything that is left alone but the requests to end the monitor. -/
theorem Watch.keep (h : Watch a b r l n) (hage : n.Ages n') (hcoh : n'.Coherent)
    (hpending : n'.pending r = n.pending r) (hwatcher : ∀ q, n'.watcher? r q = n.watcher? r q)
    (hwatchee : ∀ q w, n'.watchee? r q = some w → n.watchee? r q = some w)
    (hended : ∀ d ∈ n'.about r, d.signal = .demonitor r → l.demonitored) : Watch a b r l n' := by
  refine ⟨hcoh, h.watcher.ages hage, h.watchee.ages hage, ?_,
    fun q w hw => h.owner q w (hwatchee q w hw), hended⟩
  have hnone : (∀ q, n.watcher? r q = none) → ∀ q, n'.watcher? r q = none :=
    fun hw q => (hwatcher q).trans (hw q)
  -- The stage stays what it was, since each is told from the signals and the two tables.
  cases h.stage with
  | asked hheard hrec hq hw => exact .asked hheard hrec (hpending.trans hq) (hnone hw)
  | recorded hheard hq hw =>
      exact .recorded hheard (hpending.trans hq) fun q => (hwatcher q).trans (hw q)
  | told reason hwhy hheard hq hw =>
      exact .told reason hwhy hheard (hpending.trans hq) (hnone hw)
  | heard reason hwhy hheard hq hw hfree =>
      refine .heard reason hwhy hheard (hpending.trans hq) (hnone hw) ?_
      rcases hf : n'.watchee? r a with _ | w
      · rfl
      · rw [hwatchee a w hf] at hfree
        exact absurd hfree (by simp)
  | void hheard hq hw hwhy =>
      refine .void hheard (hpending.trans hq) (hnone hw) ?_
      -- What made the monitor void does so for good.
      rcases hwhy with hend | hdead | ⟨hgone, hnot⟩
      · exact Or.inl hend
      · exact Or.inr (Or.inl (dead_of_ages hage h.watcher hdead))
      · exact Or.inr (Or.inr ⟨gone_of_ages hage h.watchee hgone, hnot⟩)

theorem Watch.rests (h : Watch a b r l n) (hr : Rests r n n') (hage : n.Ages n')
    (hcoh : n'.Coherent) : Watch a b r l n' := by
  refine h.keep hage hcoh hr.pending hr.watcher hr.watchee ?_
  rw [hr.about]
  exact h.ended

/-! ## Processes end and are forgotten -/

/-- Nobody has a watcher on record, except perhaps the watched process. -/
theorem Watch.watcher?_cases (h : Watch a b r l n) (q : Pid) :
    n.watcher? r q = none ∨ q = b ∧ n.watcher? r b = some a ∧ l.heard = [] ∧ n.pending r = [] := by
  cases h.stage with
  | recorded hheard hq hw =>
      by_cases heq : q = b
      · exact Or.inr ⟨heq, by rw [hw, if_pos rfl], hheard, hq⟩
      · exact Or.inl (by rw [hw, if_neg heq])
  | asked _ _ _ hw => exact Or.inl (hw q)
  | told _ _ _ _ hw => exact Or.inl (hw q)
  | heard _ _ _ _ hw => exact Or.inl (hw q)
  | void _ _ hw => exact Or.inl (hw q)

/-- A notice is queued, if the watcher is alive to get it. -/
theorem Watch.notify (h : Watch a b r l n) {reason : Term} (hwhy : l.Explains b reason)
    (hheard : l.heard = []) (hage : n.Ages n') (hcoh : n'.Coherent)
    (hq : n'.pending r = if n.lives a = true then [⟨a, b, .down r reason⟩] else [])
    (hw : ∀ q, n'.watcher? r q = none)
    (hwatchee : ∀ q w, n'.watchee? r q = some w → n.watchee? r q = some w)
    (hended : ∀ d ∈ n'.about r, d.signal = .demonitor r → l.demonitored) : Watch a b r l n' := by
  refine ⟨hcoh, h.watcher.ages hage, h.watchee.ages hage, ?_,
    fun q w hw => h.owner q w (hwatchee q w hw), hended⟩
  by_cases ha : n.lives a = true
  · rw [if_pos ha] at hq
    exact .told reason hwhy hheard hq hw
  · rw [if_neg ha] at hq
    have hdead := dead_of_ages hage h.watcher (Bool.not_eq_true _ ▸ ha)
    exact .void hheard hq hw (Or.inr (Or.inl hdead))

/-- A process ends. If it has the watcher on record, this is the death that is reported. -/
theorem Watch.fall (h : Watch a b r l n) {p : Pid} {c₀ c : Process} {reason : Term}
    (hp : n.process? p = some c₀) (ha : c₀.isAlive = true) (hc : c.monitoredBy = c₀.monitoredBy)
    (hdeath : (p, Reason.recorded reason) ∈ l.deaths)
    (hrec : (n.watcher? r b).isSome = true → l.recorded) :
    Watch a b r l (n.fall p c (Reason.recorded reason)) := by
  have hage := ages_fall h.coherent.table hp ha c (Reason.recorded reason)
  have hcoh := h.coherent.fall hp c reason
  -- The end matters only if it is the watched process that ends, with the watcher on record.
  rcases h.watcher?_cases p with hnone | ⟨rfl, hw, hheard, hnil⟩
  · refine h.rests (rests_fall ?_ hnone _) hage hcoh
    rw [hc, ← watcher?_eq hp, hnone]
  · have hentry : c.monitoredBy.get? r = some a := by rw [hc, ← watcher?_eq hp, hw]
    have habout : (n.fall p c (Reason.recorded reason)).about r = n.about r ++
        if n.lives a = true then [⟨a, p, .down r (Reason.recorded reason)⟩] else [] := by
      rw [about_fall, hentry]
      dsimp only
      rw [h.coherent.deliveries_of_isLocal h.watcher.1]
      split
      · rw [List.filter_cons_of_pos (by simp [Signal.ref?]), List.filter_nil]
      · rfl
    -- Nobody else had the watcher on record, so after the end nobody has.
    have hothers : ∀ q, q ≠ p → n.watcher? r q = none :=
      fun q hne => (h.watcher?_cases q).resolve_right fun heq => hne heq.1
    refine h.notify (Or.inl ⟨hrec (by rw [hw]; rfl), hdeath⟩) hheard hage hcoh ?_
      (watcher?_fall_eq_none hothers c _) (fun q w hq => watchee?_of_fall hq) fun d hd hend => ?_
    · rw [Node.pending, habout, List.filter_append, ← Node.pending, hnil, List.nil_append]
      split <;> rfl
    · -- What the end adds is a notice, and no request to end the monitor.
      rw [habout, List.mem_append] at hd
      rcases hd with hd | hd
      · exact h.ended d hd hend
      · split at hd
        next =>
          rw [List.mem_singleton] at hd
          rw [hd] at hend
          exact absurd hend (by simp)
        next => exact absurd hd List.not_mem_nil

/-- A process is forgotten. If it was alive with the watcher on record, nobody
    will be told. -/
theorem Watch.reclaim (h : Watch a b r l n)
    (hdead : ∀ reason, (b, reason) ∈ l.deaths → n.lives b = false) (p : Pid) :
    Watch a b r l (n.reclaim p) := by
  have hage := ages_reclaim n h.coherent.table p
  have hcoh := h.coherent.reclaim p
  rcases h.watcher?_cases p with hnone | ⟨rfl, hw, hheard, hnil⟩
  · exact h.rests (rests_reclaim hnone) hage hcoh
  · have hlive := h.coherent.lives_of_watcher? hw
    rcases reclaim_cases n p with ⟨hr, -⟩ | ⟨c, hc, -, -, ⟨-, hr⟩ | ⟨ha, -⟩⟩
    · rw [hr]
      exact h
    · rw [hr] at hage hcoh ⊢
      have hproc : ∀ q, ((n.forget p).release p).process? q = (n.forget p).process? q :=
        fun _ => rfl
      refine ⟨hcoh, h.watcher.ages hage, h.watchee.ages hage, ?_,
        fun q w hq => ?_, h.ended⟩
      · -- The watched process was alive, so its end was not reported and never will be.
        refine .void hheard hnil (fun q => ?_) (Or.inr (Or.inr ⟨?_, fun reason hmem => ?_⟩))
        · rw [watcher?, hproc, process?_forget]
          split
          next => rfl
          next hne => exact (h.watcher?_cases q).resolve_right fun heq => hne heq.1
        · rw [hproc, process?_forget, if_pos rfl]
        · rw [hdead reason hmem] at hlive
          exact absurd hlive (by simp)
      · rw [watchee?, hproc, process?_forget] at hq
        split at hq
        next => exact absurd hq (by simp)
        next => exact h.owner q w hq
    · rw [lives_of_process? hc, ha] at hlive
      exact absurd hlive (by simp)

/-! ## Signals are handled -/

/-- What a living process handles adds to what was heard, if it is a notice. -/
def Ledger.hear (l : Ledger) (r : Ref) (ds : List Delivery) : Ledger :=
  { l with heard := l.heard ++ ds.filter fun d => d.signal.isDown r }

@[simp] theorem Ledger.hear_nil (l : Ledger) (r : Ref) : l.hear r [] = l := by
  rw [hear, List.filter_nil, List.append_nil]

theorem Ledger.hear_of_not_down (l : Ledger) {ds : List Delivery}
    (h : ∀ d ∈ ds, d.signal.isDown r = false) : l.hear r ds = l := by
  have hnil : (ds.filter fun d => d.signal.isDown r) = [] :=
    List.filter_eq_nil_iff.mpr fun d hd => by rw [h d hd]; simp
  rw [hear, hnil, List.append_nil]

variable {d : Delivery} {q : Dispatcher}

/-- A signal is taken from the queue that sets the monitor up or reports through
    it. Only one such signal can be queued, so none is left. -/
theorem Watch.taken (h : Watch a b r l n) (hs : n.queue.signals = d :: q.signals)
    (hd : d.signal.ref? = some r) (hend : d.signal.isDemonitor = false) :
    (n.withQueue q).pending r = [] ∧ l.heard = [] ∧ (∀ p, n.watcher? r p = none) ∧
      (d = ⟨b, a, .monitor r⟩ ∧ ¬ l.recorded ∨
        ∃ reason, d = ⟨a, b, .down r reason⟩ ∧ l.Explains b reason) := by
  have hnext := pending_of_next hs hd hend
  -- Each stage says what is queued, so the head of the queue tells the stage.
  cases h.stage with
  | asked hheard hrec hq hw =>
      rw [hq, List.cons_eq_cons] at hnext
      exact ⟨hnext.2.symm, hheard, hw, Or.inl ⟨hnext.1.symm, hrec⟩⟩
  | told reason hwhy hheard hq hw =>
      rw [hq, List.cons_eq_cons] at hnext
      exact ⟨hnext.2.symm, hheard, hw, Or.inr ⟨reason, hnext.1.symm, hwhy⟩⟩
  | recorded _ hq =>
      rw [hq] at hnext
      exact absurd hnext (by simp)
  | heard _ _ _ hq =>
      rw [hq] at hnext
      exact absurd hnext (by simp)
  | void _ hq =>
      rw [hq] at hnext
      exact absurd hnext (by simp)

theorem Watch.ended_withQueue (h : Watch a b r l n) (hs : n.queue.signals = d :: q.signals)
    (hd : d.signal.ref? = some r) :
    ∀ e ∈ (n.withQueue q).about r, e.signal = .demonitor r → l.demonitored := by
  intro e he hend
  refine h.ended e ?_ hend
  rw [about_of_next hs hd]
  exact List.mem_cons_of_mem _ he

theorem Watch.handle_other (h : Watch a b r l n) (hs : n.queue.signals = d :: q.signals)
    (hd : d.signal.ref? ≠ some r) (hrec : (n.watcher? r b).isSome = true → l.recorded)
    (hdeath : ∀ c reason, n.process? d.target = some c → c.isAlive = true →
      d.signal = .exit reason → c.traps reason = false →
      (d.target, Reason.recorded reason) ∈ l.deaths) :
    Watch a b r l ((n.withQueue q).handle d) := by
  have hq := h.rests (rests_withQueue hs hd) (ages_withQueue n q) (h.coherent.next hs)
  rcases rests_handle_cases (n := n.withQueue q) hd with hr | ⟨c, reason, hc, ha, hsig, ht, hh⟩
  · exact hq.rests hr (ages_handle _ hq.coherent.table d) (hq.coherent.handle d)
  · rw [hh]
    -- An exit signal is never about a monitor, but the death it causes may be.
    exact hq.fall (c := { c with links := c.links.erase d.sender }) hc ha rfl
      (hdeath c reason hc ha hsig ht) hrec

theorem watcher?_update_const {p : Pid} {c : Process} (hc : n.process? p = some c) (c' : Process)
    (q : Pid) : (n.update p fun _ => c').watcher? r q =
      if q = p then c'.monitoredBy.get? r else n.watcher? r q := by
  rw [watcher?, process?_update]
  split
  next heq =>
    rw [heq, hc]
    rfl
  next => rfl

theorem watchee?_update_const {p : Pid} {c : Process} (hc : n.process? p = some c) (c' : Process)
    (q : Pid) : (n.update p fun _ => c').watchee? r q =
      if q = p then c'.monitors.get? r else n.watchee? r q := by
  rw [watchee?, process?_update]
  split
  next heq =>
    rw [heq, hc]
    rfl
  next => rfl

/-- The request to end the monitor arrives. -/
theorem Watch.handle_demonitor (h : Watch a b r l n) (hs : n.queue.signals = d :: q.signals)
    (hd : d.signal = .demonitor r) : Watch a b r l ((n.withQueue q).handle d) := by
  -- Such a request is queued only because the watcher asked for it.
  have hend : l.demonitored := by
    refine h.ended d (mem_about.mpr ⟨?_, by rw [hd]; rfl⟩) hd
    rw [hs]
    exact List.mem_cons_self
  have hq : Watch a b r l (n.withQueue q) :=
    h.keep (ages_withQueue n q) (h.coherent.next hs)
      (pending_of_next_demonitor hs hd).symm (fun _ => rfl) (fun _ _ hw => hw) fun _ _ _ => hend
  have hage := ages_handle _ hq.coherent.table d
  have hcoh := hq.coherent.handle d
  rcases hc : (n.withQueue q).process? d.target with _ | c
  · rw [handle_of_none hc]
    exact hq
  · rcases handle_cases hc with ⟨-, hh⟩ | ⟨-, c', hr, hh⟩ | ⟨-, reason, hsig, -⟩
    · rw [hh, answers, hd]
      exact hq
    · rw [hd, Process.reactAlive, Process.Reaction.become.injEq] at hr
      rw [hh] at hage hcoh ⊢
      have hnew := watcher?_update_const (r := r) hc c'
      have hgone : c'.monitoredBy.get? r = none := by
        rw [← hr]
        exact Dict.get?_erase_self _ _
      have howner : ∀ p w, ((n.withQueue q).update d.target fun _ => c').watchee? r p = some w →
          (n.withQueue q).watchee? r p = some w := by
        intro p w hw
        rw [watchee?_update_const hc] at hw
        split at hw
        next heq =>
          rw [heq, watchee?_eq hc, ← hw, ← hr]
        next => exact hw
      rcases hq.watcher?_cases d.target with hnone | ⟨heq, -, hheard, hnil⟩
      · -- Nothing was on record, so nothing is lost.
        refine hq.keep hage hcoh rfl (fun p => ?_) howner hq.ended
        rw [hnew, hgone]
        split
        next hp => rw [hp, hnone]
        next => rfl
      · -- The record is gone, and the monitor with it.
        refine ⟨hcoh, hq.watcher.ages hage, hq.watchee.ages hage,
          .void hheard hnil (fun p => ?_) (Or.inl hend), fun p w hw => hq.owner p w (howner p w hw),
          hq.ended⟩
        rw [hnew, hgone]
        split
        next => rfl
        next hne => exact (hq.watcher?_cases p).resolve_right fun hp => hne (hp.1.trans heq.symm)
    · rw [hd] at hsig
      exact absurd hsig (by simp)

/-- The request to watch arrives. A living process puts the watcher on record,
    and a dead one sends the notice. -/
theorem Watch.handle_monitor (h : Watch a b r l n) (hs : n.queue.signals = d :: q.signals)
    (hd : d.signal = .monitor r) : Watch a b r l ((n.withQueue q).handle d) := by
  rcases h.taken hs (by rw [hd]; rfl) (by rw [hd]; rfl) with ⟨hnil, hheard, hnone, hwhich⟩
  rcases hwhich with ⟨rfl, hrec⟩ | ⟨reason, rfl, -⟩
  · have hq := h.coherent.next hs
    have hage := (ages_withQueue n q).trans (ages_handle _ hq.table ⟨b, a, .monitor r⟩)
    have hcoh := hq.handle ⟨b, a, .monitor r⟩
    have hended := h.ended_withQueue hs rfl
    rcases Option.isSome_iff_exists.mp (h.coherent.targets ⟨b, a, .monitor r⟩
      (by rw [hs]; exact List.mem_cons_self)) with ⟨c, hc⟩
    have hc' : (n.withQueue q).process? b = some c := hc
    rcases handle_cases (d := ⟨b, a, .monitor r⟩) hc' with ⟨-, hh⟩ | ⟨-, c', hr, hh⟩ |
      ⟨-, reason, hsig, -⟩
    · -- It is dead. The answer goes to the watcher, if that is alive.
      have hanswer : (n.withQueue q).answers ⟨b, a, .monitor r⟩ =
          if n.lives a = true then [⟨a, b, .down r Reason.noproc⟩] else [] :=
        hq.deliveries_of_isLocal h.watcher.1 b (.down r Reason.noproc)
      rw [hh, hanswer] at hage hcoh ⊢
      refine h.notify (Or.inr ⟨hrec, rfl⟩) hheard hage hcoh ?_ hnone (fun _ _ hw => hw)
        fun e he hend => ?_
      · rw [Node.pending, about_queueAll, List.filter_append, ← Node.pending, hnil,
          List.nil_append]
        split <;> simp [Signal.ref?, Signal.isDemonitor]
      · rw [about_queueAll, List.mem_append] at he
        rcases he with he | he
        · exact hended e he hend
        · split at he
          · simp only [Signal.ref?, decide_true, List.filter_cons_of_pos, List.filter_nil,
              List.mem_singleton] at he
            rw [he] at hend
            exact absurd hend (by simp)
          · exact absurd he (by simp)
    · rw [Process.reactAlive, Process.Reaction.become.injEq] at hr
      rw [hh] at hage hcoh ⊢
      -- It is alive and puts the watcher on record.
      refine ⟨hcoh, h.watcher.ages hage, h.watchee.ages hage,
        .recorded hheard hnil fun p => ?_, fun p w hw => ?_, hended⟩
      · rw [watcher?_update_const hc', ← hr]
        split
        next => exact (Dict.get?_insert _ _ _ _).trans (if_pos rfl)
        next => exact hnone p
      · rw [watchee?_update_const hc', ← hr] at hw
        split at hw
        next heq =>
          refine h.owner p w ?_
          rw [heq, watchee?_eq hc, hw]
        next => exact h.owner p w hw
    · exact absurd hsig (by simp)
  · exact absurd hd (by simp)

/-- The notice arrives. -/
theorem Watch.handle_down (h : Watch a b r l n) (hs : n.queue.signals = d :: q.signals)
    {reason : Term} (hd : d.signal = .down r reason) :
    Watch a b r (l.hear r (if n.lives d.target = true then [d] else []))
      ((n.withQueue q).handle d) := by
  rcases h.taken hs (by rw [hd]; rfl) (by rw [hd]; rfl) with ⟨hnil, hheard, hnone, hwhich⟩
  rcases hwhich with ⟨rfl, -⟩ | ⟨reason', rfl, hwhy⟩
  · exact absurd hd (by simp)
  · have hq := h.coherent.next hs
    have hage := (ages_withQueue n q).trans (ages_handle _ hq.table ⟨a, b, .down r reason'⟩)
    have hcoh := hq.handle ⟨a, b, .down r reason'⟩
    have hended := h.ended_withQueue hs rfl
    rcases Option.isSome_iff_exists.mp (h.coherent.targets ⟨a, b, .down r reason'⟩
      (by rw [hs]; exact List.mem_cons_self)) with ⟨c, hc⟩
    have hc' : (n.withQueue q).process? a = some c := hc
    have hlives : n.lives a = c.isAlive := lives_of_process? hc
    rcases handle_cases (d := ⟨a, b, .down r reason'⟩) hc' with ⟨hdead, hh⟩ | ⟨ha, c', hr, hh⟩ |
      ⟨-, reason, hsig, -⟩
    · -- The watcher is dead, so nobody hears of it.
      have hskip : (n.withQueue q).handle ⟨a, b, .down r reason'⟩ = n.withQueue q := hh
      rw [hskip] at hage hcoh ⊢
      rw [hlives, hdead, if_neg (by simp), Ledger.hear_nil]
      exact ⟨hcoh, h.watcher.ages hage, h.watchee.ages hage,
        .void hheard hnil hnone (Or.inr (Or.inl (hlives.trans hdead))), h.owner, hended⟩
    · rw [Process.reactAlive, Process.Reaction.become.injEq] at hr
      rw [hh] at hage hcoh ⊢
      rw [hlives, ha, if_pos rfl]
      -- The watcher is alive. It hears the one notice, and forgets the monitor.
      refine ⟨hcoh, h.watcher.ages hage, h.watchee.ages hage,
        .heard reason' hwhy ?_ hnil (fun p => ?_) ?_, fun p w hw => ?_, hended⟩
      · rw [Ledger.hear, hheard]
        simp [Signal.isDown]
      · rw [watcher?_update_const hc', ← hr]
        split
        next heq =>
          refine Eq.trans ?_ (hnone a)
          rw [watcher?_eq hc]
          rfl
        next => exact hnone p
      · rw [watchee?_update_const hc', if_pos rfl, ← hr]
        exact Dict.get?_erase_self _ _
      · rw [watchee?_update_const hc', ← hr] at hw
        split at hw
        next heq => exact heq
        next => exact h.owner p w hw
    · exact absurd hsig (by simp)

/-- A signal is handled. -/
theorem Watch.handle (h : Watch a b r l n) (hs : n.queue.signals = d :: q.signals)
    (hrec : (n.watcher? r b).isSome = true → l.recorded)
    (hdeath : ∀ c reason, n.process? d.target = some c → c.isAlive = true →
      d.signal = .exit reason → c.traps reason = false →
      (d.target, Reason.recorded reason) ∈ l.deaths) :
    Watch a b r (l.hear r (if n.lives d.target = true then [d] else []))
      ((n.withQueue q).handle d) := by
  have hsilent : d.signal.isDown r = false →
      l.hear r (if n.lives d.target = true then [d] else []) = l := by
    intro hnot
    refine l.hear_of_not_down fun e he => ?_
    split at he
    next =>
      rw [List.mem_singleton.mp he]
      exact hnot
    next => exact absurd he List.not_mem_nil
  -- Three kinds of signal carry the reference.
  by_cases hd : d.signal.ref? = some r
  · rcases ref?_eq_some_iff.mp hd with hsig | hsig | ⟨reason, hsig⟩
    · rw [hsilent (by rw [hsig]; rfl)]
      exact h.handle_monitor hs hsig
    · rw [hsilent (by rw [hsig]; rfl)]
      exact h.handle_demonitor hs hsig
    · exact h.handle_down hs hsig
  · rw [hsilent]
    · exact h.handle_other hs hd hrec hdeath
    · rcases hsig : d.signal with m | _ | _ | ref | ref | reason | ⟨ref, reason⟩ <;> try rfl
      refine decide_eq_false fun heq => hd ?_
      rw [hsig, heq]
      rfl

end Node

end Actors
