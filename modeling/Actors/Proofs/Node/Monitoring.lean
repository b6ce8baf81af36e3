import Actors.Proofs.Node.MonitorStages
import Actors.Proofs.Node.References

/-!
# A Monitor Reports Once

What becomes of a monitor in a run. Whatever is done to a node, in whatever
order, at most one notice of a monitor is handled by a living process. It is
handled by the watcher, comes from the watched process, and gives the reason
that the watched process reports, or that there is no such process. When no
signal waits, a living watcher whose monitor was not ended has handled it.

## Main definitions

* `Node.Opens`: An operation that makes a monitor.
* `Node.notices`: The notices of a monitor that living processes handle.
* `Node.ledger`: What a run shows of a monitor.
* `Node.Reports`: What a run may show of a monitor, and what it must.

## Theorems

* `Watch.demonitor`, `Watch.die`, `Watch.letGo`, `Watch.handleInHand`: The
  operations that can end a stage.
* `watch_step`, `watch_run`: Every operation keeps `Watch`.
* `watch_opens`: It holds when the monitor is made.
* `watch_of_opens`: It holds at the end of every run in which one was made.
* `reports_of_opens`: A monitor reports at most once, and once if it has to.
-/

namespace Actors

namespace Node

/-- An operation makes one process watch another under a reference. -/
inductive Opens (n : Node) (a b : Pid) (r : Ref) : NodeOp → Prop
  | monitor (hr : (n.monitor a b).1 = r) : Opens n a b r (.monitor a b)
  | spawnMonitor (hr : (n.spawnMonitor a).1 = .ok (b, r)) : Opens n a b r (.spawnMonitor a)

/-- The notices of a monitor that living processes handle in a run. -/
def notices (n : Node) (r : Ref) (ops : List NodeOp) : List Delivery :=
  (n.collect attends ops).filter fun d => d.signal.isDown r

/-- What a run shows of a monitor. -/
def ledger (n : Node) (a b : Pid) (r : Ref) (ops : List NodeOp) : Ledger where
  heard := n.notices r ops
  deaths := n.collect deaths ops
  recorded := ∃ m ∈ n.states ops, (m.watcher? r b).isSome = true
  demonitored := .demonitor a r ∈ ops

variable {a b : Pid} {r : Ref} {l : Ledger} {n n' : Node}

/-! ## Operations -/

/-- The watcher asks for the end of the monitor. Others cannot, since they do not know of it. -/
theorem Watch.demonitor (h : Watch a b r l n) {w : Pid} (hl : w = a → l.demonitored) :
    Watch a b r l (n.demonitor w r) := by
  rcases hw : n.watchee? r w with _ | watchee
  · rw [demonitor_of_watchee?_none hw]
    exact h
  · have hend := hl (h.owner w watchee hw)
    have hage : n.Ages (n.demonitor w r) := ages_step h.coherent (.demonitor w r)
    have hcoh : (n.demonitor w r).Coherent := coherent_step h.coherent (.demonitor w r)
    rcases demonitor_cases n w r with hd | ⟨c, watchee', hc, -, hd⟩ <;> rw [hd] at hage hcoh ⊢
    · exact h
    · have hc' := (lookup_eq_some hc).2
      have hforget := rests_forgetMonitor r n w
      refine h.keep hage hcoh ?_ hforget.watcher hforget.watchee fun _ _ _ => hend
      -- What is queued is the request itself.
      rw [Node.pending, about_queueAll, List.filter_append, ← Node.pending, hforget.pending]
      have hnil : (((n.deliveries w (.demonitor r) (.pid watchee')).filter
          fun d => d.signal.ref? = some r).filter fun d => !d.signal.isDemonitor) = [] := by
        refine List.filter_eq_nil_iff.mpr fun d hd' => ?_
        rw [List.mem_filter, decide_eq_true_iff] at hd'
        rcases (mem_deliveries hd'.1).2.2 with hs | ⟨m, hs⟩
        · rw [hs]
          simp [Signal.isDemonitor]
        · rw [hs] at hd'
          exact absurd hd'.2 (by simp [Signal.ref?])
      rw [hnil, List.append_nil]

/-- More of a run is known. A death that is new is one of a living process. -/
theorem Watch.extend (h : Watch a b r l n) (deaths : List (Pid × Term)) (demonitored : Prop)
    (hdeaths : ∀ reason, (b, reason) ∈ deaths → n.lives b = true) :
    Watch a b r { l with deaths := l.deaths ++ deaths, demonitored := l.demonitored ∨ demonitored }
      n := by
  have hwhy : ∀ reason, l.Explains b reason → Ledger.Explains
      { l with deaths := l.deaths ++ deaths, demonitored := l.demonitored ∨ demonitored }
      b reason := by
    intro reason hwhy
    rcases hwhy with ⟨hrec, hmem⟩ | hnot
    · exact Or.inl ⟨hrec, List.mem_append_left deaths hmem⟩
    · exact Or.inr hnot
  refine ⟨h.coherent, h.watcher, h.watchee, ?_, h.owner,
    fun d hd hend => Or.inl (h.ended d hd hend)⟩
  cases h.stage with
  | asked hheard hrec hq hw => exact .asked hheard hrec hq hw
  | recorded hheard hq hw => exact .recorded hheard hq hw
  | told reason hr hheard hq hw => exact .told reason (hwhy reason hr) hheard hq hw
  | heard reason hr hheard hq hw hfree => exact .heard reason (hwhy reason hr) hheard hq hw hfree
  | void hheard hq hw hv =>
      refine .void hheard hq hw ?_
      rcases hv with hend | hdead | ⟨hgone, hnot⟩
      · exact Or.inl (Or.inl hend)
      · exact Or.inr (Or.inl hdead)
      · refine Or.inr (Or.inr ⟨hgone, fun reason hmem => ?_⟩)
        rcases List.mem_append.mp hmem with hmem | hmem
        · exact hnot reason hmem
        · -- Who is not there cannot have ended just now.
          have hlive := hdeaths reason hmem
          rw [Node.lives, hgone] at hlive
          exact absurd hlive (by simp)

/-- The state is noted. -/
theorem Watch.note (h : Watch a b r l n) :
    Watch a b r { l with recorded := l.recorded ∨ (n.watcher? r b).isSome = true } n := by
  -- Where nobody is on record now, noting the state changes nothing.
  have hrec : n.watcher? r b = none →
      (l.recorded ∨ (n.watcher? r b).isSome = true ↔ l.recorded) := by
    intro hnone
    rw [hnone]
    simp
  have hwhy : n.watcher? r b = none → ∀ reason, l.Explains b reason → Ledger.Explains
      { l with recorded := l.recorded ∨ (n.watcher? r b).isSome = true } b reason := by
    intro hnone reason hwhy
    rcases hwhy with ⟨hyes, hmem⟩ | ⟨hno, heq⟩
    · exact Or.inl ⟨Or.inl hyes, hmem⟩
    · exact Or.inr ⟨fun h => hno ((hrec hnone).mp h), heq⟩
  refine ⟨h.coherent, h.watcher, h.watchee, ?_, h.owner, h.ended⟩
  cases h.stage with
  | asked hheard hno hq hw => exact .asked hheard (fun h => hno ((hrec (hw b)).mp h)) hq hw
  | recorded hheard hq hw => exact .recorded hheard hq hw
  | told reason hr hheard hq hw => exact .told reason (hwhy (hw b) reason hr) hheard hq hw
  | heard reason hr hheard hq hw hfree =>
      exact .heard reason (hwhy (hw b) reason hr) hheard hq hw hfree
  | void hheard hq hw hv => exact .void hheard hq hw hv

theorem attends_of_ne {op : NodeOp} (h : op ≠ .handleInHand) : n.attends op = [] := by
  cases op with
  | handleInHand => exact absurd rfl h
  | _ => rfl

theorem ledger_concat (n : Node) (a b : Pid) (r : Ref) (ops : List NodeOp) (op : NodeOp) :
    n.ledger a b r (ops ++ [op]) =
      { heard := (n.ledger a b r ops).heard ++
          ((n.run ops).attends op).filter fun d => d.signal.isDown r
        deaths := (n.ledger a b r ops).deaths ++ (n.run ops).deaths op
        recorded := (n.ledger a b r ops).recorded ∨
          ((n.run (ops ++ [op])).watcher? r b).isSome = true
        demonitored := (n.ledger a b r ops).demonitored ∨ NodeOp.demonitor a r = op } := by
  have hlast : ∀ {α : Type} (f : Node → NodeOp → List α) (m : Node), m.collect f [op] = f m op :=
    fun f m => List.append_nil (f m op)
  simp only [ledger, notices, collect_append, hlast, List.filter_append, states_concat,
    List.mem_append, List.mem_singleton, or_and_right, exists_or, exists_eq_left]

/-- A process ends by itself. -/
theorem Watch.die (h : Watch a b r l n) {p : Pid} {reason : Term}
    (hrec : (n.watcher? r b).isSome = true → l.recorded)
    (hnew : ∀ e ∈ n.deaths (.die p reason), e ∈ l.deaths) :
    Watch a b r l (n.step (.die p reason)) := by
  rw [step]
  rcases die_cases n p reason with ⟨hd, -⟩ | ⟨c, hc, ha, hd⟩ <;> rw [hd]
  · exact h
  · exact h.fall hc ha rfl (hnew _ (mem_deaths_die.mpr ⟨lives_of hc ha, rfl, rfl⟩)) hrec

/-- A process is let go of, and forgotten if that was the last hold on it. -/
theorem Watch.letGo (h : Watch a b r l n) (p : Pid)
    (hfallen : ∀ reason, (b, reason) ∈ l.deaths → n.lives b = false) :
    Watch a b r l (n.step (.letGo p)) := by
  rw [step]
  have hdrop := h.rests (rests_loosen r n p) (ages_loosen n p) h.coherent.loosen
  refine hdrop.reclaim (fun reason hmem => ?_) p
  rw [lives_loosen]
  exact hfallen reason hmem

/-- The next signal is handled. -/
theorem Watch.handleInHand (h : Watch a b r l n)
    (hrec : (n.watcher? r b).isSome = true → l.recorded)
    (hnew : ∀ e ∈ n.deaths .handleInHand, e ∈ l.deaths)
    (hfallen : ∀ reason, (b, reason) ∈ l.deaths →
      n.lives b = false ∨ (b, reason) ∈ n.deaths .handleInHand) :
    Watch a b r (l.hear r (n.attends .handleInHand)) (n.step .handleInHand) := by
  rw [step]
  rcases handleInHand_cases n with ⟨hnil, hi⟩ | ⟨d, q, hq, hs, hi⟩ <;> rw [hi]
  · have hnone : n.queue.next? = none := by rw [Dispatcher.next?, hnil]
    have hquiet : n.attends .handleInHand = [] := by rw [attends, hnone]
    rw [hquiet, Ledger.hear_nil]
    exact h
  · have hattends : n.attends .handleInHand = if n.lives d.target = true then [d] else [] := by
      rw [attends, hq]
    rw [hattends]
    refine (h.handle hs hrec fun c reason hc ha hsig ht => hnew _ ?_).reclaim
      (fun reason hmem => ?_) d.target
    · rw [deaths_handleInHand hq hc ha hsig ht]
      exact List.mem_singleton.mpr rfl
    · -- Who is known to have ended is not alive after the signal, when its target is let go.
      rcases hfallen reason hmem with hdead | hdeath
      · have hage := (ages_withQueue n q).trans
          (ages_handle _ (h.coherent.next hs).table d)
        exact dead_of_ages hage h.watchee hdead
      · rw [Bool.eq_false_iff]
        intro hl
        rcases lives_iff.mp hl with ⟨c, hc, ha⟩
        rw [Process.isAlive_iff, life_of_handle hq hdeath hc] at ha
        exact absurd ha (by simp)

/-- Every operation keeps what holds of a monitor, unless it makes the reference
    again or is a signal about the monitor sent directly. -/
theorem watch_step {n₀ : Node} (hn₀ : n₀.Coherent) {ops : List NodeOp}
    (h : Watch a b r (n₀.ledger a b r ops) (n₀.run ops)) {op : NodeOp}
    (hmake : r ∉ (n₀.run ops).makes op) (hraw : op.injects r = false) :
    Watch a b r (n₀.ledger a b r (ops ++ [op])) (n₀.run (ops ++ [op])) := by
  rw [ledger_concat, run_append, run_cons, run_nil]
  -- Of the run so far only this much counts.
  have hrec : ((n₀.run ops).watcher? r b).isSome = true → (n₀.ledger a b r ops).recorded :=
    fun hsome => ⟨n₀.run ops, mem_states_run n₀ ops, hsome⟩
  have hfallen : ∀ reason, (b, reason) ∈ (n₀.ledger a b r ops).deaths →
      (n₀.run ops).lives b = false := fun reason hmem => not_lives_of_deaths hn₀ hmem
  generalize n₀.run ops = n at h hmake hrec hfallen ⊢
  generalize n₀.ledger a b r ops = l at h hrec hfallen ⊢
  have h₁ := h.extend (n.deaths op) (NodeOp.demonitor a r = op) fun _ hmem => lives_of_deaths hmem
  have hnew : ∀ e ∈ n.deaths op, e ∈ l.deaths ++ n.deaths op :=
    fun e he => List.mem_append_right _ he
  suffices hstep : Watch a b r (Ledger.hear { l with
      deaths := l.deaths ++ n.deaths op
      demonitored := l.demonitored ∨ NodeOp.demonitor a r = op } r (n.attends op)) (n.step op) from
    hstep.note
  -- Plain operations leave the monitor alone, but for a request to end it.
  by_cases hop : op.isPlain = true
  · have hne : op ≠ .handleInHand := by
      rintro rfl
      exact absurd hop (by simp [NodeOp.isPlain])
    rw [attends_of_ne hne, Ledger.hear_nil]
    by_cases hend : ∃ w, op = .demonitor w r
    · rcases hend with ⟨w, rfl⟩
      exact h₁.demonitor fun hw => Or.inr (by rw [hw])
    · exact h₁.rests (rests_step h.coherent hop hmake hraw fun w hw => hend ⟨w, hw⟩)
        (ages_step h.coherent op) (coherent_step h.coherent op)
  · cases op with
    | die p reason =>
        rw [attends_of_ne (by simp), Ledger.hear_nil]
        exact h₁.die hrec hnew
    | letGo p =>
        rw [attends_of_ne (by simp), Ledger.hear_nil]
        exact h₁.letGo p fun reason hmem =>
          hfallen reason ((List.mem_append.mp hmem).resolve_right List.not_mem_nil)
    | handleInHand =>
        exact h₁.handleInHand hrec hnew fun reason hmem =>
          (List.mem_append.mp hmem).imp_left (hfallen reason)
    | _ => exact absurd rfl hop

/-! ## A monitor is made -/

@[simp] theorem watcher?_track (n : Node) (w : Pid) (ref : Ref) (watchee q : Pid) :
    (n.track w ref watchee).watcher? r q = n.watcher? r q := by
  rcases track_cases n w ref watchee with ht | ht <;> rw [ht]
  rw [watcher?, process?_update]
  split
  next heq =>
    rw [watcher?, heq]
    rcases n.process? w with _ | c
    · rfl
    · rw [Option.map_some, Option.bind_some, Process.trackMonitor]
      split <;> rfl
  next => rfl

theorem watchee?_track {w q watchee x : Pid} {ref : Ref}
    (h : (n.track w ref watchee).watchee? r q = some x) : q = w ∨ n.watchee? r q = some x := by
  rcases track_cases n w ref watchee with ht | ht <;> rw [ht] at h
  · exact Or.inr h
  · rw [watchee?, process?_update] at h
    split at h
    next heq => exact Or.inl heq
    next => exact Or.inr h

@[simp] theorem about_track (n : Node) (w : Pid) (ref : Ref) (watchee : Pid) :
    (n.track w ref watchee).about r = n.about r := by
  rcases track_cases n w ref watchee with ht | ht <;> rw [ht]
  rfl

/-- A request to watch a living process is queued, and for all others the notice
    is, if the watcher is alive to get it. -/
theorem monitorDeliveries_eq (h : n.Coherent) (ha : a.isLocal = true) (hb : b.isLocal = true) :
    n.monitorDeliveries a b r =
      if n.lives b = true then [⟨b, a, .monitor r⟩]
      else if n.lives a = true then [⟨a, b, .down r Reason.noproc⟩] else [] := by
  rw [monitorDeliveries, resolve, resolvePid, if_pos hb, h.isSome_lookup]
  -- An address that does not resolve is one of a process that is not alive.
  split
  next e he =>
    split at he
    next => exact absurd he (by simp)
    next hdead =>
      rw [Except.error.injEq] at he
      rw [if_neg hdead, ← he]
      exact h.deliveries_of_isLocal ha b (.down r Reason.noproc)
  next hok =>
    split at hok
    next hlive =>
      rw [if_pos hlive]
      exact h.deliveries_of_lives hlive a (.monitor r)
    next => exact absurd hok (by simp)

/-- A request to watch a process is made. -/
theorem watch_monitor (h : n.Coherent) (habsent : Absent r n) (ha : n.Issued a) (hb : n.Issued b)
    (hr : (n.monitor a b).1 = r) (hheard : l.heard = [])
    (hrec : (n.monitor a b).2.watcher? r b = none → ¬ l.recorded) :
    Watch a b r l (n.monitor a b).2 := by
  have hage : n.Ages (n.monitor a b).2 := ages_step h (.monitor a b)
  have hcoh : (n.monitor a b).2.Coherent := coherent_step h (.monitor a b)
  rw [monitor_eq] at hr hrec hage hcoh ⊢
  rw [show n.nextRef = r from hr] at hrec hage hcoh ⊢
  have hwatcher : ∀ q,
      ((n.countRef.track a r b).queueAll (n.monitorDeliveries a b r)).watcher? r q = none :=
    fun q => (watcher?_track n.countRef a r b q).trans (habsent.watcher q)
  have howner : ∀ q w,
      ((n.countRef.track a r b).queueAll (n.monitorDeliveries a b r)).watchee? r q = some w →
        q = a := by
    intro q w hq
    rcases watchee?_track hq with heq | hw
    · exact heq
    · exact absurd hw (by rw [show n.countRef.watchee? r q = none from habsent.watchee q]; simp)
  -- Nothing was queued about the monitor before, so what is queued now is all there is.
  have habout : ((n.countRef.track a r b).queueAll (n.monitorDeliveries a b r)).about r =
      (n.monitorDeliveries a b r).filter fun d => d.signal.ref? = some r := by
    rw [about_queueAll, about_track, show n.countRef.about r = [] from habsent.about,
      List.nil_append]
  have hno := hrec (hwatcher b)
  refine ⟨hcoh, ha.ages hage, hb.ages hage, ?_, howner, fun d hd hend => ?_⟩
  · rw [monitorDeliveries_eq h ha.1 hb.1] at habout hwatcher hage ⊢
    by_cases hlive : n.lives b = true
    · rw [if_pos hlive] at habout hwatcher ⊢
      -- The watched process is there, and the request is queued.
      refine .asked hheard hno ?_ hwatcher
      rw [Node.pending, habout]
      simp [Signal.ref?, Signal.isDemonitor]
    · rw [if_neg hlive] at habout hwatcher hage ⊢
      by_cases halive : n.lives a = true
      · rw [if_pos halive] at habout hwatcher ⊢
        -- It is not, and the watcher is told so.
        refine .told Reason.noproc (Or.inr ⟨hno, rfl⟩) hheard ?_ hwatcher
        rw [Node.pending, habout]
        simp [Signal.ref?, Signal.isDemonitor]
      · rw [if_neg halive] at habout hwatcher hage ⊢
        -- The watcher is dead itself.
        refine .void hheard ?_ hwatcher (Or.inr (Or.inl ?_))
        · rw [Node.pending, habout]
          rfl
        · exact dead_of_ages hage ha (Bool.not_eq_true _ ▸ halive)
  · rw [habout, monitorDeliveries_eq h ha.1 hb.1, List.mem_filter] at hd
    split at hd
    · rw [List.mem_singleton.mp hd.1] at hend
      exact absurd hend (by simp)
    · split at hd
      · rw [List.mem_singleton.mp hd.1] at hend
        exact absurd hend (by simp)
      · exact absurd hd.1 List.not_mem_nil

/-- A process that is made to be watched has the watcher on record from the start. -/
theorem watch_spawnMonitor (h : n.Coherent) (habsent : Absent r n) (ha : n.Issued a)
    (hr : (n.spawnMonitor a).1 = .ok (b, r)) (hheard : l.heard = []) :
    Watch a b r l (n.spawnMonitor a).2 := by
  have hage : n.Ages (n.spawnMonitor a).2 := ages_step h (.spawnMonitor a)
  have hcoh : (n.spawnMonitor a).2.Coherent := coherent_step h (.spawnMonitor a)
  have hgiven : b ∈ n.issues (.spawnMonitor a) := by
    rw [issues, hr]
    exact List.mem_singleton.mpr rfl
  have hb : (n.spawnMonitor a).2.Issued b := issued_of_issues h hgiven
  rcases spawnMonitor_cases n a with he | ⟨p, n₁, hm, he⟩
  · rw [he] at hr
    exact absurd hr (by simp)
  · rw [he] at hr hage hcoh hb ⊢
    rw [Except.ok.injEq, Prod.mk.injEq] at hr
    rcases hr with ⟨rfl, hr⟩
    rw [hr] at hage hcoh hb ⊢
    rcases move_makeProcess (K := fun _ => False) hm with ⟨hmove, hp⟩
    -- The birth knows nothing of the reference, which is made after it.
    have hempty := (rests_move (r := r) hmove h id).absent habsent
    have hp' : n₁.countRef.process? p = some .fresh := hp
    refine ⟨hcoh, ha.ages hage, hb, .recorded hheard ?_ fun q => ?_, fun q w hq => ?_,
      fun d hd hend => ?_⟩
    · rw [Node.pending, about_track]
      exact congrArg _ hempty.about
    · rw [watcher?_track, watcher?, process?_update]
      split
      next heq =>
        rw [heq, hp', Option.map_some, Option.bind_some, Dict.get?_insert, if_pos rfl]
      next => exact hempty.watcher q
    · rcases watchee?_track hq with heq | hw
      · exact heq
      · rw [watchee?, process?_update] at hw
        split at hw
        next heq =>
          rw [heq, hp', Option.map_some, Option.bind_some] at hw
          exact absurd hw (by simp [Process.fresh])
        next =>
          have hnone := hempty.watchee q
          exact absurd (hnone.symm.trans hw) (by simp)
    · rw [about_track] at hd
      have hnil : d ∈ n₁.about r := hd
      rw [hempty.about] at hnil
      exact absurd hnil List.not_mem_nil

/-- The operation that makes a monitor. -/
theorem watch_opens {n₀ : Node} (hn₀ : n₀.Coherent) {before : List NodeOp}
    (habsent : ∀ m ∈ n₀.states before, Absent r m)
    (hquiet : ∀ d ∈ n₀.collect attends before, d.signal.ref? ≠ some r) {op : NodeOp}
    (hop : (n₀.run before).Opens a b r op) (ha : (n₀.run before).Issued a)
    (hb : b ∈ n₀.collect issues (before ++ [op])) :
    Watch a b r (n₀.ledger a b r (before ++ [op])) (n₀.run (before ++ [op])) := by
  have hcoh := coherent_run hn₀ before
  have hheard : (n₀.ledger a b r (before ++ [op])).heard = [] := by
    have hne : op ≠ .handleInHand := by cases hop <;> simp
    rw [ledger_concat, attends_of_ne hne, List.filter_nil, List.append_nil]
    refine List.filter_eq_nil_iff.mpr fun d hd hdown => hquiet d hd ?_
    rcases hs : d.signal with m | _ | _ | ref | ref | reason | ⟨ref, reason⟩ <;> rw [hs] at hdown
    case down => rw [of_decide_eq_true hdown]; rfl
    all_goals exact absurd hdown (by simp [Signal.isDown])
  have hrec : (n₀.run (before ++ [op])).watcher? r b = none →
      ¬ (n₀.ledger a b r (before ++ [op])).recorded := by
    intro hnone
    -- Before the reference was made nobody had it on record.
    rw [ledger_concat, hnone]
    rintro (⟨m, hm, hsome⟩ | hsome)
    · rw [(habsent m hm).watcher b] at hsome
      exact absurd hsome (by simp)
    · exact absurd hsome (by simp)
  have hlast := habsent _ (mem_states_run n₀ before)
  have hstep : n₀.run (before ++ [op]) = (n₀.run before).step op := by
    rw [run_append, run_cons, run_nil]
  cases hop with
  | monitor hr =>
      have hb' : (n₀.run before).Issued b := by
        refine issued_of_collect hn₀ ?_
        rw [collect_append, List.mem_append] at hb
        exact hb.resolve_right List.not_mem_nil
      rw [hstep] at hrec ⊢
      exact watch_monitor hcoh hlast ha hb' hr hheard hrec
  | spawnMonitor hr =>
      rw [hstep]
      exact watch_spawnMonitor hcoh hlast ha hr hheard

theorem watch_run {n₀ : Node} (hn₀ : n₀.Coherent) {ops : List NodeOp}
    (h : Watch a b r (n₀.ledger a b r ops) (n₀.run ops)) {after : List NodeOp}
    (hmake : r ∉ (n₀.run ops).collect makes after) (hraw : ∀ op ∈ after, op.injects r = false) :
    Watch a b r (n₀.ledger a b r (ops ++ after)) (n₀.run (ops ++ after)) := by
  induction after generalizing ops with
  | nil => rwa [List.append_nil]
  | cons op rest ih =>
      rw [collect, List.mem_append, not_or] at hmake
      have hstep := watch_step hn₀ h hmake.1 (hraw op List.mem_cons_self)
      rw [List.append_cons]
      refine ih hstep ?_ fun op' hop' => hraw op' (List.mem_cons_of_mem op hop')
      rw [run_append, run_cons, run_nil]
      exact hmake.2

/-! ## What a monitor reports -/

/-- What a run may show of a monitor of `b` by `a`, and what it must. -/
structure Reports (n : Node) (a b : Pid) (r : Ref) (ops : List NodeOp) : Prop where
  /-- At most one notice is handled by a living process: by the watcher, from the
      watched process. -/
  once : n.notices r ops = [] ∨ ∃ reason, n.notices r ops = [⟨a, b, .down r reason⟩]
  /-- It gives the reason the watched process reports, if that had the watcher on record. -/
  recorded : ∀ reason, ⟨a, b, .down r reason⟩ ∈ n.notices r ops →
    (∃ m ∈ n.states ops, (m.watcher? r b).isSome = true) →
    (b, reason) ∈ n.collect deaths ops ∧
      ∀ c, (n.run ops).process? b = some c → c.exitReason = some reason
  /-- Otherwise it says that there is no such process. -/
  unrecorded : ∀ reason, ⟨a, b, .down r reason⟩ ∈ n.notices r ops →
    (∀ m ∈ n.states ops, m.watcher? r b = none) → reason = Reason.noproc
  /-- When no signal waits, a living watcher that did not end the monitor has
      handled the notice of the end of the watched process, and forgot the monitor. -/
  settled : (n.run ops).queue.signals = [] → (n.run ops).lives a = true →
    (∃ reason, (b, reason) ∈ n.collect deaths ops) → NodeOp.demonitor a r ∉ ops →
    (∃ reason, n.notices r ops = [⟨a, b, .down r reason⟩]) ∧ (n.run ops).watchee? r a = none

/-- The notices that were handled, and why. -/
theorem Watch.heard_cases (h : Watch a b r l n) :
    l.heard = [] ∨ ∃ reason, l.heard = [⟨a, b, .down r reason⟩] ∧ l.Explains b reason := by
  cases h.stage with
  | asked hheard => exact Or.inl hheard
  | recorded hheard => exact Or.inl hheard
  | told _ _ hheard => exact Or.inl hheard
  | heard reason hwhy hheard => exact Or.inr ⟨reason, hheard, hwhy⟩
  | void hheard => exact Or.inl hheard

theorem Watch.reports {ops : List NodeOp} (hn : n.Coherent)
    (h : Watch a b r (n.ledger a b r ops) (n.run ops)) : n.Reports a b r ops := by
  have hwhy : ∀ reason, ⟨a, b, .down r reason⟩ ∈ n.notices r ops →
      (n.ledger a b r ops).Explains b reason := by
    intro reason hmem
    change _ ∈ (n.ledger a b r ops).heard at hmem
    rcases h.heard_cases with hnil | ⟨reason', hone, hwhy⟩
    · rw [hnil] at hmem
      exact absurd hmem List.not_mem_nil
    · rw [hone, List.mem_singleton, Delivery.mk.injEq, Signal.down.injEq] at hmem
      rw [hmem.2.2.2]
      exact hwhy
  refine ⟨?_, fun reason hmem hrec => ?_, fun reason hmem hnone => ?_,
    fun hquiet ha hdead hkept => ?_⟩
  · -- At most one notice, whatever the stage.
    rcases h.heard_cases with hnil | ⟨reason, hone, -⟩
    · exact Or.inl hnil
    · exact Or.inr ⟨reason, hone⟩
  · -- With the watcher on record the reason is that of the end.
    rcases hwhy reason hmem with ⟨-, hdeath⟩ | ⟨hnot, -⟩
    · refine ⟨hdeath, fun c hc => ?_⟩
      rw [Process.exitReason, life_of_collect_deaths hn hdeath hc]
    · exact absurd hrec hnot
  · -- Without, it is that there is no such process.
    rcases hwhy reason hmem with ⟨⟨m, hm, hsome⟩, -⟩ | ⟨-, hreason⟩
    · rw [hnone m hm] at hsome
      exact absurd hsome (by simp)
    · exact hreason
  · -- With an empty queue only the last stage and the void are left.
    have hnil : (n.run ops).pending r = [] := by rw [Node.pending, about, hquiet]; rfl
    rcases hdead with ⟨reason, hdeath⟩
    have hgone := not_lives_of_deaths hn hdeath
    cases h.stage with
    | asked _ _ hq =>
        rw [hq] at hnil
        exact absurd hnil (by simp)
    | recorded _ _ hw =>
        have hb := hw b
        rw [if_pos rfl] at hb
        rw [h.coherent.lives_of_watcher? hb] at hgone
        exact absurd hgone (by simp)
    | told _ _ _ hq =>
        rw [hq] at hnil
        exact absurd hnil (by simp)
    | heard reason' _ hheard _ _ hfree => exact ⟨⟨reason', hheard⟩, hfree⟩
    | void _ _ _ hv =>
        rcases hv with hend | hdead' | ⟨-, hnot⟩
        · exact absurd hend hkept
        · rw [ha] at hdead'
          exact absurd hdead' (by simp)
        · exact absurd hdeath (hnot reason)

/-- The operation that makes a monitor makes its reference. -/
theorem Opens.makes {op : NodeOp} (hop : n.Opens a b r op) : r ∈ n.makes op := by
  cases hop with
  | monitor hr => exact List.mem_singleton.mpr hr.symm
  | spawnMonitor hr =>
      rw [Node.makes, hr]
      exact List.mem_singleton.mpr rfl

/-- What holds at the end of a run in which a monitor was made. -/
theorem watch_of_opens {config : NodeConfig} {before after : List NodeOp} {op : NodeOp}
    (hop : ((new config).run before).Opens a b r op)
    (ha : a ∈ (new config).collect issues before)
    (hb : b ∈ (new config).collect issues (before ++ [op]))
    (hraw : ∀ op' ∈ before ++ op :: after, op'.injects r = false)
    (hcount : ((new config).collect makes (before ++ op :: after)).length ≤ UInt64.size) :
    Watch a b r ((new config).ledger a b r (before ++ op :: after))
      ((new config).run (before ++ op :: after)) := by
  have hn := coherent_new config
  -- The reference is made here and nowhere else, so nothing before or after is about it by chance.
  rcases made_once (nodup_makes hn hcount) hop.makes with ⟨hfresh, hnever⟩
  have hbefore : ∀ op' ∈ before, op'.injects r = false := fun op' hmem =>
    hraw op' (List.mem_append_left _ hmem)
  have hopens := watch_opens hn (absent_states hn (absent_new r config) hfresh hbefore)
    (ref?_ne_of_attends hn (absent_new r config) hfresh hbefore) hop (issued_of_collect hn ha) hb
  rw [List.append_cons] at hraw ⊢
  refine watch_run hn hopens ?_ fun op' hmem => hraw op' (List.mem_append_right _ hmem)
  rw [run_append, run_cons, run_nil]
  exact hnever

/-- A monitor of one process of the node by another reports at most once, and
    once if it has to, whatever else happens, in whatever order. Nobody may
    send signals about the monitor directly, and the counter of references must
    not come around. -/
theorem reports_of_opens {config : NodeConfig} {before after : List NodeOp} {op : NodeOp}
    (hop : ((new config).run before).Opens a b r op)
    (ha : a ∈ (new config).collect issues before)
    (hb : b ∈ (new config).collect issues (before ++ [op]))
    (hraw : ∀ op' ∈ before ++ op :: after, op'.injects r = false)
    (hcount : ((new config).collect makes (before ++ op :: after)).length ≤ UInt64.size) :
    (new config).Reports a b r (before ++ op :: after) :=
  (watch_of_opens hop ha hb hraw hcount).reports (coherent_new config)

/-- The first of two processes watches the second, which then ends. -/
theorem reports_of_pair :
    (new .standard).Reports (.ofSlot 1 0 0) (.ofSlot 2 0 0) (.ofCounter 0 0)
        ([.spawn, .spawn] ++ .monitor (.ofSlot 1 0 0) (.ofSlot 2 0 0) ::
          [.beginTurn, .handleInHand, .die (.ofSlot 2 0 0) Reason.shutdown, .beginTurn,
            .handleInHand]) ∧
      (new .standard).notices (.ofCounter 0 0)
        ([.spawn, .spawn] ++ .monitor (.ofSlot 1 0 0) (.ofSlot 2 0 0) ::
          [.beginTurn, .handleInHand, .die (.ofSlot 2 0 0) Reason.shutdown, .beginTurn,
            .handleInHand]) =
        [⟨.ofSlot 1 0 0, .ofSlot 2 0 0, .down (.ofCounter 0 0) Reason.shutdown⟩] := by
  constructor
  · exact reports_of_opens (.monitor (by decide)) (by decide) (by decide) (by decide) (by decide)
  · decide

end Node

end Actors
