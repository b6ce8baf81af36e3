import Actors.Proofs.Node.Ageing

/-!
# What a Node Holds About One Monitor

The state of a node, seen through one reference: the queued signals that are
about it, who watches whom under it, and nothing else. Nearly all operations
leave this view as it is. A monitor `Rests` while that is so, except that its
watcher may forget it, by a request or with everything else it knew.

Two things can do more to a monitor that nobody asks about. The death of a
watched process sends a notice, and a signal about the monitor is handled.

## Main definitions

* `Node.about`, `Node.pending`: The queued signals about a monitor.
* `Node.watcher?`, `Node.watchee?`: Who watches a process, and whom it watches.
* `Node.Rests`: A monitor is left alone.
* `Node.Absent`: There is no trace of a monitor.

## Theorems

* `rests_step`: Operations that do not ask about a monitor leave it alone.
* `rests_handle_cases`: What handling a signal about something else can do.
* `about_fall`: The notice that a death sends.
* `absent_states`: Before a reference is made there is no trace of its monitor.
-/

namespace Actors

/-- Whether an operation is a signal about a monitor that somebody sends directly. -/
def NodeOp.injects (r : Ref) : NodeOp → Bool
  | .signal _ s _ => s.ref? = some r
  | _ => false

/-- Whether a signal ends a monitor. -/
def Signal.isDemonitor : Signal → Bool
  | .demonitor _ => true
  | _ => false

namespace Node

/-- The queued signals about a monitor. -/
def about (n : Node) (r : Ref) : List Delivery :=
  n.queue.signals.filter fun d => d.signal.ref? = some r

/-- The queued signals that set a monitor up or report through it. -/
def pending (n : Node) (r : Ref) : List Delivery :=
  (n.about r).filter fun d => !d.signal.isDemonitor

/-- Who watches a process under a reference. -/
def watcher? (n : Node) (r : Ref) (q : Pid) : Option Pid :=
  (n.process? q).bind fun c => c.monitoredBy.get? r

/-- Whom a process watches under a reference. -/
def watchee? (n : Node) (r : Ref) (q : Pid) : Option Pid :=
  (n.process? q).bind fun c => c.monitors.get? r

/-- Nothing about a monitor changes, except that watchers may forget it. -/
structure Rests (r : Ref) (n n' : Node) : Prop where
  about : n'.about r = n.about r
  watcher : ∀ q, n'.watcher? r q = n.watcher? r q
  watchee : ∀ q w, n'.watchee? r q = some w → n.watchee? r q = some w

variable {K : Ref → Prop} {n n' n'' : Node} {r : Ref}

/-- Who watches a process that is there can be read off it. -/
theorem watcher?_eq {q : Pid} {c : Process} (hc : n.process? q = some c) :
    n.watcher? r q = c.monitoredBy.get? r := by
  rw [watcher?, hc, Option.bind_some]

/-- Whom it watches can be read off it too. -/
theorem watchee?_eq {q : Pid} {c : Process} (hc : n.process? q = some c) :
    n.watchee? r q = c.monitors.get? r := by
  rw [watchee?, hc, Option.bind_some]

/-- Only a living process is watched. -/
theorem Coherent.lives_of_watcher? (h : n.Coherent) {q w : Pid} (hw : n.watcher? r q = some w) :
    n.lives q = true := by
  rcases hc : n.process? q with _ | c
  · rw [watcher?, hc] at hw
    exact absurd hw (by simp)
  · by_cases ha : c.isAlive = true
    · exact lives_of hc ha
    · -- Who ended has nobody on record.
      rcases Process.life_of_not_alive (Bool.not_eq_true _ ▸ ha) with ⟨reason, hd⟩
      rw [watcher?_eq hc, ((h.sound q c hc).ended reason hd).monitoredBy] at hw
      exact absurd hw (by simp)

/-- A signal is about a monitor if it carries its reference. -/
theorem mem_about {d : Delivery} :
    d ∈ n.about r ↔ d ∈ n.queue.signals ∧ d.signal.ref? = some r := by
  rw [about, List.mem_filter, decide_eq_true_iff]

/-- Where nothing happens a monitor rests. -/
theorem Rests.refl (r : Ref) (n : Node) : Rests r n n := ⟨rfl, fun _ => rfl, fun _ _ h => h⟩

/-- It rests over two changes if it rests over each. -/
theorem Rests.trans (h : Rests r n n') (h' : Rests r n' n'') : Rests r n n'' :=
  ⟨h'.about.trans h.about, fun q => (h'.watcher q).trans (h.watcher q),
    fun q w hw => h.watchee q w (h'.watchee q w hw)⟩

/-! ## Single moves -/

/-- What is queued about a monitor stands behind what was queued about it. -/
theorem about_queueAll (n : Node) (ds : List Delivery) (r : Ref) :
    (n.queueAll ds).about r = n.about r ++ ds.filter fun d => d.signal.ref? = some r := by
  rw [about, signals_queueAll, List.filter_append, about]

/-- Signals about something else are queued. -/
theorem rests_queueAll {ds : List Delivery} (h : ∀ d ∈ ds, d.signal.ref? ≠ some r) :
    Rests r n (n.queueAll ds) := by
  refine ⟨?_, fun _ => rfl, fun _ _ hw => hw⟩
  have hnil : (ds.filter fun d => d.signal.ref? = some r) = [] :=
    List.filter_eq_nil_iff.mpr fun d hd => by simpa using h d hd
  rw [about_queueAll, hnil, List.append_nil]

/-- A process changes, and its two tables agree at the reference afterwards. -/
theorem rests_update {p : Pid} {f : Process → Process}
    (hf : ∀ c, n.process? p = some c → (f c).monitoredBy.get? r = c.monitoredBy.get? r ∧
      ∀ w, (f c).monitors.get? r = some w → c.monitors.get? r = some w) :
    Rests r n (n.update p f) := by
  refine ⟨rfl, fun q => ?_, fun q w hw => ?_⟩
  · -- First who watches, then whom it watches. In both only the changed process needs a look.
    by_cases hq : q = p
    · subst hq
      rcases hc : n.process? q with _ | c
      · rw [watcher?, watcher?, process?_update, if_pos rfl, hc]
        rfl
      · rw [watcher?_eq (process?_update_self hc f), watcher?_eq hc, (hf c hc).1]
    · rw [watcher?, watcher?, process?_update, if_neg hq]
  · by_cases hq : q = p
    · subst hq
      rcases hc : n.process? q with _ | c
      · rw [watchee?, process?_update, if_pos rfl, hc] at hw
        exact absurd hw (by simp)
      · rw [watchee?_eq (process?_update_self hc f)] at hw
        rw [watchee?_eq hc, (hf c hc).2 w hw]
    · rwa [watchee?, process?_update, if_neg hq] at hw

/-- A handle is dropped, which changes no table. -/
theorem rests_loosen (r : Ref) (n : Node) (p : Pid) : Rests r n (n.loosen p) :=
  rests_update fun _ _ => ⟨rfl, fun _ hw => hw⟩

/-- Who forgets a monitor learns of none. -/
theorem rests_forgetMonitor (r : Ref) (n : Node) (p : Pid) :
    Rests r n (n.update p fun c => { c with monitors := c.monitors.erase r }) := by
  refine rests_update fun c _ => ⟨rfl, fun w hw => ?_⟩
  exact absurd (Dict.get?_erase_self c.monitors r ▸ hw) (by simp)

/-- A move rests a monitor that it is not about, which is one outside of `K`. -/
theorem rests_move (hm : Move K n n') (h : n.Coherent) (hr : ¬ K r) : Rests r n n' := by
  cases hm with
  | queue ds hlives href => exact rests_queueAll fun d hd heq => hr (href d hd r heq)
  | edit p f hf =>
      refine rests_update fun c hc => ⟨(hf c hc).monitoredBy hr, fun w hw => ?_⟩
      rwa [(hf c hc).monitors hr] at hw
  | insert id serial table hi =>
      -- The newborn watches nobody and is watched by nobody.
      have hnone := h.process?_of_insert hi
      refine ⟨rfl, fun q => ?_, fun q w hw => ?_⟩
      · rw [watcher?, watcher?, process?_addProcess]
        split
        next hq =>
          rw [hq, hnone]
          rfl
        next => rfl
      · rw [watchee?, process?_addProcess] at hw
        split at hw
        next => exact absurd hw (by simp [Process.fresh])
        next => exact hw
  | beginTurn =>
      refine ⟨?_, fun _ => rfl, fun _ _ hw => hw⟩
      rw [about, about]
      exact congrArg _ (Dispatcher.signals_beginTurn n.queue)
  | _ => exact ⟨rfl, fun _ => rfl, fun _ _ hw => hw⟩

/-- So do any number of such moves. -/
theorem rests_moves (hs : Moves K n n') (h : n.Coherent) (hr : ¬ K r) : Rests r n n' :=
  hs.induction_coherent h (fun _ _ hm hmove hrest => hrest.trans (rests_move hmove hm hr))
    (.refl r n)

/-! ## A process ends -/

/-- What is sent about something else arrives as something else. -/
theorem ref?_ne_of_deliveries {sender : Pid} {s : Signal} {target : Dest} {d : Delivery}
    (hd : d ∈ n.deliveries sender s target) (hs : s.ref? ≠ some r) : d.signal.ref? ≠ some r := by
  rcases ref?_of_mem_deliveries hd with heq | heq <;> rw [heq]
  · exact hs
  · simp

/-- A signal for a process of this node reaches it if it is alive, and is dropped if not. -/
theorem Coherent.deliveries_of_isLocal (h : n.Coherent) {p : Pid} (hp : p.isLocal = true)
    (sender : Pid) (s : Signal) :
    n.deliveries sender s (.pid p) = if n.lives p = true then [⟨p, sender, s⟩] else [] := by
  split
  next hlive => exact h.deliveries_of_lives hlive sender s
  next hdead =>
    have hr : n.resolve (.pid p) = .error .noproc := by
      rw [resolve, resolvePid, if_pos hp, h.isSome_lookup, if_neg hdead]
    rw [deliveries, hr]

/-- The dead are not watched, and everybody else is watched as before. -/
theorem watcher?_fall (n : Node) (p q : Pid) (c : Process) (reason : Term) :
    (n.fall p c reason).watcher? r q = if q = p then none else n.watcher? r q := by
  rw [watcher?, process?_fall]
  split
  next => cases n.process? q <;> rfl
  next => rfl

/-- The dead do not watch, and everybody else watches as before. -/
theorem watchee?_fall (n : Node) (p q : Pid) (c : Process) (reason : Term) :
    (n.fall p c reason).watchee? r q = if q = p then none else n.watchee? r q := by
  rw [watchee?, process?_fall]
  split
  next => cases n.process? q <;> rfl
  next => rfl

/-- No end of a process makes another one watch. -/
theorem watchee?_of_fall {p q w : Pid} {c : Process} {reason : Term}
    (h : (n.fall p c reason).watchee? r q = some w) : n.watchee? r q = some w := by
  rw [watchee?_fall] at h
  split at h
  next => exact absurd h (by simp)
  next => exact h

/-- When the only process with a watcher on record ends, none is on record any more. -/
theorem watcher?_fall_eq_none {p : Pid} (h : ∀ q, q ≠ p → n.watcher? r q = none) (c : Process)
    (reason : Term) (q : Pid) : (n.fall p c reason).watcher? r q = none := by
  rw [watcher?_fall]
  split
  next => rfl
  next hne => exact h q hne

/-- The farewells about a monitor come from the one entry with its reference. -/
theorem filter_notices (n : Node) (p : Pid) (reason : Term) {entries : List (Ref × Pid)}
    (hnodup : (entries.map Prod.fst).Nodup) (r : Ref) :
    ((entries.flatMap fun e => n.deliveries p (.down e.1 reason) (.pid e.2)).filter
        fun d => d.signal.ref? = some r) =
      match entries.lookup r with
      | none => []
      | some w => (n.deliveries p (.down r reason) (.pid w)).filter
          fun d => d.signal.ref? = some r := by
  induction entries with
  | nil => rfl
  | cons e rest ih =>
      rcases e with ⟨ref, w⟩
      rw [List.map_cons, List.nodup_cons] at hnodup
      rw [List.flatMap_cons, List.filter_append, ih hnodup.2, List.lookup_cons]
      by_cases hr : r = ref
      · subst hr
        -- No other entry has this reference.
        have hnone : rest.lookup r = none :=
          (Dict.get?_eq_none_iff (d := ⟨rest, hnodup.2⟩)).mpr hnodup.1
        rw [hnone, beq_self_eq_true, List.append_nil]
      · -- A notice of another monitor says nothing about this one.
        have hnil : ((n.deliveries p (.down ref reason) (.pid w)).filter
            fun d => d.signal.ref? = some r) = [] := by
          refine List.filter_eq_nil_iff.mpr fun d hd => ?_
          have hne := ref?_ne_of_deliveries (r := r) hd fun heq => hr (Option.some.inj heq).symm
          simpa using hne
        rw [hnil, beq_eq_false_iff_ne.mpr hr, List.nil_append]

/-- The notice that a death sends about a monitor, if it is one of the dead process. -/
theorem about_fall (n : Node) (p : Pid) (c : Process) (reason : Term) (r : Ref) :
    (n.fall p c reason).about r = n.about r ++
      match c.monitoredBy.get? r with
      | none => []
      | some w => (n.deliveries p (.down r reason) (.pid w)).filter
          fun d => d.signal.ref? = some r := by
  rw [about, signals_fall, List.filter_append, farewellsOf, Process.farewells, List.flatMap_append,
    List.filter_append, List.flatMap_map, List.flatMap_map]
  -- Exit signals carry no reference.
  have hexits : ((c.links.toList.flatMap fun l => n.deliveries p (.exit reason) (.pid l)).filter
      fun d => d.signal.ref? = some r) = [] := by
    refine List.filter_eq_nil_iff.mpr fun d hd => ?_
    rcases List.mem_flatMap.mp hd with ⟨l, -, hd⟩
    have hne := ref?_ne_of_deliveries (r := r) hd (by simp [Signal.ref?])
    simpa using hne
  have hnotices := filter_notices n p reason c.monitoredBy.nodup r
  have hboth := congr (congrArg (· ++ ·) hexits) hnotices
  exact congrArg (n.about r ++ ·) (hboth.trans (List.nil_append _))

/-- The end of a process that is not watched under a reference. -/
theorem rests_fall {p : Pid} {c : Process} (hc : c.monitoredBy.get? r = none)
    (hp : n.watcher? r p = none) (reason : Term) : Rests r n (n.fall p c reason) := by
  refine ⟨?_, fun q => ?_, fun q w hw => watchee?_of_fall hw⟩
  · rw [about_fall, hc, List.append_nil]
  · rw [watcher?_fall]
    split
    next hq => rw [hq, hp]
    next => rfl

/-! ## A process is forgotten -/

/-- A process that nobody watches under the reference is forgotten. -/
theorem rests_forget {p : Pid} (hp : n.watcher? r p = none) : Rests r n (n.forget p) := by
  refine ⟨rfl, fun q => ?_, fun q w hw => ?_⟩
  · rw [watcher?, process?_forget]
    split
    next hq =>
      rw [hq, hp]
      rfl
    next => rfl
  · rw [watchee?, process?_forget] at hw
    split at hw
    next => exact absurd hw (by simp)
    next => exact hw

/-- Such a process may disappear for good. -/
theorem rests_reclaim {p : Pid} (hp : n.watcher? r p = none) : Rests r n (n.reclaim p) := by
  rcases reclaim_cases n p with ⟨hr, -⟩ | ⟨c, -, -, -, ⟨-, hr⟩ | ⟨-, hr⟩⟩ <;> rw [hr]
  · exact .refl r n
  · exact (rests_forget hp).trans ⟨rfl, fun _ => rfl, fun _ _ hw => hw⟩
  · exact rests_forget hp

/-! ## A signal is handled -/

/-- The signal in hand is the first about its monitor. -/
theorem about_of_next {q : Dispatcher} {d : Delivery} (hs : n.queue.signals = d :: q.signals)
    (hd : d.signal.ref? = some r) : n.about r = d :: (n.withQueue q).about r := by
  rw [about, hs, List.filter_cons_of_pos (by simpa using hd)]
  rfl

/-- A signal about something else is taken from the queue. -/
theorem rests_withQueue {q : Dispatcher} {d : Delivery} (hs : n.queue.signals = d :: q.signals)
    (hd : d.signal.ref? ≠ some r) : Rests r n (n.withQueue q) := by
  refine ⟨?_, fun _ => rfl, fun _ _ hw => hw⟩
  rw [about, about, hs, List.filter_cons_of_neg (by simpa using hd)]
  rfl

/-- A reaction to a signal about something else. -/
theorem reactAlive_of_ref?_ne {c c' : Process} {sender : Pid} {s : Signal}
    (h : c.reactAlive sender s = .become c') (hs : s.ref? ≠ some r) :
    c'.monitoredBy.get? r = c.monitoredBy.get? r ∧ c'.monitors.get? r = c.monitors.get? r := by
  -- The three signals about monitors write at their own reference, and all others write nothing
  -- about monitors.
  cases s with
  | exit reason =>
      rw [(Process.reactAlive_exit_become h).2]
      exact ⟨rfl, rfl⟩
  | monitor ref =>
      rw [Process.reactAlive, Process.Reaction.become.injEq] at h
      rw [← h]
      exact ⟨Dict.get?_insert_of_ne _ _ fun heq => hs (congrArg some heq.symm), rfl⟩
  | demonitor ref =>
      rw [Process.reactAlive, Process.Reaction.become.injEq] at h
      rw [← h]
      exact ⟨Dict.get?_erase_of_ne _ fun heq => hs (congrArg some heq.symm), rfl⟩
  | down ref reason =>
      rw [Process.reactAlive, Process.Reaction.become.injEq] at h
      rw [← h]
      exact ⟨rfl, Dict.get?_erase_of_ne _ fun heq => hs (congrArg some heq.symm)⟩
  | _ =>
      rw [Process.reactAlive, Process.Reaction.become.injEq] at h
      rw [← h]
      exact ⟨rfl, rfl⟩

/-- A signal about something else leaves a monitor alone, or it ends a process. -/
theorem rests_handle_cases {d : Delivery} (hd : d.signal.ref? ≠ some r) :
    Rests r n (n.handle d) ∨
    ∃ c reason, n.process? d.target = some c ∧ c.isAlive = true ∧ d.signal = .exit reason ∧
      c.traps reason = false ∧
      n.handle d = n.fall d.target { c with links := c.links.erase d.sender }
        (Reason.recorded reason) := by
  rcases hc : n.process? d.target with _ | c
  · rw [handle_of_none hc]
    exact Or.inl (.refl r n)
  · rcases handle_cases hc with ⟨-, hh⟩ | ⟨-, c', hr, hh⟩ | ⟨ha, reason, hs, ht, hh⟩
    · rw [hh]
      refine Or.inl (rests_queueAll fun e he => ?_)
      rw [answers] at he
      split at he
      next answer ha =>
        -- A dead process answers under the reference it was asked with.
        refine ref?_ne_of_deliveries he fun heq => hd ?_
        rcases hs : d.signal with m | _ | _ | ref | ref | reason | ⟨ref, reason⟩ <;>
          rw [hs] at ha <;> simp only [Process.answerTo, Option.some.injEq, reduceCtorEq] at ha <;>
          rw [← ha] at heq
        · exact absurd heq (by simp [Signal.ref?])
        · exact heq
      next => exact absurd he List.not_mem_nil
    · rw [hh]
      refine Or.inl (rests_update fun c₁ hc₁ => ?_)
      rw [hc, Option.some.injEq] at hc₁
      subst hc₁
      rcases reactAlive_of_ref?_ne hr hd with ⟨hby, hof⟩
      exact ⟨hby, fun w hw => by rwa [hof] at hw⟩
    · exact Or.inr ⟨c, reason, rfl, ha, hs, ht, hh⟩

/-! ## Operations -/

/-- An operation that does not ask for anything about a monitor is made of moves that
    are about others. -/
theorem moves_others (h : n.Coherent) {op : NodeOp} (hop : op.isPlain = true)
    (hmake : r ∉ n.makes op) (hraw : op.injects r = false) (hend : ∀ w, op ≠ .demonitor w r) :
    ∃ K : Ref → Prop, ¬ K r ∧ Moves K n (n.step op) := by
  have hmoves := moves_step h hop
  cases op with
  | signal sender s target =>
      refine ⟨_, fun hs => ?_, hmoves⟩
      have hs' : s.ref? = some r := hs
      exact absurd hs' (by simpa [NodeOp.injects] using hraw)
  | monitor watcher watchee =>
      refine ⟨_, fun hs => hmake ?_, hmoves⟩
      -- It is about the reference that it makes, which is not this one.
      rw [makes, monitor_eq, show r = n.nextRef from hs]
      exact List.mem_singleton.mpr rfl
  | spawnMonitor watcher =>
      rcases spawnMonitor_cases n watcher with he | ⟨p, n', -, he⟩
      · rw [step, he]
        exact ⟨fun _ => False, id, .none n⟩
      · refine ⟨_, fun hs => hmake ?_, hmoves⟩
        rw [makes, he, show r = n.nextRef from hs]
        exact List.mem_singleton.mpr rfl
  | demonitor watcher ref =>
      refine ⟨_, fun hs => hend watcher ?_, hmoves⟩
      rw [show r = ref from hs]
  | _ => exact ⟨_, fun hs => hs, hmoves⟩

/-- An operation that does not ask for anything about a monitor leaves it alone. -/
theorem rests_step (h : n.Coherent) {op : NodeOp} (hop : op.isPlain = true)
    (hmake : r ∉ n.makes op) (hraw : op.injects r = false) (hend : ∀ w, op ≠ .demonitor w r) :
    Rests r n (n.step op) := by
  rcases moves_others h hop hmake hraw hend with ⟨K, hr, hs⟩
  exact rests_moves hs h hr

/-- Ending a monitor that nobody has is no operation at all. -/
theorem demonitor_of_watchee?_none {w : Pid} (hw : n.watchee? r w = none) :
    n.demonitor w r = n := by
  rcases demonitor_cases n w r with hd | ⟨c, watchee, hc, hget, -⟩
  · exact hd
  · rw [watchee?_eq (lookup_eq_some hc).2, hget] at hw
    exact absurd hw (by simp)

/-! ## Before a monitor is made -/

/-- There is no trace of a monitor. -/
structure Absent (r : Ref) (n : Node) : Prop where
  about : n.about r = []
  watcher : ∀ q, n.watcher? r q = none
  watchee : ∀ q, n.watchee? r q = none

/-- In a new node there is no trace of anything. -/
theorem absent_new (r : Ref) (config : NodeConfig) : Absent r (new config) :=
  ⟨rfl, fun _ => rfl, fun _ => rfl⟩

/-- No trace comes of resting. -/
theorem Rests.absent (hr : Rests r n n') (h : Absent r n) : Absent r n' := by
  refine ⟨hr.about.trans h.about, fun q => (hr.watcher q).trans (h.watcher q), fun q => ?_⟩
  rcases hw : n'.watchee? r q with _ | w
  · rfl
  · exact absurd (hr.watchee q w hw) (by simp [h.watchee q])

/-- Without a trace of a monitor, an end of a process has nothing to do with it. -/
theorem Absent.fall (h : Absent r n) {p : Pid} {c₀ c : Process} (hp : n.process? p = some c₀)
    (hc : c.monitoredBy = c₀.monitoredBy) (reason : Term) : Absent r (n.fall p c reason) := by
  refine (rests_fall ?_ (h.watcher p) reason).absent h
  rw [hc, ← watcher?_eq hp, h.watcher p]

/-- A process that disappears leaves no trace that was not there. -/
theorem Absent.reclaim (h : Absent r n) (p : Pid) : Absent r (n.reclaim p) :=
  (rests_reclaim (h.watcher p)).absent h

/-- Without a trace there is none after an operation that neither makes the reference nor sends a
    signal with it. -/
theorem absent_step (hn : n.Coherent) (h : Absent r n) {op : NodeOp} (hmake : r ∉ n.makes op)
    (hraw : op.injects r = false) : Absent r (n.step op) := by
  by_cases hop : op.isPlain = true
  · by_cases hend : ∃ w, op = .demonitor w r
    · rcases hend with ⟨w, rfl⟩
      -- Nobody knows of the monitor, so nobody can end it.
      rw [step, demonitor_of_watchee?_none (h.watchee w)]
      exact h
    · exact (rests_step hn hop hmake hraw fun w hw => hend ⟨w, hw⟩).absent h
  · cases op with
    | die p reason =>
        rw [step]
        rcases die_cases n p reason with ⟨hd, -⟩ | ⟨c, hc, -, hd⟩ <;> rw [hd]
        · exact h
        · exact h.fall hc rfl _
    | letGo p =>
        exact Absent.reclaim ((rests_loosen r n p).absent h) p
    | handleInHand =>
        rw [step]
        rcases handleInHand_cases n with ⟨-, hi⟩ | ⟨d, q, -, hs, hi⟩ <;> rw [hi]
        · exact h
        · have hd : d.signal.ref? ≠ some r := by
            intro heq
            -- The signal would be a trace of the monitor in the queue.
            have habout := about_of_next hs heq
            rw [h.about] at habout
            exact absurd habout (by simp)
          have hq := (rests_withQueue hs hd).absent h
          refine Absent.reclaim ?_ d.target
          rcases rests_handle_cases (n := n.withQueue q) hd with hr | ⟨c, reason, hc, -, -, -, hr⟩
          · exact hr.absent hq
          · rw [hr]
            exact hq.fall (c := { c with links := c.links.erase d.sender }) hc rfl _
    | _ => exact absurd rfl hop

/-- Before a reference is made there is no trace of its monitor at any moment. -/
theorem absent_states (hn : n.Coherent) (h : Absent r n) {ops : List NodeOp}
    (hmake : r ∉ n.collect makes ops) (hraw : ∀ op ∈ ops, op.injects r = false) :
    ∀ m ∈ n.states ops, Absent r m := by
  induction ops generalizing n with
  | nil =>
      intro m hm
      rwa [List.mem_singleton.mp hm]
  | cons op rest ih =>
      rw [collect, List.mem_append, not_or] at hmake
      have hnext := absent_step hn h hmake.1 (hraw op List.mem_cons_self)
      have hrest := ih (coherent_step hn op) hnext hmake.2
        fun op' hop' => hraw op' (List.mem_cons_of_mem op hop')
      intro m hm
      -- The moment is now, or one of the rest.
      rcases List.mem_cons.mp hm with rfl | hm
      · exact h
      · exact hrest m hm

/-- What a living process handles was queued. -/
theorem mem_signals_of_attends {op : NodeOp} {d : Delivery} (hd : d ∈ n.attends op) :
    d ∈ n.queue.signals ∧ n.lives d.target = true := by
  cases op with
  | handleInHand =>
      rw [attends] at hd
      split at hd
      next e q hq =>
        split at hd
        next hlive =>
          rw [List.mem_singleton] at hd
          rw [hd, Dispatcher.signals_of_next? hq]
          exact ⟨List.mem_cons_self, hlive⟩
        next => exact absurd hd List.not_mem_nil
      next => exact absurd hd List.not_mem_nil
  | _ => exact absurd hd List.not_mem_nil

/-- Before a reference is made nobody handles a signal about its monitor. -/
theorem ref?_ne_of_attends (hn : n.Coherent) (h : Absent r n) {ops : List NodeOp}
    (hmake : r ∉ n.collect makes ops) (hraw : ∀ op ∈ ops, op.injects r = false) :
    ∀ d ∈ n.collect attends ops, d.signal.ref? ≠ some r := by
  induction ops generalizing n with
  | nil => exact fun d hd => absurd hd List.not_mem_nil
  | cons op rest ih =>
      rw [collect, List.mem_append, not_or] at hmake
      have hnext := absent_step hn h hmake.1 (hraw op List.mem_cons_self)
      have hrest := ih (coherent_step hn op) hnext hmake.2
        fun op' hop' => hraw op' (List.mem_cons_of_mem op hop')
      intro d hd
      rcases List.mem_append.mp hd with hd | hd
      · -- Now: the signal would have been in the queue, and thus be a trace.
        intro heq
        have hmem := mem_about.mpr ⟨(mem_signals_of_attends hd).1, heq⟩
        rw [h.about] at hmem
        exact absurd hmem List.not_mem_nil
      · exact hrest d hd

end Node

end Actors
