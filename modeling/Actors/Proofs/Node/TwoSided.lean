import Actors.Proofs.Node.Awaiting
import Actors.Proofs.Node.Outlook

/-!
# Both Sides of a Monitor

A monitor stands in two tables. The watcher notes whom it watches when it asks,
and forgets it when it takes the monitor back or hears the notice; the watched
process notes the watcher when the request arrives, and strikes it out when the
request to end the monitor arrives. In between the two differ by what is queued.

Between two processes that both live, a monitor is in one of two conditions.
Either the watcher knows of it, and the watched process has it on record or
will; or the watcher took it back, and the watched process has no record of it
or will lose it. That the watcher forgets it in any other way takes a notice,
and a process that lives to the end sends none. So when no signal waits the two
tables say the same.

A monitor that was taken back leaves nothing behind, even if one of the two ends
in the meantime. A watched process that ended has no records.

## Main definitions

* `NodeOp.monitored`: The processes that a request to watch names.
* `Node.Pact`: A monitor between two processes that live.
* `Node.TwoSided`: The two sides of a monitor agree.

## Theorems

* `watchee?_step`: A living watcher knows of a monitor until it takes it back or
  hears the notice.
* `pact_step`, `pact_run`: A monitor stays in one of the two conditions.
* `pact_of_opens`: It is in the first one when it is made.
* `absent_of_demonitor`: A monitor that was taken back leaves no trace.
* `two_sided_run`: The two sides of a monitor agree in every run.
-/

namespace Actors

/-- The processes that a request to watch names. -/
def NodeOp.monitored : NodeOp → List Pid
  | .monitor watcher watchee => [watcher, watchee]
  | .spawnMonitor watcher => [watcher]
  | _ => []

namespace Node

variable {a b : Pid} {r : Ref} {n : Node}

/-! ## What a living watcher knows -/

/-- A process that is not told of a monitor goes on watching under it. -/
theorem monitors_reactAlive {c c' : Process} {sender : Pid} {s : Signal}
    (h : c.reactAlive sender s = .become c') (hs : s.isDown r = false) :
    c'.monitors.get? r = c.monitors.get? r := by
  by_cases href : s.ref? = some r
  · -- A signal about the monitor is a request, which is for the watched process, or the notice.
    rcases ref?_eq_some_iff.mp href with rfl | rfl | ⟨reason, rfl⟩
    · rw [Process.reactAlive, Process.Reaction.become.injEq] at h
      rw [← h]
    · rw [Process.reactAlive, Process.Reaction.become.injEq] at h
      rw [← h]
    · exact absurd hs (by simp [Signal.isDown])
  · exact (reactAlive_of_ref?_ne h href).2

theorem monitors_trackMonitor_of_ne {c : Process} {ref : Ref} {watchee : Pid} (h : r ≠ ref) :
    (c.trackMonitor ref watchee).monitors.get? r = c.monitors.get? r := by
  rw [Process.trackMonitor]
  split
  · exact Dict.get?_insert_of_ne _ _ h
  · rfl

/-- A living watcher knows of a monitor until it takes it back or hears the notice. -/
theorem watchee?_step (hn : n.Coherent) {op : NodeOp} (hmake : r ∉ n.makes op)
    (hend : ∀ w, op ≠ .demonitor w r) (hquiet : ∀ d ∈ n.queue.signals, d.signal.isDown r = false)
    (hheld : n.watchee? r a = some b) (ha : (n.step op).lives a = true) :
    (n.step op).watchee? r a = some b := by
  -- A process that lives afterwards and had a table before was alive before.
  have hp : n.lives a = true := by
    rcases hc : n.process? a with _ | c
    · rw [watchee?, hc] at hheld
      exact absurd hheld (by simp)
    · have hrun : (n.run [op]).lives a = true := ha
      exact lives_at_start hn hc hrun
  rcases lives_iff.mp hp with ⟨c, hc, hlive⟩
  rcases lasts_step hn hc hlive ha with ⟨c', hc', hlast⟩
  rw [watchee?_eq hc] at hheld
  rw [watchee?_eq hc', ← hheld]
  -- Only a request under this reference, its end or the notice could change the entry.
  cases hlast with
  | setFlag f value => cases f; rfl
  | reorder links watchers =>
      rcases c.reorder_cases links watchers with h | ⟨-, -, h⟩ <;> rw [h]
  | monitor watchee =>
      rw [makes, monitor_eq, List.mem_singleton] at hmake
      exact monitors_trackMonitor_of_ne hmake
  | spawnMonitor born hr =>
      refine monitors_trackMonitor_of_ne ?_
      rintro rfl
      exact hmake (by simp [makes, hr, Except.toOption])
  | demonitor ref =>
      refine Dict.get?_erase_of_ne _ ?_
      rintro rfl
      exact hend a rfl
  | handle hq htarget hr =>
      refine monitors_reactAlive hr (hquiet _ ?_)
      rw [Dispatcher.signals_of_next? hq]
      exact List.mem_cons_self
  | _ => rfl

/-! ## A monitor between two that live -/

/-- A monitor between two processes that live. -/
inductive Pact (a b : Pid) (r : Ref) (n : Node) : Prop
  /-- The watcher knows of it, and no notice is on its way. -/
  | standing (h : Awaits False a b r n) (hheld : n.watchee? r a = some b)
  /-- The watcher took it back. -/
  | ended (h : Leaving a b r n)

/-- A watcher that waits for no notice has not been told anything. -/
theorem Awaits.quiet (h : Awaits False a b r n) :
    ∀ d ∈ n.queue.signals, d.signal.isDown r = false := by
  intro d hd
  rw [Bool.eq_false_iff]
  intro hdown
  rcases eq_down_of_isDown hdown with ⟨reason, hsig⟩
  have hmem : d ∈ n.about r := mem_about.mpr ⟨hd, by rw [hsig]; rfl⟩
  -- Every stage but the last one says what is queued about the monitor, and it is not the notice.
  cases h.stage with
  | asked hq =>
      rw [hq, List.mem_singleton] at hmem
      rw [hmem] at hsig
      exact absurd hsig (by simp)
  | recorded hq =>
      rw [hq] at hmem
      exact absurd hmem List.not_mem_nil
  | told hm => exact hm.elim

theorem Awaits.toStanding (h : Awaits False a b r n) (hb : n.lives b = true) :
    Standing a b r n := by
  refine ⟨h.owner, fun q hq => (h.watcher?_cases q).resolve_right fun heq => hq heq.1, ?_⟩
  cases h.stage with
  | asked hq => exact Or.inr (Or.inl ⟨hq, hb⟩)
  | recorded hq => exact Or.inl hq
  | told hm => exact hm.elim

/-- A living watcher takes a monitor back. -/
theorem pact_demonitor (hn : n.Coherent) (h : Pact a b r n) (hb : n.lives b = true) :
    Leaving a b r (n.demonitor a r) := by
  cases h with
  | standing h hheld => exact leaving_demonitor hn (h.toStanding hb) hheld h.quiet
  | ended h =>
      rw [demonitor_of_watchee?_none (h.forgotten a)]
      exact h

theorem pact_step (hn : n.Coherent) (h : Pact a b r n) {op : NodeOp} (hmake : r ∉ n.makes op)
    (hraw : op.injects r = false) (hb : n.lives b = true) (ha' : (n.step op).lives a = true)
    (hb' : (n.step op).lives b = true) : Pact a b r (n.step op) := by
  -- Who lives after the step did not end in it.
  have hdeath : ∀ reason, (b, reason) ∉ n.deaths op := by
    intro reason hmem
    have hdead : (n.run [op]).lives b = false :=
      not_lives_of_deaths hn (by rwa [collect, collect, List.append_nil])
    exact absurd (hdead.symm.trans hb') (by simp)
  cases h with
  | ended h => exact .ended (leaving_step hn h hmake hraw hdeath)
  | standing h hheld =>
      by_cases hend : ∃ w, op = .demonitor w r
      · rcases hend with ⟨w, rfl⟩
        rcases hw : n.watchee? r w with _ | x
        · rw [step, demonitor_of_watchee?_none hw]
          exact .standing h hheld
        · -- Only the watcher knows of the monitor, so it is the one that takes it back.
          rw [step, (h.owner w x hw).1]
          exact .ended (pact_demonitor hn (.standing h hheld) hb)
      · -- Nobody takes the monitor back, so the watcher still knows of it.
        have hstill := watchee?_step hn hmake (fun w hw => hend ⟨w, hw⟩) h.quiet hheld ha'
        refine .standing (awaits_step hn h hmake hraw (not_mem_losses hb') (fun hdead => ?_)
          (fun w hw => absurd ⟨w, hw⟩ hend) False.elim) hstill
        exact absurd (hdead.symm.trans hb') (by simp)

theorem pact_run (hn : n.Coherent) (h : Pact a b r n) {ops : List NodeOp}
    (hmake : r ∉ n.collect makes ops) (hraw : ∀ op ∈ ops, op.injects r = false)
    (ha : n.lives a = true) (hb : n.lives b = true) (ha' : (n.run ops).lives a = true)
    (hb' : (n.run ops).lives b = true) : Pact a b r (n.run ops) := by
  induction ops generalizing n with
  | nil => exact h
  | cons op rest ih =>
      rw [collect, List.mem_append, not_or] at hmake
      -- Who lives at both ends lives in between.
      have ha₁ := lives_between hn ha ha'
      have hb₁ := lives_between hn hb hb'
      exact ih (coherent_step hn op)
        (pact_step hn h hmake.1 (hraw op List.mem_cons_self) hb ha₁ hb₁) hmake.2
        (fun op' hop' => hraw op' (List.mem_cons_of_mem op hop')) ha₁ hb₁ ha' hb'

/-- When nothing is queued about the monitor, the two tables say the same. -/
theorem Pact.agree (h : Pact a b r n) (hnil : n.about r = []) :
    n.watchee? r a = some b ↔ n.watcher? r b = some a := by
  cases h with
  | standing h hheld =>
      cases h.stage with
      | asked hq => exact absurd (hnil.symm.trans hq) (by simp)
      | recorded _ hw => exact iff_of_true hheld ((hw b).trans (if_pos rfl))
      | told hm => exact hm.elim
  | ended h =>
      rcases h.queued with ⟨-, hnone⟩ | ⟨-, hone | htwo⟩
      · rw [h.forgotten a, hnone]
        exact iff_of_false (by simp) (by simp)
      · exact absurd (hnil.symm.trans hone) (by simp)
      · exact absurd (hnil.symm.trans htwo) (by simp)

/-! ## The monitor is made -/

theorem watchee?_track_self {w x : Pid} (hw : (n.lookup w).isSome) (hl : n.lives w = true) :
    (n.track w r x).watchee? r w = some x := by
  rcases lives_iff.mp hl with ⟨c, hc, ha⟩
  rw [track, if_pos hw, watchee?_eq (process?_update_self hc _), Process.trackMonitor, if_pos ha]
  exact (Dict.get?_insert _ _ _ _).trans (if_pos rfl)

/-- A living process that asks to watch another knows of the monitor. -/
theorem watchee?_of_opens (hn : n.Coherent) {op : NodeOp} (hop : n.Opens a b r op)
    (ha : (n.step op).lives a = true) : (n.step op).watchee? r a = some b := by
  cases hop with
  | monitor hr =>
      rw [step, monitor_eq] at ha ⊢
      rw [monitor_eq] at hr
      rw [show n.nextRef = r from hr] at ha ⊢
      have hl : n.countRef.lives a = true := (lives_track n.countRef a r b a).symm.trans ha
      exact watchee?_track_self ((hn.countRef.isSome_lookup a).trans hl) hl
  | spawnMonitor hr =>
      rcases spawnMonitor_cases n a with he | ⟨p, n₁, hmade, he⟩
      · rw [he] at hr
        exact absurd hr (by simp)
      · rw [step, he] at ha ⊢
        rw [he, Except.ok.injEq, Prod.mk.injEq] at hr
        rcases hr with ⟨rfl, hr⟩
        rw [hr] at ha ⊢
        rw [lives_track] at ha
        rcases move_makeProcess (K := fun _ => False) hmade with ⟨hmove, -⟩
        -- Neither the count nor the entry changes who lives.
        have hl : n₁.lives a = true :=
          (lives_update (n := n₁.countRef)
            (f := fun c => { c with monitoredBy := c.monitoredBy.insert r a })
            (fun _ _ => rfl) a).symm.trans ha
        refine watchee?_track_self ?_ ha
        rw [isSome_lookup_update]
        exact ((coherent_move hmove hn).isSome_lookup a).trans hl

theorem owner_of_opens (hn : n.Coherent) (habsent : Absent r n) {op : NodeOp}
    (hop : n.Opens a b r op) {q w : Pid} (hw : (n.step op).watchee? r q = some w) :
    q = a ∧ w = b := by
  cases hop with
  | monitor hr => exact (standing_monitor hn habsent hr).owner q w hw
  | spawnMonitor hr => exact (standing_spawnMonitor hn habsent hr).owner q w hw

theorem pact_of_opens (hn : n.Coherent) (habsent : Absent r n) {op : NodeOp}
    (hop : n.Opens a b r op) (ha : (n.step op).lives a = true)
    (hb : (n.step op).lives b = true) : Pact a b r (n.step op) := by
  have hheld := watchee?_of_opens hn hop ha
  have hlocal : b.isLocal = true := by
    rcases lives_iff.mp hb with ⟨c, hc, -⟩
    exact (coherent_step hn op).isLocal hc
  refine .standing (awaits_makes hn habsent hop.makes hheld hlocal fun hdead => ?_) hheld
  exact absurd (hdead.symm.trans hb) (by simp)

/-- A reference is made for itself, or for a monitor. -/
theorem opens_of_makes {op : NodeOp} (hop : r ∈ n.makes op) :
    op = .makeRef ∨ ∃ a b, n.Opens a b r op := by
  cases op with
  | makeRef => exact Or.inl rfl
  | monitor w x => exact Or.inr ⟨w, x, .monitor (List.mem_singleton.mp hop).symm⟩
  | spawnMonitor w =>
      rcases hr : (n.spawnMonitor w).1 with e | ⟨x, ref⟩
      · simp [makes, hr, Except.toOption] at hop
      · have href : r = ref := by simpa [makes, hr, Except.toOption] using hop
        exact Or.inr ⟨w, x, .spawnMonitor (by rw [hr, href])⟩
  | _ => exact absurd hop List.not_mem_nil

/-- Without a trace of a monitor, the two tables say the same. -/
theorem Absent.agree (h : Absent r n) : n.watchee? r a = some b ↔ n.watcher? r b = some a := by
  rw [h.watchee, h.watcher]
  exact iff_of_false (by simp) (by simp)

/-! ## Runs -/

/-- The two sides of a monitor agree at the end of a run. -/
structure TwoSided (n : Node) (r : Ref) (ops : List NodeOp) : Prop where
  /-- When no signal waits, of two living processes one watches the other exactly if the
      other has it on record. -/
  agree : (n.run ops).queue.signals = [] → ∀ a b c d, (n.run ops).process? a = some c →
    (n.run ops).process? b = some d → c.isAlive = true → d.isAlive = true →
    ((r, b) ∈ Process.sortedMonitors c.monitors ↔ (r, a) ∈ Process.sortedMonitors d.monitoredBy)
  /-- When no signal waits, a monitor that its living watcher took back has left no trace. -/
  traceless : (n.run ops).queue.signals = [] → ∀ a b before op between after,
    ops = before ++ op :: (between ++ .demonitor a r :: after) →
    (n.run before).Opens a b r op → (n.run (before ++ op :: between)).lives a = true →
    Absent r (n.run ops)

variable {config : NodeConfig} {before between after : List NodeOp} {op : NodeOp}

/-- The two processes of a monitor were given out when it was made. -/
theorem issued_of_opens
    (hissued : ∀ i (hi : i < (before ++ op :: after).length),
      ∀ p ∈ (before ++ op :: after)[i].monitored,
        p ∈ (new config).collect issues ((before ++ op :: after).take i))
    (hop : ((new config).run before).Opens a b r op) :
    a ∈ (new config).collect issues before ∧ b ∈ (new config).collect issues (before ++ [op]) := by
  -- The processes that the request names were given out before it.
  have hnamed : ∀ p ∈ op.monitored, p ∈ (new config).collect issues before := by
    intro p hp
    have hbefore := hissued before.length (by simp) p (by simpa using hp)
    simpa using hbefore
  rw [collect_append, List.mem_append]
  cases hop with
  | monitor hr =>
      exact ⟨hnamed a (by simp [NodeOp.monitored]), Or.inl (hnamed b (by simp [NodeOp.monitored]))⟩
  | spawnMonitor hr =>
      refine ⟨hnamed a (by simp [NodeOp.monitored]), Or.inr ?_⟩
      rw [collect, issues, hr]
      exact List.mem_append_left _ (List.mem_singleton.mpr rfl)

/-- A monitor between two processes that live to the end of a run. -/
theorem pact_after (hn : n.Coherent) (habsent : Absent r n) (hop : n.Opens a b r op)
    (ha : (n.step op).Issued a) (hb : (n.step op).Issued b)
    (hmake : r ∉ (n.step op).collect makes after) (hraw : ∀ op' ∈ after, op'.injects r = false)
    (ha' : ((n.step op).run after).lives a = true) (hb' : ((n.step op).run after).lives b = true) :
    Pact a b r ((n.step op).run after) := by
  have hcoh := coherent_step hn op
  have hage := ages_run hcoh after
  -- Both were given out, so both live from then on.
  have ha₁ := hage.lives ha.2 ha'
  have hb₁ := hage.lives hb.2 hb'
  exact pact_run hcoh (pact_of_opens hn habsent hop ha₁ hb₁) hmake hraw ha₁ hb₁ ha' hb'

/-- Who knows of a monitor at the end of a run is its watcher. -/
theorem owner_after (hn : n.Coherent) (habsent : Absent r n) (hop : n.Opens a b r op)
    (hmake : r ∉ (n.step op).collect makes after) (hraw : ∀ op' ∈ after, op'.injects r = false)
    {q w : Pid} (hw : ((n.step op).run after).watchee? r q = some w) : q = a ∧ w = b :=
  owner_of_opens hn habsent hop (watchee_run (coherent_step hn op) hmake hraw hw)

/-- A monitor that its living watcher took back leaves no trace. -/
theorem absent_of_demonitor (hn : n.Coherent) (habsent : Absent r n) (hop : n.Opens a b r op)
    (ha : (n.step op).Issued a) (hb : (n.step op).Issued b)
    (hmake : r ∉ (n.step op).collect makes (between ++ .demonitor a r :: after))
    (hraw : ∀ op' ∈ between ++ .demonitor a r :: after, op'.injects r = false)
    (hla : ((n.step op).run between).lives a = true)
    (hrecord : ∀ q w, ((n.step op).run (between ++ .demonitor a r :: after)).watcher? r q = some w →
      q = b)
    (hquiet : ((n.step op).run (between ++ .demonitor a r :: after)).queue.signals = []) :
    Absent r ((n.step op).run (between ++ .demonitor a r :: after)) := by
  have hcoh := coherent_step hn op
  have hmid := coherent_run hcoh between
  rw [collect_append, collect, List.mem_append, List.mem_append, not_or, not_or] at hmake
  rw [run_append, run_cons, step] at hrecord hquiet ⊢
  have hraw₁ : ∀ op' ∈ between, op'.injects r = false := fun op' hop' =>
    hraw op' (List.mem_append_left _ hop')
  have hraw₂ : ∀ op' ∈ after, op'.injects r = false := fun op' hop' =>
    hraw op' (List.mem_append_right _ (List.mem_cons_of_mem _ hop'))
  have hback : (((n.step op).run between).demonitor a r).Coherent :=
    coherent_step hmid (.demonitor a r)
  have habout : ((((n.step op).run between).demonitor a r).run after).about r = [] := by
    rw [about, hquiet, List.filter_nil]
  refine ⟨habout, fun q => ?_, fun q => ?_⟩
  · rcases hw : ((((n.step op).run between).demonitor a r).run after).watcher? r q with _ | w
    · rfl
    · rw [hrecord q w hw] at hw
      -- Who has a record lives, and so it has lived all the time.
      have hlb := (coherent_run hback after).lives_of_watcher? hw
      have hage := (ages_run hcoh between).trans (ages_step hmid (.demonitor a r))
      have hlb₂ := (ages_run hback after).lives (hage.spent _ _ hb.2) hlb
      have hlb₁ := (ages_step hmid (.demonitor a r)).lives ((ages_run hcoh between).spent _ _ hb.2)
        hlb₂
      have hpact := pact_after hn habsent hop ha hb hmake.1 hraw₁ hla hlb₁
      have hleaving := (leaving_run hback (pact_demonitor hmid hpact hlb₁) hmake.2.2 hraw₂
        fun reason hmem => absurd ((not_lives_of_deaths hback hmem).symm.trans hlb) (by simp)).1
      rcases hleaving.queued with ⟨-, hnone⟩ | ⟨-, hone | htwo⟩
      · exact absurd (hnone.symm.trans hw) (by simp)
      · exact absurd (habout.symm.trans hone) (by simp)
      · exact absurd (habout.symm.trans htwo) (by simp)
  · rcases hw : ((((n.step op).run between).demonitor a r).run after).watchee? r q with _ | w
    · rfl
    · -- Only the watcher ever knew of the monitor, and it forgot it.
      have hthen : (((n.step op).run between).step (.demonitor a r)).watchee? r q = some w :=
        watchee_run hback hmake.2.2 hraw₂ hw
      have hold := watchee_step hmid List.not_mem_nil rfl hthen
      rw [(owner_after hn habsent hop hmake.1 hraw₁ hold).1, step, watchee?_demonitor hmid] at hthen
      exact absurd hthen (by simp)

/-- When nothing is queued about a monitor that was made in a run, two living processes say
    the same about it, whether it is one between them or not. -/
theorem agree_of_opens {w x : Pid} (hop : ((new config).run before).Opens w x r op)
    (hw : w ∈ (new config).collect issues before)
    (hx : x ∈ (new config).collect issues (before ++ [op]))
    (hraw : ∀ op' ∈ before ++ op :: after, op'.injects r = false)
    (hcount : ((new config).collect makes (before ++ op :: after)).length ≤ UInt64.size)
    (hnil : ((new config).run (before ++ op :: after)).about r = [])
    (ha : ((new config).run (before ++ op :: after)).lives a = true)
    (hb : ((new config).run (before ++ op :: after)).lives b = true) :
    ((new config).run (before ++ op :: after)).watchee? r a = some b ↔
      ((new config).run (before ++ op :: after)).watcher? r b = some a := by
  have hn := coherent_new config
  have hcoh := coherent_run hn before
  have hwatch := watch_of_opens hop hw hx hraw hcount
  rcases made_at hraw (nodup_makes hn hcount) hop.makes with ⟨habsent, hnever, hafter⟩
  have hx' := issued_of_collect hn hx
  rw [run_append, run_cons, run_nil] at hx'
  rw [run_append, run_cons] at hwatch hnil ha hb ⊢
  by_cases hpair : a = w ∧ b = x
  · rcases hpair with ⟨rfl, rfl⟩
    have hw' := (issued_of_collect hn hw).ages (ages_step hcoh op)
    exact (pact_after hcoh habsent hop hw' hx' hnever hafter ha hb).agree hnil
  · -- The monitor is one between two others.
    refine iff_of_false (fun hheld => hpair ?_) fun hrecord => hpair ?_
    · exact owner_after hcoh habsent hop hnever hafter hheld
    · rcases hwatch.watcher?_cases b with hnone | ⟨rfl, hwatcher, -⟩
      · exact absurd (hnone.symm.trans hrecord) (by simp)
      · rw [hrecord, Option.some.injEq] at hwatcher
        exact ⟨hwatcher, rfl⟩

/-- The two sides of a monitor agree in every run in which the processes that requests to
    watch name were given out before. Nobody may send signals about the monitor directly,
    and the counter of references must not come around. -/
theorem two_sided_run {ops : List NodeOp} (hraw : ∀ op ∈ ops, op.injects r = false)
    (hissued : ∀ i (hi : i < ops.length), ∀ p ∈ ops[i].monitored,
      p ∈ (new config).collect issues (ops.take i))
    (hcount : ((new config).collect makes ops).length ≤ UInt64.size) :
    (new config).TwoSided r ops := by
  have hn := coherent_new config
  refine ⟨fun hquiet a b c d hc hd ha hb => ?_, ?_⟩
  · have hnil : ((new config).run ops).about r = [] := by rw [about, hquiet, List.filter_nil]
    rw [Process.mem_sortedMonitors, Process.mem_sortedMonitors, ← watchee?_eq hc, ← watcher?_eq hd]
    by_cases hmade : r ∈ (new config).collect makes ops
    · rcases mem_collect hmade with ⟨before, op, after, rfl, hop⟩
      rcases opens_of_makes hop with rfl | ⟨w, x, hopens⟩
      · -- The reference was made for something else.
        rcases made_at hraw (nodup_makes hn hcount) hop with ⟨habsent, hnever, hafter⟩
        have hstill : Absent r (((new config).run before).step .makeRef) :=
          ⟨habsent.about, habsent.watcher, habsent.watchee⟩
        rw [run_append, run_cons]
        exact (absent_states (coherent_step (coherent_run hn before) .makeRef) hstill hnever hafter
          _ (mem_states_run _ after)).agree
      · rcases issued_of_opens hissued hopens with ⟨hw, hx⟩
        exact agree_of_opens hopens hw hx hraw hcount hnil (lives_of hc ha) (lives_of hd hb)
    · exact (absent_states hn (absent_new r config) hmade hraw _ (mem_states_run _ ops)).agree
  · rintro hquiet a b before op between after rfl hopens hla
    have hcoh := coherent_run hn before
    rcases made_at hraw (nodup_makes hn hcount) hopens.makes with ⟨habsent, hnever, hafter⟩
    rcases issued_of_opens hissued hopens with ⟨ha, hb⟩
    have hwatch := watch_of_opens hopens ha hb hraw hcount
    have hb' := issued_of_collect hn hb
    rw [run_append, run_cons, run_nil] at hb'
    rw [run_append, run_cons] at hla hquiet hwatch ⊢
    refine absent_of_demonitor hcoh habsent hopens
      ((issued_of_collect hn ha).ages (ages_step hcoh op)) hb' hnever hafter hla
      (fun q w hw => ?_) hquiet
    rcases hwatch.watcher?_cases q with hnone | ⟨hq, -⟩
    · exact absurd (hnone.symm.trans hw) (by simp)
    · exact hq

/-- Two processes watch each other, and the first one takes its monitor back. Of the other
    monitor both sides know, and of the first one none does. -/
theorem two_sided_pair :
    let ops : List NodeOp := [.spawn, .spawn, .monitor (.ofSlot 1 0 0) (.ofSlot 2 0 0),
      .monitor (.ofSlot 2 0 0) (.ofSlot 1 0 0), .beginTurn, .handleInHand, .handleInHand,
      .demonitor (.ofSlot 1 0 0) (.ofCounter 0 0), .beginTurn, .handleInHand]
    let n := (new .standard).run ops
    (new .standard).TwoSided (.ofCounter 0 0) ops ∧ (new .standard).TwoSided (.ofCounter 1 0) ops ∧
      n.queue.signals = [] ∧
      n.watchee? (.ofCounter 1 0) (.ofSlot 2 0 0) = some (.ofSlot 1 0 0) ∧
      n.watcher? (.ofCounter 1 0) (.ofSlot 1 0 0) = some (.ofSlot 2 0 0) ∧
      n.watcher? (.ofCounter 0 0) (.ofSlot 2 0 0) = none :=
  ⟨two_sided_run (by decide) (by decide) (by decide),
    two_sided_run (by decide) (by decide) (by decide), by decide, by decide, by decide, by decide⟩

end Node

end Actors
