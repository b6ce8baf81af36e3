import Actors.Proofs.Node.Arrivals

/-!
# What a Process Makes of a List of Signals

A living process handles some signals, one after another, and nothing else happens in
between. This module says what has become of it and of its node.

As long as nothing ends the process, each part of it goes its own way: its mailbox
gets the messages that the signals become, and each of its tables is changed by the
signals that are about it. `Process.hear` puts the parts together, and no part looks
at another. That such a list of signals changes only the process, and queues nothing,
is one equation between nodes, `handleAll_of_withstands`.

The process ends at the first exit signal that it does not trap. From then on it
answers: a link and a monitor are told that there is no such process, provided that
their sender can be reached. An answer is queued, which changes neither a process nor
where a destination leads, so that all answers can be read off the node as it was
when the process ended.

## Main definitions

* `Process.hear`: A process after signals that do not end it.
* `Process.Withstands`: No signal of a list ends the process.
* `Process.Fatal`: A signal ends the process.
* `Node.handleAll`: Signals are handled one after another.
* `Node.Answered`: What a signal that comes too late is answered with.
* `Node.HandlingLaw`: What a process makes of a list of signals.

## Theorems

* `hear_append`: Signals can be heard in parts.
* `exists_fatal`: Some signal is the first that ends the process.
* `handle_of_withstands`, `handle_of_fatal`: One signal.
* `handleAll_of_withstands`, `handleAll_of_dead`: Some signals.
* `handlingLaw`: The law.
-/

namespace Actors

/-- The partners of a process after a signal. An exit signal ends the link, too. -/
def PidSet.hear (links : PidSet) (d : Delivery) : PidSet :=
  match d.signal with
  | .link => links.insert d.sender
  | .unlink => links.erase d.sender
  | .exit _ => links.erase d.sender
  | _ => links

namespace Process

/-- The watchers of a process after a signal. -/
def hearWatcher (watchers : Dict Ref Pid) (d : Delivery) : Dict Ref Pid :=
  match d.signal with
  | .monitor ref => watchers.insert ref d.sender
  | .demonitor ref => watchers.erase ref
  | _ => watchers

/-- Whom a process watches after a signal. -/
def hearNotice (monitors : Dict Ref Pid) (d : Delivery) : Dict Ref Pid :=
  match d.signal with
  | .down ref _ => monitors.erase ref
  | _ => monitors

/-- A process after signals that do not end it. -/
def hear (c : Process) (ds : List Delivery) : Process :=
  { c with
    mailbox := (ds.filterMap Delivery.message?).foldl .push c.mailbox
    links := ds.foldl .hear c.links
    monitors := ds.foldl hearNotice c.monitors
    monitoredBy := ds.foldl hearWatcher c.monitoredBy }

/-- No signal of a list ends a process: it traps exit signals and there is no `kill`, or
    there is no exit signal at all. -/
def Withstands (c : Process) (ds : List Delivery) : Prop :=
  (c.trapExit = true ∧ ∀ d ∈ ds, d.signal ≠ .exit Reason.kill) ∨
    ∀ d ∈ ds, ∀ reason, d.signal ≠ .exit reason

/-- A signal ends a process: it is an exit signal that is not trapped, or says `kill`. -/
structure Fatal (c : Process) (d : Delivery) (reason : Term) : Prop where
  signal : d.signal = .exit reason
  untrapped : c.trapExit = false ∨ reason = Reason.kill

variable {c : Process} {d : Delivery} {ds : List Delivery} {reason : Term}

/-! ## Signals that a process withstands -/

/-- Signals are heard one after the other. -/
theorem hear_append (c : Process) (ds es : List Delivery) :
    c.hear (ds ++ es) = (c.hear ds).hear es := by
  simp only [hear, List.filterMap_append, List.foldl_append]

/-- What a process hears does not change what is fatal for it, as it neither sets nor clears its
    flag. -/
@[simp] theorem fatal_hear : (c.hear ds).Fatal d reason ↔ c.Fatal d reason :=
  ⟨fun h => ⟨h.signal, h.untrapped⟩, fun h => ⟨h.signal, h.untrapped⟩⟩

/-- An exit signal is let through if the process does not trap any, or if the signal cannot be
    trapped. -/
theorem traps_eq_false_iff : c.traps reason = false ↔ c.trapExit = false ∨ reason = Reason.kill := by
  rw [traps, Bool.and_eq_false_iff, Bool.not_eq_false', Reason.isKill_iff]

/-- A process withstands signals none of which is fatal. -/
theorem withstands_iff : c.Withstands ds ↔ ∀ d ∈ ds, ∀ reason, ¬ c.Fatal d reason := by
  constructor
  · rintro (⟨htrap, hkill⟩ | hnone) d hd reason hf
    · rcases hf.untrapped with hu | rfl
      · exact absurd (htrap.symm.trans hu) (by simp)
      · exact hkill d hd hf.signal
    · exact hnone d hd reason hf.signal
  · intro h
    rcases htrap : c.trapExit with _ | _
    · exact Or.inr fun d hd reason hs => h d hd reason ⟨hs, Or.inl htrap⟩
    · exact Or.inl ⟨htrap, fun d hd hs => h d hd Reason.kill ⟨hs, Or.inr rfl⟩⟩

theorem withstands_cons :
    c.Withstands (d :: ds) ↔ (∀ reason, ¬ c.Fatal d reason) ∧ c.Withstands ds := by
  simp only [withstands_iff, List.forall_mem_cons]

/-- If some signals are not withstood, one of them is the first that is fatal. -/
theorem exists_fatal (h : ¬ c.Withstands ds) : ∃ before d after reason,
    ds = before ++ d :: after ∧ c.Withstands before ∧ c.Fatal d reason := by
  induction ds with
  | nil => exact absurd (withstands_iff.mpr fun d hd => absurd hd List.not_mem_nil) h
  | cons d rest ih =>
      -- Either the first signal is fatal, or the first fatal one is among the others.
      by_cases hd : ∃ reason, c.Fatal d reason
      · rcases hd with ⟨reason, hf⟩
        exact ⟨[], d, rest, reason, rfl,
          withstands_iff.mpr fun d hd => absurd hd List.not_mem_nil, hf⟩
      · rw [not_exists] at hd
        rcases ih fun hrest => h (withstands_cons.mpr ⟨hd, hrest⟩) with
          ⟨before, d', after, reason, rfl, hbefore, hf⟩
        exact ⟨d :: before, d', after, reason, rfl, withstands_cons.mpr ⟨hd, hbefore⟩, hf⟩

/-- A living process hears a signal that is not fatal. -/
theorem reactAlive_of_withstands (h : ∀ reason, ¬ c.Fatal d reason) :
    c.reactAlive d.sender d.signal = .become (c.hear [d]) := by
  rcases d with ⟨target, sender, signal⟩
  cases signal with
  | exit reason =>
      -- An exit signal that is not fatal is trapped.
      have ht : c.traps reason = true :=
        Bool.not_eq_false _ ▸ fun hf => h reason ⟨rfl, traps_eq_false_iff.mp hf⟩
      simp only [reactAlive, ht, if_true]
      rfl
  | _ => rfl

/-- A living process ends by a signal that is fatal. -/
theorem reactAlive_of_fatal (h : c.Fatal d reason) :
    c.reactAlive d.sender d.signal = .die { c with links := c.links.erase d.sender } reason := by
  simp only [h.signal, reactAlive, traps_eq_false_iff.mpr h.untrapped, Bool.false_eq_true,
    if_false]

end Process

namespace Node

open Process (answerTo)

/-- Signals are handled, one after another. -/
def handleAll (n : Node) (ds : List Delivery) : Node := ds.foldl handle n

/-- A signal was sent once: to a process as it is, or in an envelope to a router. -/
def SentOnce (sent : List Delivery) (sender target : Pid) (s : Signal) : Prop :=
  sent = [⟨target, sender, s⟩] ∨
    ∃ router, sent = [⟨router, sender, .relay (Routed.toTerm ⟨sender, .pid target, s⟩)⟩]

/-- What a signal that comes too late is answered with. -/
structure Answered (n : Node) (d : Delivery) (sent : List Delivery) : Prop where
  /-- A link is answered by an exit signal. -/
  link : d.signal = .link → ∀ r, n.resolve (.pid d.sender) = .ok r →
    SentOnce sent d.target d.sender (.exit Reason.noproc)
  /-- A monitor is answered by a notice. -/
  monitor : ∀ ref, d.signal = .monitor ref → ∀ r, n.resolve (.pid d.sender) = .ok r →
    SentOnce sent d.target d.sender (.down ref Reason.noproc)
  /-- A sender that cannot be reached is not answered. -/
  unreachable : ∀ e, n.resolve (.pid d.sender) = .error e → sent = []
  /-- Nothing else is answered. -/
  other : d.signal ≠ .link → (∀ ref, d.signal ≠ .monitor ref) → sent = []

/-- A process ends among some signals: it withstands those before, one is fatal, and those
    after come too late. -/
structure EndsAt (n : Node) (p : Pid) (c : Process) (before : List Delivery) (d : Delivery)
    (after : List Delivery) (reason : Term) : Prop where
  /-- So far the process is alive and has heard its signals. -/
  until_then : n.handleAll before = (n.update p fun _ => c.hear before) ∧
    (c.hear before).isAlive = true
  /-- It loses its link with the sender and falls. -/
  falls : n.handleAll (before ++ [d]) = (n.handleAll before).fall p
    { c.hear before with links := (c.hear before).links.erase d.sender } (Reason.recorded reason)
  /-- It is dead for the reason, with an empty mailbox and empty tables, and remains so. -/
  ended : ∃ c', c'.life = .dead (Reason.recorded reason) ∧ c'.Ended (Reason.recorded reason) ∧
    (n.handleAll (before ++ [d])).process? p = some c' ∧
    (n.handleAll (before ++ d :: after)).process? p = some c'
  /-- From then on there are only answers. -/
  answers : n.handleAll (before ++ d :: after) =
    (n.handleAll (before ++ [d])).queueAll (after.flatMap (n.handleAll (before ++ [d])).answers)
  /-- Each is as it should be. -/
  answered : ∀ e ∈ after, (n.handleAll (before ++ [d])).Answered e
    ((n.handleAll (before ++ [d])).answers e)

/-- What a process makes of a list of signals. -/
structure HandlingLaw (n : Node) (p : Pid) (c : Process) (ds : List Delivery) : Prop where
  /-- A process that withstands all of them is alive, has heard them, and nothing else has
      changed. -/
  lasts : c.Withstands ds → n.handleAll ds = (n.update p fun _ => c.hear ds) ∧
    (n.handleAll ds).process? p = some (c.hear ds) ∧ (c.hear ds).isAlive = true
  /-- Any other process ends at the first that is fatal. -/
  ends : ¬ c.Withstands ds → ∃ before d after reason, ds = before ++ d :: after ∧
    c.Withstands before ∧ c.Fatal d reason ∧ n.EndsAt p c before d after reason

variable {n : Node} {p : Pid} {c : Process} {d : Delivery} {ds : List Delivery} {reason : Term}

theorem handleAll_append (n : Node) (ds es : List Delivery) :
    n.handleAll (ds ++ es) = (n.handleAll ds).handleAll es := List.foldl_append

/-! ## As long as the process lives -/

/-- A signal that is not fatal changes its target only. -/
theorem handle_of_withstands (hc : n.process? d.target = some c) (ha : c.isAlive = true)
    (h : ∀ reason, ¬ c.Fatal d reason) : n.handle d = n.update d.target fun _ => c.hear [d] := by
  rw [handle_eq hc, Process.react, if_pos ha, Process.reactAlive_of_withstands h]

/-- A fatal signal ends its target. The link with the sender is forgotten first. -/
theorem handle_of_fatal (hc : n.process? d.target = some c) (ha : c.isAlive = true)
    (h : c.Fatal d reason) : n.handle d = n.fall d.target
      { c with links := c.links.erase d.sender } (Reason.recorded reason) := by
  rw [handle_eq hc, Process.react, if_pos ha, Process.reactAlive_of_fatal h]

/-- Signals that a process withstands change that process and nothing else. -/
theorem handleAll_of_withstands (hc : n.process? p = some c) (ha : c.isAlive = true)
    (hds : ∀ d ∈ ds, d.target = p) (h : c.Withstands ds) :
    n.handleAll ds = n.update p fun _ => c.hear ds := by
  induction ds generalizing n c with
  | nil => exact (update_id hc).symm
  | cons d rest ih =>
      rcases List.forall_mem_cons.mp hds with ⟨rfl, hrest⟩
      rcases Process.withstands_cons.mp h with ⟨hd, hlater⟩
      have hstep := handle_of_withstands hc ha hd
      -- After the first signal the process is still there and alive, and has heard it.
      have hheard : (n.handle d).process? d.target = some (c.hear [d]) := by
        rw [hstep]
        exact process?_update_self hc _
      calc (n.handle d).handleAll rest
          = (n.handle d).update d.target fun _ => (c.hear [d]).hear rest :=
            ih hheard ha hrest hlater
        _ = n.update d.target fun _ => c.hear (d :: rest) := by
            rw [hstep, update_update, ← Process.hear_append, List.singleton_append]

/-! ## When it has ended -/

/-- The dead only answer. -/
theorem handle_of_dead (hc : n.process? d.target = some c) (ha : c.isAlive = false) :
    n.handle d = n.queueAll (n.answers d) := by
  rcases handle_cases hc with ⟨-, h⟩ | ⟨hlive, -⟩ | ⟨hlive, -⟩
  · exact h
  · exact absurd (ha.symm.trans hlive) (by simp)
  · exact absurd (ha.symm.trans hlive) (by simp)

/-- What was answered before does not show in an answer. -/
theorem answers_queueAll (n : Node) (ds : List Delivery) :
    (n.queueAll ds).answers = n.answers := by
  funext d
  simp only [answers, deliveries_queueAll]

/-- A process that ended only answers. -/
theorem handleAll_of_dead (hc : n.process? p = some c) (ha : c.isAlive = false)
    (hds : ∀ d ∈ ds, d.target = p) : n.handleAll ds = n.queueAll (ds.flatMap n.answers) := by
  induction ds generalizing n with
  | nil => rfl
  | cons d rest ih =>
      rcases List.forall_mem_cons.mp hds with ⟨rfl, hrest⟩
      have hstep := handle_of_dead hc ha
      -- The dead stays where it is, however many signals it answers.
      have hthere : (n.handle d).process? d.target = some c := by
        rw [hstep]
        exact hc
      calc (n.handle d).handleAll rest
          = (n.handle d).queueAll (rest.flatMap (n.handle d).answers) := ih hthere hrest
        _ = n.queueAll (n.answers d ++ rest.flatMap n.answers) := by
            simp only [hstep, answers_queueAll, queueAll_append]

theorem sentOnce_deliveries {q : Pid} {s : Signal} {r : Resolved}
    (hr : n.resolve (.pid q) = .ok r) : SentOnce (n.deliveries p s (.pid q)) p q s := by
  rcases r with x | router
  · left
    rw [deliveries, hr, eq_of_resolve_process hr]
  · right
    refine ⟨router, ?_⟩
    rw [deliveries, hr]

/-- A link is answered with an exit signal and a monitor with a notice, if the sender can be
    reached; everything else is left unanswered. -/
theorem answered_answers (n : Node) (d : Delivery) : n.Answered d (n.answers d) where
  link hs r hr := by
    simp only [answers, hs, answerTo]
    exact sentOnce_deliveries hr
  monitor ref hs r hr := by
    simp only [answers, hs, answerTo]
    exact sentOnce_deliveries hr
  unreachable e he := by
    rw [answers]
    split
    next => rw [deliveries, he]
    next => rfl
  other hlink hmonitor := by
    rw [answers]
    rcases hs : d.signal with m | _ | _ | ref | ref | reason | ⟨ref, reason⟩
    case link => exact absurd hs hlink
    case monitor => exact absurd hs (hmonitor ref)
    all_goals rfl

/-! ## The law -/

/-- A process that withstood some signals ends at one that is fatal. -/
theorem endsAt_of_fatal {before after : List Delivery} (hc : n.process? p = some c)
    (ha : c.isAlive = true) (hds : ∀ e ∈ before ++ d :: after, e.target = p)
    (hbefore : c.Withstands before) (hf : c.Fatal d reason) :
    n.EndsAt p c before d after reason := by
  rw [List.forall_mem_append, List.forall_mem_cons] at hds
  rcases hds with ⟨htargets, rfl, hlater⟩
  have hheard := handleAll_of_withstands hc ha htargets hbefore
  have hthere : (n.handleAll before).process? d.target = some (c.hear before) := by
    rw [hheard]
    exact process?_update_self hc _
  have hfall := handle_of_fatal hthere ha (Process.fatal_hear.mpr hf)
  -- The state in which it falls, and in which all that comes later finds it.
  let c' : Process := { c.hear before with links := (c.hear before).links.erase d.sender }
  have hdead : (n.handleAll (before ++ [d])).process? d.target =
      some (c'.die (Reason.recorded reason)) := by
    rw [handleAll_append]
    change ((n.handleAll before).handle d).process? d.target = _
    rw [hfall, process?_fall, if_pos rfl, hthere]
    rfl
  have hanswers : n.handleAll (before ++ d :: after) =
      (n.handleAll (before ++ [d])).queueAll
        (after.flatMap (n.handleAll (before ++ [d])).answers) := by
    rw [List.append_cons, handleAll_append]
    exact handleAll_of_dead hdead rfl hlater
  refine ⟨⟨hheard, ha⟩, ?_, ⟨_, rfl, (Process.sound_die c' reason).ended _ rfl, hdead, ?_⟩, hanswers,
    fun e _ => answered_answers _ e⟩
  · rw [handleAll_append]
    exact hfall
  · rw [hanswers]
    exact hdead

/-- A living process hears what it withstands and ends at the first signal that is fatal. -/
theorem handlingLaw (hc : n.process? p = some c) (ha : c.isAlive = true)
    (hds : ∀ d ∈ ds, d.target = p) : n.HandlingLaw p c ds where
  lasts h := by
    have hheard := handleAll_of_withstands hc ha hds h
    refine ⟨hheard, ?_, ha⟩
    rw [hheard]
    exact process?_update_self hc _
  ends h := by
    -- What comes before the first fatal signal is heard; what comes behind it finds a dead process.
    rcases Process.exists_fatal h with ⟨before, d, after, reason, rfl, hbefore, hf⟩
    exact ⟨before, d, after, reason, rfl, hbefore, hf, endsAt_of_fatal hc ha hds hbefore hf⟩

/-- A process that traps exits gets a message, a link and a refused end, is then told to end,
    and hears of a link, a monitor and a message when it is too late. -/
theorem handlingLaw_killed :
    let p : Pid := .ofSlot 1 0 0
    let x : Pid := .ofSlot 2 0 0
    let ref : Ref := .ofCounter 0 0
    let n := (new .standard).run [.spawn, .spawn, .setFlag p .trapExit true]
    let ds : List Delivery := [⟨p, x, .relay (.atom "hello")⟩, ⟨p, x, .link⟩,
      ⟨p, x, .exit Reason.shutdown⟩, ⟨p, x, .monitor ref⟩]
    let es : List Delivery := [⟨p, x, .exit Reason.kill⟩, ⟨p, x, .link⟩, ⟨p, x, .monitor ref⟩,
      ⟨p, x, .relay (.atom "late")⟩]
    let c := { Process.fresh with trapExit := true }
    n.process? p = some c ∧ n.HandlingLaw p c (ds ++ es) ∧
      ((n.handleAll ds).process? p).map (fun c => (c.mailbox.messages, c.links.toList)) =
        some ([.atom "hello", Process.exitMessage x Reason.shutdown], []) ∧
      ((n.handleAll (ds ++ es)).process? p).map (fun c => (c.life, c.mailbox.messages)) =
        some (.dead Reason.killed, []) ∧
      (n.handleAll (ds ++ es)).queue.signals = [⟨x, p, .down ref Reason.killed⟩,
        ⟨x, p, .exit Reason.noproc⟩, ⟨x, p, .down ref Reason.noproc⟩] :=
  ⟨rfl, handlingLaw rfl rfl (by decide), by decide, by decide, by decide⟩

end Node

end Actors
