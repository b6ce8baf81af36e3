import Actors.Proofs.Node.Ageing
import Actors.Proofs.Node.Farewells

/-!
# What Is Queued about a Link

Each side of a link is told of it by signals of its own, so while signals wait
the two sides may list different partners. What counts is how a side will stand
when it has handled all that waits for it. The last signal that waits about the
link decides that, and if there is none the table does. Handling a signal does
not change how a side will stand: what the signal says was counted already.

There is one exception. An exit signal ends the link at the process that
receives it, and nothing was queued about the link. If the sender ended there is
nothing left to disagree about, but a living process can send one too, to
another that traps it.

## Main definitions

* `Node.ties`, `Node.tied`: What is queued about a link, and what will come of it.
* `Node.Hears`: A process lists another or has a signal about a link with it.
* `Node.breaks`: The links that an operation ends on one side only.
* `Node.Calm`: Nothing changes about a link, as far as one side is concerned.

## Theorems

* `mem_links_of_reactAlive`: What signals do to links.
* `calm_of`: Changes that leave links and signals about them alone.
* `calm_handle`: A signal is handled and breaks no link.
* `calm_step`: What operations do that are not about links.
-/

namespace Actors

/-- Whether a signal makes a link or takes one back. -/
def Signal.tie? : Signal → Option Bool
  | .link => some true
  | .unlink => some false
  | _ => none

/-- The processes that an operation links, or whose link it takes back. -/
def NodeOp.partners : NodeOp → List Pid
  | .spawnLink linked => [linked]
  | .link a b => [a, b]
  | .unlink a b => [a, b]
  | _ => []

/-- Whether an operation makes a process. -/
def NodeOp.isBirth : NodeOp → Bool
  | .spawn | .spawnLink _ | .spawnMonitor _ => true
  | _ => false

/-- Whether an operation sends a signal about a link directly. -/
def NodeOp.forges : NodeOp → Bool
  | .signal _ s _ => s.tie?.isSome
  | _ => false

namespace Node

/-- What a queued signal says about the link of a process with another. -/
def tieBetween (p q : Pid) (d : Delivery) : Option Bool :=
  if d.target = p ∧ d.sender = q then d.signal.tie? else none

/-- What is queued about the link of a process with another, in order. -/
def ties (n : Node) (p q : Pid) : List Bool := n.queue.signals.filterMap (tieBetween p q)

/-- Whether a process will list another when it has handled what is queued. -/
def tied (n : Node) (p q : Pid) : Bool :=
  (n.ties p q).getLast?.getD (decide (q ∈ n.linksOf p))

/-- A process lists another or has a signal about a link with it. -/
def Hears (n : Node) (p q : Pid) : Prop := q ∈ n.linksOf p ∨ n.ties p q ≠ []

/-- The links that an operation ends on one side only: a living process traps an
    exit signal of a partner that is alive. The one who forgets comes first. -/
def breaks (n : Node) : NodeOp → List (Pid × Pid)
  | .handleInHand =>
      match n.queue.next? with
      | none => []
      | some (d, _) =>
          match n.process? d.target, d.signal with
          | some c, .exit reason =>
              if c.isAlive ∧ c.traps reason ∧ d.sender ∈ c.links ∧ n.lives d.sender then
                [(d.target, d.sender)]
              else []
          | _, _ => []
  | _ => []

/-- Nothing changes about a link, as far as one side is concerned, and nobody
    is made. -/
structure Calm (p q : Pid) (n n' : Node) : Prop where
  ages : n.Ages n'
  lives : ∀ x, n'.lives x = true → n.lives x = true
  hears : n'.Hears p q → n.Hears p q
  tied : n'.lives p = true → n'.lives q = true → n'.tied p q = n.tied p q

variable {p q x : Pid} {n n' n'' : Node} {ds : List Delivery} {d : Delivery}

/-! ## Signals about a link -/

theorem tieBetween_eq_none (h : d.signal.tie? = none) : tieBetween p q d = none := by
  rw [tieBetween, h, ite_self]

/-- A signal says something about a link if it is about links and goes from the one to the other. -/
theorem tieBetween_eq_some_iff {v : Bool} :
    tieBetween p q d = some v ↔ d.target = p ∧ d.sender = q ∧ d.signal.tie? = some v := by
  rw [tieBetween]
  split
  next h => simp only [h, true_and]
  next h =>
    refine ⟨fun hv => absurd hv (by simp), fun hv => ?_⟩
    exact absurd ⟨hv.1, hv.2.1⟩ h

theorem filterMap_tie_eq_nil (h : ∀ d ∈ ds, d.signal.tie? = none) :
    ds.filterMap (tieBetween p q) = [] :=
  List.filterMap_eq_nil_iff.mpr fun d hd => tieBetween_eq_none (h d hd)

theorem ties_queueAll (n : Node) (ds : List Delivery) (p q : Pid) :
    (n.queueAll ds).ties p q = n.ties p q ++ ds.filterMap (tieBetween p q) := by
  rw [ties, signals_queueAll, List.filterMap_append, ties]

/-- The last of the signals that are queued decides, if one is about the link. -/
theorem tied_queueAll (n : Node) (ds : List Delivery) (p q : Pid) :
    (n.queueAll ds).tied p q = (ds.filterMap (tieBetween p q)).getLast?.getD (n.tied p q) := by
  rw [tied, ties_queueAll, List.getLast?_append, Option.getD_or]
  rfl

theorem ties_of_next {rest : Dispatcher} (hs : n.queue.signals = d :: rest.signals) :
    n.ties p q = (tieBetween p q d).toList ++ (n.withQueue rest).ties p q := by
  rw [ties, hs, List.filterMap_cons]
  rcases tieBetween p q d with _ | v <;> rfl

/-- The signal in hand counts unless a later one says otherwise. -/
theorem tied_of_next {rest : Dispatcher} (hs : n.queue.signals = d :: rest.signals) :
    n.tied p q = ((n.withQueue rest).ties p q).getLast?.getD
      ((tieBetween p q d).getD (decide (q ∈ n.linksOf p))) := by
  rw [tied, ties_of_next hs, List.getLast?_append, Option.getD_or]
  rcases tieBetween p q d with _ | v <;> rfl

theorem tie?_of_deliveries {sender : Pid} {s : Signal} {target : Dest} (hs : s.tie? = none)
    (hd : d ∈ n.deliveries sender s target) : d.signal.tie? = none := by
  rcases (mem_deliveries hd).2.2 with heq | ⟨m, heq⟩
  · rw [heq, hs]
  · rw [heq]
    rfl

theorem tie?_of_farewellsOf {c : Process} {reason : Term} (hd : d ∈ n.farewellsOf p c reason) :
    d.signal.tie? = none := by
  rcases signal_of_farewellsOf hd with ⟨heq, -⟩ | ⟨ref, r, heq⟩ | ⟨e, heq⟩ <;> rw [heq] <;> rfl

/-- The dead answer with news of their death, and not with links. -/
theorem tie?_of_answers {d' : Delivery} (hd : d' ∈ n.answers d) : d'.signal.tie? = none := by
  rw [answers] at hd
  rcases hs : d.signal with m | _ | _ | ref | ref | reason | ⟨ref, reason⟩ <;>
    simp only [hs, Process.answerTo] at hd
  case link | monitor => exact tie?_of_deliveries rfl hd
  all_goals exact absurd hd List.not_mem_nil

/-! ## Links -/

theorem linksOf_update_of_ne {f : Process → Process} (h : p ≠ x) :
    (n.update x f).linksOf p = n.linksOf p := by
  rw [linksOf, process?_update, if_neg h, linksOf]

/-- What signals do to links. -/
theorem mem_links_of_reactAlive {c c' : Process} {sender : Pid} {s : Signal}
    (h : c.reactAlive sender s = .become c') (y : Pid) :
    y ∈ c'.links ↔ y = sender ∧ s = .link ∨
      y ∈ c.links ∧ (y = sender → s ≠ .unlink ∧ ∀ reason, s ≠ .exit reason) := by
  cases s with
  | exit reason =>
      rw [(Process.reactAlive_exit_become h).2]
      change y ∈ c.links.erase sender ↔ _
      simp
  | link | unlink =>
      rw [Process.reactAlive, Process.Reaction.become.injEq] at h
      rw [← h]
      simp [or_comm]
  | _ =>
      rw [Process.reactAlive, Process.Reaction.become.injEq] at h
      rw [← h]
      simp [Process.receive]

/-! ## What leaves links alone -/

theorem Calm.refl (p q : Pid) (n : Node) : Calm p q n n :=
  ⟨.refl n, fun _ h => h, fun h => h, fun _ _ => rfl⟩

theorem Calm.trans (h : Calm p q n n') (h' : Calm p q n' n'') : Calm p q n n'' :=
  ⟨h.ages.trans h'.ages, fun x hx => h.lives x (h'.lives x hx), fun hh => h.hears (h'.hears hh),
    fun hp hq => (h'.tied hp hq).trans (h.tied (h'.lives p hp) (h'.lives q hq))⟩

/-- Who is still there has the links it had, or is dead and has none. -/
theorem calm_of (hage : n.Ages n') (hties : n'.ties p q = n.ties p q)
    (hprocess : ∀ x c', n'.process? x = some c' →
      (∃ c, n.process? x = some c ∧ c'.life = c.life ∧ ∀ y, y ∈ c'.links ↔ y ∈ c.links) ∨
        c'.isAlive = false ∧ c'.links = ∅) : Calm p q n n' := by
  refine ⟨hage, fun x hx => ?_, fun hh => ?_, fun hp _ => ?_⟩
  · rcases lives_iff.mp hx with ⟨c', hc', ha⟩
    rcases hprocess x c' hc' with ⟨c, hc, hlife, -⟩ | ⟨hdead, -⟩
    · rw [Process.isAlive, hlife, ← Process.isAlive] at ha
      exact lives_of hc ha
    · exact absurd (hdead.symm.trans ha) (by simp)
  · rw [Hears, hties] at hh
    refine hh.imp_left fun hq => ?_
    rcases hc' : n'.process? p with _ | c'
    · rw [linksOf, hc'] at hq
      exact absurd hq (PidSet.not_mem_empty q)
    · rw [linksOf_eq hc'] at hq
      rcases hprocess p c' hc' with ⟨c, hc, -, hlinks⟩ | ⟨-, hempty⟩
      · rwa [linksOf_eq hc, ← hlinks]
      · rw [hempty] at hq
        exact absurd hq (PidSet.not_mem_empty q)
  · -- Of the dead nothing is asked.
    rcases lives_iff.mp hp with ⟨c', hc', ha⟩
    rcases hprocess p c' hc' with ⟨c, hc, -, hlinks⟩ | ⟨hdead, -⟩
    · rw [Node.tied, hties, linksOf_eq hc', Node.tied, linksOf_eq hc]
      simp only [hlinks]
    · exact absurd (hdead.symm.trans ha) (by simp)

/-- Signals that say nothing to one side about its link with the other. -/
theorem calm_queueAll_of_ties (h : ds.filterMap (tieBetween p q) = []) :
    Calm p q n (n.queueAll ds) := by
  refine calm_of (ages_of rfl rfl fun _ c' hc' => ⟨c', hc', Or.inr rfl⟩) ?_ fun x c' hc' => ?_
  · rw [ties_queueAll, h, List.append_nil]
  · exact Or.inl ⟨c', hc', rfl, fun _ => Iff.rfl⟩

theorem calm_queueAll (h : ∀ d ∈ ds, d.signal.tie? = none) : Calm p q n (n.queueAll ds) :=
  calm_queueAll_of_ties (filterMap_tie_eq_nil h)

/-- A change of a process that is not about its links. -/
theorem calm_update {f : Process → Process} (hf : ∀ c, n.process? x = some c →
    (f c).life = c.life ∧ ∀ y, y ∈ (f c).links ↔ y ∈ c.links) : Calm p q n (n.update x f) := by
  refine calm_of (ages_update fun c hc => Or.inr (hf c hc).1) rfl fun y c' hc' => Or.inl ?_
  rcases process?_of_update hc' with ⟨c, rfl, hc, rfl⟩ | ⟨-, hold⟩
  · exact ⟨c, hc, hf c hc⟩
  · exact ⟨c', hold, rfl, fun _ => Iff.rfl⟩

/-- A change of names, routes and references only. -/
theorem calm_same (hcreation : n'.creation = n.creation) (htable : n'.table = n.table)
    (hqueue : n'.queue.signals = n.queue.signals) (hprocesses : n'.processes = n.processes) :
    Calm p q n n' := by
  have hold : ∀ x c', n'.process? x = some c' → n.process? x = some c' := by
    intro x c' hc'
    rwa [process?, hprocesses] at hc'
  refine calm_of (ages_of hcreation htable fun x c' hc' => ⟨c', hold x c' hc', Or.inr rfl⟩)
    (by rw [ties, hqueue, ties]) fun x c' hc' => Or.inl ⟨c', hold x c' hc', rfl, fun _ => Iff.rfl⟩

/-- A death takes the dead from the links, but it is calm for those who are alive. The farewells
    tell them, and they say nothing about making or taking back a link. -/
theorem calm_fall (hn : n.Coherent) {c₀ : Process} (hc : n.process? x = some c₀)
    (ha : c₀.isAlive = true) (c : Process) (reason : Term) :
    Calm p q n (n.fall x c reason) := by
  refine calm_of (ages_fall hn.table hc ha c reason) ?_ fun y c' hc' => ?_
  · have hnil : (n.farewellsOf x c reason).filterMap (tieBetween p q) = [] :=
      filterMap_tie_eq_nil fun d hd => tie?_of_farewellsOf hd
    rw [ties, signals_fall, List.filterMap_append, hnil, List.append_nil, ties]
  · -- Whoever is there afterwards is the dead one, without links, or somebody else as he was.
    rcases process?_of_fall hc' with ⟨-, rfl⟩ | ⟨-, hold⟩
    · exact Or.inr ⟨rfl, rfl⟩
    · exact Or.inl ⟨c', hold, rfl, fun _ => Iff.rfl⟩

theorem calm_reclaim (hn : n.Coherent) (x : Pid) : Calm p q n (n.reclaim x) := by
  refine calm_of (ages_reclaim n hn.table x) ?_ fun y c' hc' => Or.inl ?_
  · rcases reclaim_cases n x with ⟨hr, -⟩ | ⟨c, -, -, -, ⟨-, hr⟩ | ⟨-, hr⟩⟩ <;> rw [hr] <;> rfl
  · exact ⟨c', process?_of_reclaim hc', rfl, fun _ => Iff.rfl⟩

/-! ## A signal is handled -/

/-- A living process that traps the exit signal of a living partner is a link broken on one side. -/
theorem mem_breaks {rest : Dispatcher} {c : Process} {reason : Term}
    (hnext : n.queue.next? = some (d, rest)) (hc : n.process? d.target = some c)
    (ha : c.isAlive = true) (hs : d.signal = .exit reason) (ht : c.traps reason = true)
    (hlink : d.sender ∈ c.links) (hsender : n.lives d.sender = true) :
    (d.target, d.sender) ∈ n.breaks .handleInHand := by
  simp only [breaks, hnext, hc, hs]
  rw [if_pos ⟨ha, ht, hlink, hsender⟩]
  exact List.mem_singleton.mpr rfl

/-- A living process that reacts stands as the signal says. If the signal is
    about nothing, or about somebody else, it stands as it did. -/
theorem links_of_reactAlive {c c' : Process} (hr : c.reactAlive d.sender d.signal = .become c')
    (hexit : ∀ reason, d.signal = .exit reason → q = d.sender → q ∉ c.links) :
    decide (q ∈ c'.links) = (tieBetween d.target q d).getD (decide (q ∈ c.links)) := by
  have hmem := mem_links_of_reactAlive hr q
  -- The signal is about the link with its sender only.
  by_cases hq : q = d.sender
  · rw [tieBetween, if_pos ⟨rfl, hq.symm⟩]
    rcases hs : d.signal with m | _ | _ | ref | ref | reason | ⟨ref, reason⟩ <;>
      simp only [hs, hq] at hmem hexit ⊢ <;> simp_all [Signal.tie?]
  · rw [tieBetween, if_neg fun h => hq h.2.symm]
    simp_all

/-- A signal that is not about the link is taken from the queue. -/
theorem calm_next {rest : Dispatcher} (hs : n.queue.signals = d :: rest.signals)
    (hd : tieBetween p q d = none) : Calm p q n (n.withQueue rest) := by
  refine calm_of (ages_withQueue n rest) ?_ fun x c' hc' => Or.inl ⟨c', hc', rfl, fun _ => Iff.rfl⟩
  rw [ties_of_next hs, hd]
  rfl

/-- A living process reacts to a signal and goes on. -/
theorem calm_become {rest : Dispatcher} {c c' : Process}
    (hnext : n.queue.next? = some (d, rest)) (hc : n.process? d.target = some c)
    (ha : c.isAlive = true) (hr : c.reactAlive d.sender d.signal = .become c')
    (hbreaks : (p, q) ∉ n.breaks .handleInHand) :
    Calm p q n ((n.withQueue rest).update d.target fun _ => c') := by
  have hs := Dispatcher.signals_of_next? hnext
  have hlife : ∀ c₁, n.process? d.target = some c₁ → c'.life = c₁.life := by
    intro c₁ hc₁
    rw [hc, Option.some.injEq] at hc₁
    rw [← hc₁, (Process.reactAlive_become hr).1]
  have hlives := lives_update (n := n.withQueue rest) (f := fun _ => c') hlife
  have hself : ((n.withQueue rest).update d.target fun _ => c').linksOf d.target = c'.links :=
    linksOf_eq (process?_update_self (n := n.withQueue rest) hc _)
  refine ⟨(ages_withQueue n rest).trans (ages_update fun c₁ hc₁ => Or.inr (hlife c₁ hc₁)),
    fun x hx => (hlives x).symm.trans hx, fun hh => ?_, fun _ hq => ?_⟩
  · rcases hh with hlink | hties
    · by_cases hp : p = d.target
      · rw [hp, hself, mem_links_of_reactAlive hr] at hlink
        rcases hlink with ⟨hsender, hsig⟩ | ⟨hold, -⟩
        · -- It lists the sender now, which it had a signal from.
          have htie : d.signal.tie? = some true := by rw [hsig]; rfl
          refine Or.inr ?_
          rw [ties_of_next hs, tieBetween_eq_some_iff.mpr ⟨hp.symm, hsender.symm, htie⟩]
          exact List.cons_ne_nil _ _
        · exact Or.inl (by rwa [hp, linksOf_eq hc])
      · rw [linksOf_update_of_ne hp] at hlink
        exact Or.inl hlink
    · refine Or.inr fun hnil => hties ?_
      rw [ties_of_next hs, List.append_eq_nil_iff] at hnil
      exact hnil.2
  · -- What was counted while the signal waited stands in the table now.
    rw [tied_of_next hs]
    change ((n.withQueue rest).ties p q).getLast?.getD
      (decide (q ∈ ((n.withQueue rest).update d.target fun _ => c').linksOf p)) = _
    congr 1
    by_cases hp : p = d.target
    · rw [hp, hself, linksOf_eq hc]
      refine links_of_reactAlive hr fun reason hsig hsender hlink => ?_
      -- An exit signal that is not the last is trapped, and this one breaks the link.
      have htraps : c.traps reason = true := by
        rw [hsig, Process.reactAlive] at hr
        split at hr
        next ht => exact ht
        next => exact absurd hr (by simp)
      rw [hsender] at hlink hq
      have hmem := mem_breaks hnext hc ha hsig htraps hlink ((hlives d.sender).symm.trans hq)
      exact hbreaks (by rwa [hp, hsender])
    · have hsilent : tieBetween p q d = none := if_neg fun h => hp h.1.symm
      rw [linksOf_update_of_ne hp, hsilent]
      rfl

/-- A signal is handled and breaks no link. -/
theorem calm_handle (hn : n.Coherent) {rest : Dispatcher}
    (hnext : n.queue.next? = some (d, rest)) (hbreaks : (p, q) ∉ n.breaks .handleInHand) :
    Calm p q n ((n.withQueue rest).handle d) := by
  have hs := Dispatcher.signals_of_next? hnext
  have hcoh := hn.next hs
  rcases Option.isSome_iff_exists.mp (hn.targets d (by rw [hs]; exact List.mem_cons_self))
    with ⟨c, hc⟩
  rcases handle_cases (n := n.withQueue rest) hc with ⟨hdead, hh⟩ | ⟨ha, c', hr, hh⟩ |
    ⟨ha, reason, hsig, -, hh⟩ <;> rw [hh]
  · have hanswer : Calm p q (n.withQueue rest)
        ((n.withQueue rest).queueAll ((n.withQueue rest).answers d)) :=
      calm_queueAll fun d' hd' => tie?_of_answers hd'
    rcases hsaid : tieBetween p q d with _ | v
    · exact (calm_next hs hsaid).trans hanswer
    · -- Whoever it was for has ended, and need not agree with anybody.
      have htarget := (tieBetween_eq_some_iff.mp hsaid).1
      refine ⟨(ages_withQueue n rest).trans hanswer.ages, hanswer.lives, fun _ => Or.inr ?_,
        fun hp _ => ?_⟩
      · rw [ties_of_next hs, hsaid]
        exact List.cons_ne_nil _ _
      · have hlive : n.lives p = true := hanswer.lives p hp
        rw [← htarget, lives_of_process? hc, hdead] at hlive
        exact absurd hlive (by simp)
  · exact calm_become hnext hc ha hr hbreaks
  · -- The target ends, and an exit signal was not counted.
    have hsaid : tieBetween p q d = none := tieBetween_eq_none (by rw [hsig]; rfl)
    exact (calm_next hs hsaid).trans (calm_fall hcoh hc ha _ _)

/-! ## Operations that are not about links -/

theorem calm_track (n : Node) (watcher : Pid) (ref : Ref) (watchee : Pid) :
    Calm p q n (n.track watcher ref watchee) := by
  rcases track_cases n watcher ref watchee with ht | ht <;> rw [ht]
  · exact .refl p q n
  · refine calm_update fun c _ => ?_
    rw [Process.trackMonitor]
    split <;> exact ⟨rfl, fun _ => Iff.rfl⟩

theorem mem_links_reorder (c : Process) (links : PidSet) (watchers : Dict Ref Pid) (y : Pid) :
    y ∈ (c.reorder links watchers).links ↔ y ∈ c.links := by
  rcases Process.reorder_cases c links watchers with hr | ⟨hl, -, hr⟩ <;> rw [hr]
  exact hl.mem_iff

/-- What operations do that are not about links and make nobody. -/
theorem calm_step (hn : n.Coherent) {op : NodeOp} (hpartners : op.partners = [])
    (hbirth : op.isBirth = false) (hraw : op.forges = false) (hbreaks : (p, q) ∉ n.breaks op) :
    Calm p q n (n.step op) := by
  by_cases hclerical : op.isClerical = true
  · rcases clerical_step n hclerical with ⟨names, routers, he⟩
    rw [he]
    exact calm_same rfl rfl rfl rfl
  cases op with
  | makeRef => exact calm_same rfl rfl rfl rfl
  | makePid =>
      have hage := ages_step hn .makePid
      rw [step] at hage ⊢
      rcases makePid_cases n with he | ⟨id, serial, table, -, he⟩ <;> rw [he] at hage ⊢
      · exact .refl p q n
      · -- The table of slots changes, but nobody gets the name.
        exact calm_of hage rfl fun x c' hc' => Or.inl ⟨c', hc', rfl, fun _ => Iff.rfl⟩
  | signal sender s target =>
      rw [step, signal_snd]
      have htie : s.tie? = none := Option.not_isSome_iff_eq_none.mp (Bool.eq_false_iff.mp hraw)
      exact calm_queueAll fun d hd => tie?_of_deliveries htie hd
  | monitor watcher watchee =>
      rw [step, monitor_eq]
      have hcount : Calm p q n n.countRef := calm_same rfl rfl rfl rfl
      refine (hcount.trans (calm_track n.countRef watcher n.nextRef watchee)).trans ?_
      refine calm_queueAll fun d hd => ?_
      rw [monitorDeliveries] at hd
      split at hd <;> exact tie?_of_deliveries rfl hd
  | demonitor watcher ref =>
      rw [step]
      rcases demonitor_cases n watcher ref with hd | ⟨c, watchee, -, -, hd⟩ <;> rw [hd]
      · exact .refl p q n
      · have hforget : Calm p q n
            (n.update watcher fun c => { c with monitors := c.monitors.erase ref }) :=
          calm_update fun _ _ => ⟨rfl, fun _ => Iff.rfl⟩
        exact hforget.trans (calm_queueAll fun d hd => tie?_of_deliveries rfl hd)
  | die p' reason =>
      rw [step]
      rcases die_cases n p' reason with ⟨hd, -⟩ | ⟨c, hc, ha, hd⟩ <;> rw [hd]
      · exact .refl p q n
      · exact calm_fall hn hc ha c _
  | setFlag p' f value => exact calm_update fun c _ => by cases f; exact ⟨rfl, fun _ => Iff.rfl⟩
  | receive p' r => exact calm_update fun _ _ => ⟨rfl, fun _ => Iff.rfl⟩
  | reorder p' links watchers =>
      exact calm_update fun c _ =>
        ⟨c.life_reorder links watchers, mem_links_reorder c links watchers⟩
  | retain p' => exact calm_update fun _ _ => ⟨rfl, fun _ => Iff.rfl⟩
  | letGo p' =>
      have hdrop : Calm p q n (n.loosen p') := calm_update fun _ _ => ⟨rfl, fun _ => Iff.rfl⟩
      exact hdrop.trans (calm_reclaim hn.loosen p')
  | beginTurn => exact calm_same rfl rfl (Dispatcher.signals_beginTurn n.queue) rfl
  | handleInHand =>
      rw [step]
      rcases handleInHand_cases n with ⟨-, hi⟩ | ⟨d, rest, hnext, hs, hi⟩ <;> rw [hi]
      · exact .refl p q n
      · exact (calm_handle hn hnext hbreaks).trans
          (calm_reclaim ((hn.next hs).handle d) d.target)
  | spawn | spawnLink | spawnMonitor => exact absurd hbirth (by simp [NodeOp.isBirth])
  | link | unlink => exact absurd hpartners (by simp [NodeOp.partners])
  | register | unregister | registerRouter | unregisterRouter | nodeIndex | remotePid =>
      exact absurd rfl hclerical

end Node

end Actors
