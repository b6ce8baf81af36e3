import Actors.Proofs.Node.Living
import Actors.Proofs.Node.Ties

/-!
# The Outlook on a Link

How a process will stand to another when it has handled all that waits for it,
exit signals included. A signal about a link that is handled now was counted when
it was queued, so the outlook changes only with what is queued: `willList_step`.
That makes it easy to follow over a run. It holds for one side alone, whatever the
other side thinks, and for a partner that has ended as well as for one that lives.

The side in question has to be alive. A process that dies forgets its partners all
at once, and instead of an outlook there are its farewells: `posts_of_deaths` says
that those who are told are those whom it listed to the last.

## Main definitions

* `Node.settle`: What one signal does to the outlook.
* `Node.willList`: Whether a process will list another one.
* `Node.Ends`: A process ends, and in which state.

## Theorems

* `links_step`: Links change only by signals that are handled.
* `willList_step`, `willList_run`: How the outlook changes.
* `foldl_settle_cases`: Why an outlook is what it is.
* `ends_of_deaths`, `Ends.posts`, `Ends.links`: What is queued when a process ends.
* `filter_attends`: What waited for a living process was handled by it.
-/

namespace Actors

namespace Node

/-- Whether a process will list another after a signal, if it knows whether it
    would without it. -/
def settle (p y : Pid) (listed : Bool) (d : Delivery) : Bool :=
  if d.target = p ∧ d.sender = y then
    match d.signal with
    | .link => true
    | .unlink | .exit _ => false
    | _ => listed
  else listed

/-- Whether a process will list another when it has handled what waits for it. -/
def willList (n : Node) (p y : Pid) : Bool :=
  n.queue.signals.foldl (settle p y) (decide (y ∈ n.linksOf p))

/-- A process ends. If an exit signal ends it, it has forgotten its link with the
    sender by then. -/
inductive Ends (n : Node) (p : Pid) (c : Process) (reason : Term) : NodeOp → Prop
  | self {r : Term} (hc : n.process? p = some c) (ha : c.isAlive = true)
      (hr : reason = Reason.recorded r) : Ends n p c reason (.die p r)
  | told {d : Delivery} {q : Dispatcher} {c₀ : Process} {r : Term}
      (hq : n.queue.next? = some (d, q)) (hp : d.target = p) (hc : n.process? p = some c₀)
      (hreact : c₀.react d.sender d.signal = .die c r) (hr : reason = Reason.recorded r) :
      Ends n p c reason .handleInHand

variable {p q x y : Pid} {n n' : Node} {ds : List Delivery} {d : Delivery}

/-! ## One signal -/

theorem settle_of_ne (h : ¬ (d.target = p ∧ d.sender = y)) (listed : Bool) :
    settle p y listed d = listed := if_neg h

theorem settle_link (listed : Bool) : settle p y listed ⟨p, y, .link⟩ = true := by
  rw [settle, if_pos ⟨rfl, rfl⟩]

theorem settle_exit (listed : Bool) (reason : Term) :
    settle p y listed ⟨p, y, .exit reason⟩ = false := by
  rw [settle, if_pos ⟨rfl, rfl⟩]

/-- An outlook that a signal makes worse is one of a partner who leaves. -/
theorem settle_true_of (h : d.target = p → d.sender = y → d.signal ≠ .unlink ∧
    ∀ reason, d.signal ≠ .exit reason) : settle p y true d = true := by
  rw [settle]
  -- Only signals of the partner count, and among those the last two kinds change nothing.
  split
  next heq =>
    rcases h heq.1 heq.2 with ⟨hunlink, hexit⟩
    split
    next => rfl
    next hs => exact absurd hs hunlink
    next reason hs => exact absurd hs (hexit reason)
    next => rfl
  next => rfl

/-- An outlook gets better only by a request of the partner. -/
theorem settle_false_of (h : d ≠ ⟨p, y, .link⟩) : settle p y false d = false := by
  rw [settle]
  split
  next heq =>
    split
    next hs =>
      rcases d with ⟨target, sender, signal⟩
      exact absurd (by rw [← heq.1, ← heq.2, ← hs]) h
    next => rfl
    next => rfl
    next => rfl
  next => rfl

/-! ## Many signals -/

/-- Whoever will be listed is listed now, or asked for it. -/
theorem foldl_settle_cases {listed : Bool} (h : ds.foldl (settle p y) listed = true) :
    listed = true ∨ ⟨p, y, .link⟩ ∈ ds := by
  induction ds generalizing listed with
  | nil => exact Or.inl h
  | cons d rest ih =>
      rcases ih h with hnow | hlater
      · -- The first signal is the request, or it did not make the outlook better.
        by_cases hd : d = ⟨p, y, .link⟩
        · exact Or.inr (hd ▸ List.mem_cons_self)
        · rcases listed with _ | _
          · rw [settle_false_of hd] at hnow
            exact absurd hnow Bool.false_ne_true
          · exact Or.inl rfl
      · exact Or.inr (List.mem_cons_of_mem d hlater)

theorem foldl_settle_true (h : ∀ d ∈ ds, d.target = p → d.sender = y → d.signal ≠ .unlink ∧
    ∀ reason, d.signal ≠ .exit reason) : ds.foldl (settle p y) true = true := by
  induction ds with
  | nil => rfl
  | cons d rest ih =>
      rw [List.foldl_cons, settle_true_of (h d List.mem_cons_self)]
      exact ih fun e he => h e (List.mem_cons_of_mem d he)

theorem foldl_settle_false (h : ⟨p, y, .link⟩ ∉ ds) : ds.foldl (settle p y) false = false :=
  Bool.eq_false_iff.mpr fun ht => (foldl_settle_cases ht).elim Bool.false_ne_true h

/-- A partner that sent an exit signal and no request since will not be listed. -/
theorem foldl_settle_exit {reason : Term} (hlink : ⟨p, y, .link⟩ ∉ ds)
    (hexit : ⟨p, y, .exit reason⟩ ∈ ds) (listed : Bool) :
    ds.foldl (settle p y) listed = false := by
  rcases List.append_of_mem hexit with ⟨before, after, rfl⟩
  rw [List.foldl_append, List.foldl_cons, settle_exit]
  exact foldl_settle_false fun hmem =>
    hlink (List.mem_append_right before (List.mem_cons_of_mem _ hmem))

/-- Where nobody is told of an end, and no request is queued, an outlook stays as it is. -/
theorem foldl_settle_of_silent (htie : ∀ d ∈ ds, d.signal.tie? = none)
    (hsilent : ∀ d ∈ ds, tells y p d = false) (listed : Bool) :
    ds.foldl (settle p y) listed = listed := by
  induction ds with
  | nil => rfl
  | cons d rest ih =>
      have hd : settle p y listed d = listed := by
        by_cases heq : d.target = p ∧ d.sender = y
        · have hnot := hsilent d List.mem_cons_self
          have hnone := htie d List.mem_cons_self
          rw [settle, if_pos heq]
          -- It is no request by `htie`, and no exit signal by `hsilent`. Nothing else is about
          -- links.
          rcases hs : d.signal with m | _ | _ | ref | ref | r | ⟨ref, r⟩ <;> rw [hs] at hnone
          case link | unlink => exact absurd hnone (by simp [Signal.tie?])
          case exit =>
            rw [tells_iff.mpr ⟨⟨r, hs⟩, heq.2, heq.1⟩] at hnot
            exact absurd hnot (by simp)
        · exact settle_of_ne heq listed
      rw [List.foldl_cons, hd]
      exact ih (fun e he => htie e (List.mem_cons_of_mem d he)) fun e he =>
        hsilent e (List.mem_cons_of_mem d he)

/-! ## Links change only by signals -/

theorem linksOf_congr (h : n'.process? p = n.process? p) : n'.linksOf p = n.linksOf p := by
  rw [linksOf, h, linksOf]

/-- Signals for others do not count. -/
theorem foldl_settle_of_target (h : ∀ d ∈ ds, d.target ≠ p) (listed : Bool) :
    ds.foldl (settle p y) listed = listed := by
  induction ds with
  | nil => rfl
  | cons d rest ih =>
      rw [List.foldl_cons, settle_of_ne fun heq => h d List.mem_cons_self heq.1]
      exact ih fun e he => h e (List.mem_cons_of_mem d he)

/-- A living process that goes on stands as the signal says. -/
theorem settle_of_reactAlive {c c' : Process} (hr : c.reactAlive d.sender d.signal = .become c') :
    decide (y ∈ c'.links) = settle d.target y (decide (y ∈ c.links)) d := by
  have hmem := mem_links_of_reactAlive hr y
  by_cases hy : d.sender = y
  · -- For the partner itself the table says what was asked for last.
    have hpartner : y ∈ c'.links ↔ d.signal = .link ∨
        y ∈ c.links ∧ d.signal ≠ .unlink ∧ ∀ reason, d.signal ≠ .exit reason := by
      rw [hmem, hy]
      simp
    rw [settle, if_pos ⟨rfl, hy⟩]
    rcases hs : d.signal with m | _ | _ | ref | ref | reason | ⟨ref, reason⟩ <;>
      rw [hs] at hpartner
    case link => exact decide_eq_true (hpartner.mpr (Or.inl rfl))
    case unlink =>
      exact decide_eq_false fun h => (hpartner.mp h).elim (by simp) fun hl => hl.2.1 rfl
    case exit =>
      exact decide_eq_false fun h => (hpartner.mp h).elim (by simp) fun hl => hl.2.2 reason rfl
    all_goals exact decide_eq_decide.mpr (hpartner.trans (by simp))
  · -- Signals of others leave this entry alone.
    rw [settle_of_ne fun h => hy h.2, decide_eq_decide, hmem]
    refine ⟨fun h => h.elim (fun h => absurd h.1.symm hy) fun h => h.1, fun h => Or.inr ⟨h, ?_⟩⟩
    exact fun h' => absurd h'.symm hy

/-- The partners of a living process change by the signal that it handles. -/
theorem links_step (hn : n.Coherent) (hp : n.lives p = true) {op : NodeOp}
    (hp' : (n.step op).lives p = true) :
    decide (y ∈ (n.step op).linksOf p) =
      (n.takes op).foldl (settle p y) (decide (y ∈ n.linksOf p)) := by
  rcases lives_iff.mp hp with ⟨c, hc, ha⟩
  rcases lasts_step hn hc ha hp' with ⟨c', hc', hlast⟩
  rw [linksOf_eq hc, linksOf_eq hc']
  -- Only a handler writes links, or another order for them.
  cases hlast with
  | idle htakes _ => exact (foldl_settle_of_target htakes _).symm
  | setFlag f value => cases f; rfl
  | reorder links watchers => exact decide_eq_decide.mpr (mem_links_reorder c links watchers y)
  | monitor | spawnMonitor =>
      rw [Process.trackMonitor]
      split <;> rfl
  | handle hq htarget hr =>
      subst htarget
      rw [takes, hq]
      exact settle_of_reactAlive hr
  | _ => rfl

/-! ## The outlook changes with what is queued -/

/-- The outlook of a living process changes by what is queued, and by nothing else. -/
theorem willList_step (hn : n.Coherent) (hp : n.lives p = true) {op : NodeOp}
    (hp' : (n.step op).lives p = true) :
    (n.step op).willList p y = (n.posts op).foldl (settle p y) (n.willList p y) := by
  -- What was taken moves from the queue into the table and counts as before.
  rw [willList, links_step hn hp hp', ← List.foldl_append, takes_append_signals_step,
    List.foldl_append, willList]

/-- So it does over a run. -/
theorem willList_run (hn : n.Coherent) (hp : n.lives p = true) {ops : List NodeOp}
    (hp' : (n.run ops).lives p = true) :
    (n.run ops).willList p y = (n.collect posts ops).foldl (settle p y) (n.willList p y) := by
  induction ops generalizing n with
  | nil => rfl
  | cons op rest ih =>
      have hmid := lives_between hn hp hp'
      rw [run_cons, ih (coherent_step hn op) hmid hp', willList_step hn hp hmid, collect,
        List.foldl_append]

theorem willList_queueAll (n : Node) (ds : List Delivery) (p y : Pid) :
    (n.queueAll ds).willList p y = ds.foldl (settle p y) (n.willList p y) := by
  rw [willList, signals_queueAll, List.foldl_append]
  rfl

/-- When nothing waits, the outlook is the link. -/
theorem willList_of_quiet (hq : n.queue.signals = []) :
    n.willList p y = decide (y ∈ n.linksOf p) := by
  rw [willList, hq]
  rfl

/-! ## What is handled -/

theorem attends_eq (n : Node) (op : NodeOp) :
    n.attends op = (n.takes op).filter fun d => n.lives d.target := by
  cases op with
  | handleInHand =>
      rw [attends, takes]
      rcases n.queue.next? with _ | ⟨d, q⟩
      · rfl
      · rcases hl : n.lives d.target with _ | _ <;> simp [hl]
  | _ => rfl

/-- What was taken for a process that is still alive was handled by it. -/
theorem filter_attends (hn : n.Coherent) {ops : List NodeOp} (hp' : (n.run ops).lives p = true)
    {test : Delivery → Bool} (htest : ∀ d, test d = true → d.target = p) :
    (n.collect attends ops).filter test = (n.collect takes ops).filter test := by
  induction ops generalizing n with
  | nil => rfl
  | cons op rest ih =>
      rw [collect, collect, List.filter_append, List.filter_append, ih (coherent_step hn op) hp',
        attends_eq, List.filter_filter]
      congr 1
      refine List.filter_congr fun d hd => ?_
      rcases ht : test d with _ | _
      · rfl
      · -- A signal is for a process, and nobody comes back, so this one was alive.
        rcases Option.isSome_iff_exists.mp (hn.targets d (mem_signals_of_takes hd)) with ⟨c, hc⟩
        rw [htest d ht] at hc ⊢
        rw [lives_at_start hn hc hp']
        rfl

/-! ## What is queued by handlers -/

/-- No handler asks for a link or takes one back. -/
theorem tie?_of_replies {e : Delivery} (he : e ∈ n.replies d) : e.signal.tie? = none := by
  rcases hc : n.process? d.target with _ | c
  · rw [replies, hc] at he
    exact absurd he List.not_mem_nil
  · -- The dead answer, the living go on, or somebody dies. None of that is about making links.
    rcases replies_cases hc with ⟨-, -, hr⟩ | ⟨-, -, hr⟩ | ⟨-, reason, -, -, -, hr⟩ <;>
      rw [hr] at he
    · exact tie?_of_answers he
    · exact absurd he List.not_mem_nil
    · exact tie?_of_farewellsOf he

theorem sender_of_answers {e : Delivery} (he : e ∈ n.answers d) : e.sender = d.target := by
  rw [answers] at he
  split at he
  next => exact (mem_deliveries he).2.1
  next => exact absurd he List.not_mem_nil

/-- Only a request to link is answered with an exit signal. -/
theorem signal_of_answers {e : Delivery} {reason : Term} (he : e ∈ n.answers d)
    (hs : e.signal = .exit reason) : d.signal = .link := by
  rw [answers] at he
  rcases hd : d.signal with m | _ | _ | ref | ref | r | ⟨ref, r⟩ <;>
    simp only [hd, Process.answerTo] at he
  case link => rfl
  -- A monitor is answered with a notice, which may travel in a message to a router.
  case monitor =>
    rcases (mem_deliveries he).2.2 with heq | ⟨m, heq⟩
    · exact absurd (heq.symm.trans hs) (by simp)
    · exact absurd (heq.symm.trans hs) (by simp)
  all_goals exact absurd he List.not_mem_nil

/-- A handler queues something only in the name of a process that has ended. -/
theorem sender_of_replies {e : Delivery} (he : e ∈ n.replies d) :
    e.sender = d.target ∧ (n.handle d).lives e.sender = false := by
  rcases hc : n.process? d.target with _ | c
  · rw [replies, hc] at he
    exact absurd he List.not_mem_nil
  · -- Whoever replies was dead, or has just died of the signal.
    rcases replies_cases hc with ⟨hdead, hh, hr⟩ | ⟨-, -, hr⟩ | ⟨-, reason, -, -, hh, hr⟩ <;>
      rw [hr] at he
    · rw [hh, sender_of_answers he]
      exact ⟨rfl, (lives_of_process? hc).trans hdead⟩
    · exact absurd he List.not_mem_nil
    · rw [hh, sender_of_farewellsOf he, lives_fall, if_pos rfl]
      exact ⟨rfl, rfl⟩

theorem mem_posts_handleInHand {e : Delivery} (he : e ∈ n.posts .handleInHand) :
    ∃ d q, n.queue.next? = some (d, q) ∧ e ∈ n.replies d := by
  rw [posts] at he
  rcases hq : n.queue.next? with _ | ⟨d, q⟩ <;> rw [hq] at he
  · exact absurd he List.not_mem_nil
  · exact ⟨d, q, rfl, he⟩

/-- What handlers queue is queued in the name of the dead. -/
theorem not_lives_of_posts {e : Delivery} (he : e ∈ n.posts .handleInHand) :
    (n.step .handleInHand).lives e.sender = false := by
  rcases mem_posts_handleInHand he with ⟨d, q, hq, hr⟩
  have hdead := (sender_of_replies (n := n.withQueue q) hr).2
  rw [Bool.eq_false_iff, step, handleInHand, hq]
  exact fun hl => absurd (hdead.symm.trans (lives_of_reclaim hl)) (by simp)

/-! ## A process ends -/

/-- A death is an end: the process asked for it, or was told. -/
theorem ends_of_deaths {op : NodeOp} {reason : Term} (hd : (p, reason) ∈ n.deaths op) :
    ∃ c, n.Ends p c reason op := by
  cases op with
  | die p' reason' =>
      rcases mem_deaths_die.mp hd with ⟨hl, rfl, rfl⟩
      rcases lives_iff.mp hl with ⟨c, hc, ha⟩
      exact ⟨c, .self hc ha rfl⟩
  | handleInHand =>
      rcases deaths_handleInHand_cases hd with ⟨d, q, c, r, hq, rfl, hc, ha, hs, ht, rfl⟩
      refine ⟨{ c with links := c.links.erase d.sender }, .told hq rfl hc ?_ rfl⟩
      rw [Process.react, if_pos ha, hs]
      simp only [Process.reactAlive, ht, Bool.false_eq_true, if_false]
  | _ => exact absurd hd List.not_mem_nil

/-- A process that ends sends its farewells. -/
theorem Ends.posts {op : NodeOp} {c : Process} {reason : Term} (h : n.Ends p c reason op) :
    n.posts op = n.farewellsOf p c reason := by
  cases h with
  | self hc ha hr => rw [Node.posts, hc, Option.filter_some, if_pos ha, hr]
  | told hq hx hc hreact hr =>
      subst hx
      simp only [Node.posts, hq, replies, hc, hreact, hr]

/-- The signal that ends a process still counts. -/
theorem Ends.links {op : NodeOp} {c : Process} {reason : Term} (h : n.Ends p c reason op)
    (y : Pid) : decide (y ∈ c.links) =
      (n.takes op).foldl (settle p y) (decide (y ∈ n.linksOf p)) := by
  cases h with
  | self hc ha hr =>
      rw [linksOf_eq hc]
      rfl
  | @told d q c₀ r hq hx hc hreact hr =>
      subst hx
      rcases Process.react_die hreact with ⟨-, hs, rfl, -⟩
      rw [takes, hq, linksOf_eq hc]
      change decide (y ∈ c₀.links.erase d.sender) = settle d.target y (decide (y ∈ c₀.links)) d
      -- The sender of the exit signal is forgotten, and everybody else stays.
      by_cases hy : d.sender = y
      · rw [settle, if_pos ⟨rfl, hy⟩, hs, ← hy]
        simp
      · rw [settle_of_ne fun h => hy h.2]
        simp [Ne.symm hy]

/-- A process that an operation ends sends its farewells to those whom it listed to
    the last: the signal that ends it still counts. -/
theorem posts_of_deaths {op : NodeOp} {reason : Term} (hd : (p, reason) ∈ n.deaths op) :
    ∃ c, n.posts op = n.farewellsOf p c reason ∧ ∀ y, decide (y ∈ c.links) =
      (n.takes op).foldl (settle p y) (decide (y ∈ n.linksOf p)) := by
  rcases ends_of_deaths hd with ⟨c, h⟩
  exact ⟨c, h.posts, h.links⟩

/-- No process asks for a link when it ends. -/
theorem link_not_mem_farewellsOf {c : Process} {reason : Term} :
    ∀ d ∈ n.farewellsOf p c reason, d.signal ≠ .link := by
  intro d hd hs
  have htie := tie?_of_farewellsOf hd
  rw [hs] at htie
  exact absurd htie (by simp [Signal.tie?])

end Node

end Actors
