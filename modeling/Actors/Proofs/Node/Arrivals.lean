import Actors.Proofs.Node.Outlook

/-!
# Signals Arrive in the Order in Which They Were Sent

What comes in at a process that stays alive, and in which order. There is one queue
for all signals of a node, so it does not matter who sent them, or how they were
addressed: a destination is resolved when the signal is sent, and what is queued
knows only the process that it is for. Nor do batches matter, since what waits in
two batches is still handled one after the other.

Nobody but the handler puts messages into a mailbox, and nobody but the receivers
of the process takes them out. So the history of the mailbox is that of a mailbox
alone, to which messages arrive in the order of the signals that were sent.

A process that ends sends its farewells in one go. They are queued behind all that
was sent before, to the same process or by the same one, so who hears of an end has
heard everything else. The exit signals of an end are queued before its notices, and
so a process that is a partner and a watcher gets the exit first.

## Main definitions

* `Delivery.message?`: The message that a signal becomes.
* `Node.events`: What an operation lets happen to the mailbox of a process.
* `Node.handledBy`: The signals that a process handles in a run.
* `Node.Addresses`: The destinations that stand for a process.
* `Node.InOrder`: What comes in at a process, and in which order.

## Theorems

* `mailboxOf_step`, `mailboxOf_run`: A mailbox changes by the events of its process.
* `handledBy_append_signals`: What a process handled and what waits for it is what
  was sent to it.
* `resolve_eq_process_iff`, `sends_of_coherent`: What a call sends to a process.
* `in_order_run`: Signals arrive in the order in which they were sent.
-/

namespace Actors

open Process (exitMessage downMessage)

/-- The message that a signal becomes for a process that lives on. -/
def Delivery.message? (d : Delivery) : Option Term :=
  match d.signal with
  | .relay message => some message
  | .exit reason => some (exitMessage d.sender reason)
  | .down ref reason => some (downMessage ref d.sender reason)
  | _ => none

/-- What happens to the mailbox of a living process. -/
inductive Process.Event where
  /-- The process handles a signal. -/
  | handles (d : Delivery)
  /-- A receiver of the process does something. -/
  | serves (r : Receive Term)

/-- The signal that is handled in an event. -/
def Process.Event.signal? : Process.Event → Option Delivery
  | .handles d => some d
  | .serves _ => none

/-- A mailbox after something happened. The message that a signal becomes arrives. -/
def Mailbox.after (b : Mailbox Term) : Process.Event → Mailbox Term
  | .handles d => d.message?.elim b b.push
  | .serves r => b.serve r

namespace Node

/-- Those of some signals that are for a process, in order. -/
def mail (a : Pid) (ds : List Delivery) : List Delivery := ds.filter fun d => d.target = a

/-- What an operation lets happen to the mailbox of a process, if that is alive. -/
def events (a : Pid) (n : Node) : NodeOp → List Process.Event
  | .receive p r => if p = a ∧ n.lives a = true then [.serves r] else []
  | op => (mail a (n.attends op)).map .handles

/-- The signals that a process handles in a run, in order. -/
def handledBy (n : Node) (a : Pid) (ops : List NodeOp) : List Delivery :=
  (n.collect (events a) ops).filterMap Process.Event.signal?

/-- The destinations that stand for a process. -/
inductive Addresses (n : Node) (a : Pid) : Dest → Prop
  | pid (h : n.lives a = true) : Addresses n a (.pid a)
  | name {name : String} (h : n.whereis name = some a) : Addresses n a (.name name)
  | own {name : String} (h : n.whereis name = some a) : Addresses n a (.remote name n.name)

variable {a x : Pid} {n : Node} {c c' : Process} {d : Delivery} {op : NodeOp}

/-! ## The mailbox of a process -/

/-- The mailbox of a process. One that is not there yet will start with an empty one. -/
def mailboxOf (n : Node) (a : Pid) : Mailbox Term := (n.process? a).elim .empty Process.mailbox

theorem mailboxOf_eq (hc : n.process? a = some c) : n.mailboxOf a = c.mailbox := by
  rw [mailboxOf, hc]
  rfl

/-- A living process that goes on gets the message of the signal. -/
theorem mailbox_reactAlive (hr : c.reactAlive d.sender d.signal = .become c') :
    c'.mailbox = c.mailbox.after (.handles d) := by
  rw [Mailbox.after, Delivery.message?]
  rcases hs : d.signal with m | _ | _ | ref | ref | reason | ⟨ref, reason⟩ <;> rw [hs] at hr
  case exit =>
    rw [(Process.reactAlive_exit_become hr).2]
    rfl
  all_goals
    rw [Process.reactAlive, Process.Reaction.become.injEq] at hr
    rw [← hr]
    rfl

/-- Apart from its receivers, only signals that it handles happen to the mailbox of a process. -/
theorem events_of_ne (hop : ∀ r, op ≠ .receive a r) :
    events a n op = (mail a (n.attends op)).map .handles := by
  cases op with
  | receive p r =>
      have hne : p ≠ a := by
        rintro rfl
        exact hop r rfl
      rw [events, if_neg fun h => hne h.1]
      rfl
  | _ => rfl

/-- An operation that takes no signal for it and is none of its receivers leaves its mailbox
    alone. -/
theorem events_eq_nil (hop : ∀ r, op ≠ .receive a r) (htakes : ∀ d ∈ n.takes op, d.target ≠ a) :
    events a n op = [] := by
  have hnone : mail a (n.attends op) = [] := by
    refine List.filter_eq_nil_iff.mpr fun d hd ht => ?_
    rw [attends_eq] at hd
    exact htakes d (List.mem_filter.mp hd).1 (of_decide_eq_true ht)
  rw [events_of_ne hop, hnone]
  rfl

/-- Nothing happens to the mailbox of a process that is not there. -/
theorem events_of_none (hn : n.Coherent) (hc : n.process? a = none) : events a n op = [] := by
  by_cases hop : ∃ r, op = .receive a r
  · rcases hop with ⟨r, rfl⟩
    rw [events, if_neg]
    rintro ⟨-, hl⟩
    rw [lives_of_process?_none hc] at hl
    exact absurd hl (by simp)
  · refine events_eq_nil (fun r hr => hop ⟨r, hr⟩) fun d hd ht => ?_
    -- A signal is for a process.
    have hsome := hn.targets d (mem_signals_of_takes hd)
    rw [ht, hc] at hsome
    exact absurd hsome (by simp)

/-- A process that lives through an operation has the mailbox that its events make. The cases are
    those of `Lasts`, which says what can become of it. -/
theorem mailbox_lasts (hc : n.process? a = some c) (ha : c.isAlive = true)
    (h : n.Lasts a c op c') : c'.mailbox = (events a n op).foldl .after c.mailbox := by
  cases h with
  | idle htakes hop => rw [events_eq_nil hop htakes, List.foldl_nil]
  | setFlag f value => cases f; rfl
  | receive r =>
      rw [events, if_pos ⟨rfl, lives_of hc ha⟩]
      rfl
  | reorder links watchers =>
      rcases c.reorder_cases links watchers with h | ⟨-, -, h⟩ <;> rw [h] <;> rfl
  | monitor | spawnMonitor =>
      rw [Process.trackMonitor]
      split <;> rfl
  -- The one case in which something comes in.
  | @handle d q c' hq htarget hr =>
      have hattends : n.attends .handleInHand = [d] := by
        subst htarget
        rw [attends, hq]
        exact if_pos (lives_of hc ha)
      have hmail : mail a [d] = [d] := List.filter_cons_of_pos (decide_eq_true htarget)
      rw [events, hattends, hmail]
      · exact mailbox_reactAlive hr
      · simp
  | _ => rfl

theorem mailboxOf_update {f : Process → Process} (hf : ∀ c, (f c).mailbox = c.mailbox) (x : Pid) :
    (n.update x f).mailboxOf a = n.mailboxOf a := by
  rw [mailboxOf, mailboxOf, process?_update]
  split
  next =>
    rcases n.process? a with _ | c
    · rfl
    · exact hf c
  next => rfl

theorem mailboxOf_track (n : Node) (watcher : Pid) (ref : Ref) (watchee : Pid) :
    (n.track watcher ref watchee).mailboxOf a = n.mailboxOf a := by
  rcases track_cases n watcher ref watchee with ht | ht <;> rw [ht]
  refine mailboxOf_update (fun c => ?_) watcher
  rw [Process.trackMonitor]
  split <;> rfl

/-- A newborn has an empty mailbox. -/
theorem mailboxOf_of_births (hp : a ∈ n.births op) : (n.step op).mailboxOf a = .empty := by
  -- All three births make the process first, and what they do to it then is not about the mailbox.
  have hfresh : ∀ {q n'}, n.makeProcess = (.ok q, n') → n'.mailboxOf q = .empty := by
    intro q n' hm
    rw [mailboxOf_eq (move_makeProcess (K := fun _ => False) hm).2]
    rfl
  cases op with
  | spawn =>
      change a ∈ n.makeProcess.1.toOption.toList at hp
      change n.makeProcess.2.mailboxOf a = .empty
      rcases hm : n.makeProcess with ⟨e | q, n₁⟩ <;> rw [hm] at hp
      · exact absurd hp List.not_mem_nil
      · rw [List.mem_singleton.mp hp]
        exact hfresh hm
  | spawnLink linked =>
      change a ∈ (n.spawnLink linked).1.toOption.toList at hp
      rw [step]
      rcases spawnLink_cases n linked with he | ⟨q, n₁, hm, he⟩ <;> rw [he] at hp ⊢
      · exact absurd hp List.not_mem_nil
      · rw [List.mem_singleton.mp hp]
        exact (mailboxOf_update (n := n₁)
          (f := fun c => { c with links := c.links.insert linked }) (fun _ => rfl) q).trans
            (hfresh hm)
  | spawnMonitor watcher =>
      change a ∈ (n.spawnMonitor watcher).1.toOption.toList.map Prod.fst at hp
      rw [step]
      rcases spawnMonitor_cases n watcher with he | ⟨q, n₁, hm, he⟩ <;> rw [he] at hp ⊢
      · exact absurd hp List.not_mem_nil
      · rw [List.mem_singleton.mp hp]
        rw [mailboxOf_track]
        have hborn := hfresh hm
        exact (mailboxOf_update (n := n₁.countRef)
          (f := fun c => { c with monitoredBy := c.monitoredBy.insert n.nextRef watcher })
            (fun _ => rfl) q).trans hborn
  | _ => exact absurd hp List.not_mem_nil

/-- The mailbox of a process that lives to the end of a run changes by its events. -/
theorem mailboxOf_step (hn : n.Coherent) {rest : List NodeOp}
    (ha : ((n.step op).run rest).lives a = true) :
    (n.step op).mailboxOf a = (events a n op).foldl .after (n.mailboxOf a) := by
  rcases hc : n.process? a with _ | c
  · rw [events_of_none hn hc, List.foldl_nil]
    rcases hc' : (n.step op).process? a with _ | c'
    · rw [mailboxOf, mailboxOf, hc, hc']
    · -- It was just made.
      have hborn := (lives_step hn (lives_at_start (coherent_step hn op) hc' ha)).resolve_left
        (by rw [lives_of_process?_none hc]; simp)
      rw [mailboxOf_of_births hborn, mailboxOf, hc]
      rfl
  · have hl := lives_at_start hn hc (show (n.run (op :: rest)).lives a = true from ha)
    have hlive : c.isAlive = true := (lives_of_process? hc).symm.trans hl
    rcases lasts_step hn hc hlive (lives_between hn hl ha) with ⟨c', hc', hlast⟩
    rw [mailboxOf_eq hc, mailboxOf_eq hc', mailbox_lasts hc hlive hlast]

/-- Over a run the events of the operations come one after the other. -/
theorem mailboxOf_run (hn : n.Coherent) {ops : List NodeOp} (ha : (n.run ops).lives a = true) :
    (n.run ops).mailboxOf a = (n.collect (events a) ops).foldl .after (n.mailboxOf a) := by
  induction ops generalizing n with
  | nil => rfl
  | cons op rest ih =>
      rw [run_cons, ih (coherent_step hn op) ha, mailboxOf_step hn ha, collect, List.foldl_append]

/-! ## What a process handles -/

theorem mail_append (ds es : List Delivery) : mail a (ds ++ es) = mail a ds ++ mail a es :=
  List.filter_append _ _

/-- The signals among the events are those that the process handles. -/
theorem signals_events (n : Node) (op : NodeOp) :
    (events a n op).filterMap Process.Event.signal? = mail a (n.attends op) := by
  by_cases hop : ∃ r, op = .receive a r
  · rcases hop with ⟨r, rfl⟩
    rw [events]
    split <;> rfl
  · rw [events_of_ne fun r hr => hop ⟨r, hr⟩, List.filterMap_map]
    exact List.filterMap_some

/-- What a process handles in a run is its part of what everybody handles. -/
theorem handledBy_eq (n : Node) (ops : List NodeOp) :
    n.handledBy a ops = mail a (n.collect attends ops) := by
  induction ops generalizing n with
  | nil => rfl
  | cons op rest ih =>
      have hrest := ih (n.step op)
      rw [handledBy] at hrest ⊢
      rw [collect, collect, List.filterMap_append, hrest, signals_events, mail_append]

/-- What a living process handled and what waits for it is what waited for it at first
    and what was sent to it since, in this order. -/
theorem handledBy_append_signals (hn : n.Coherent) {ops : List NodeOp}
    (ha : (n.run ops).lives a = true) :
    n.handledBy a ops ++ mail a (n.run ops).queue.signals =
      mail a n.queue.signals ++ mail a (n.collect posts ops) := by
  have htaken : mail a (n.collect attends ops) = mail a (n.collect takes ops) :=
    filter_attends hn ha fun d hd => of_decide_eq_true hd
  rw [handledBy_eq, htaken, ← mail_append, takes_append_signals, mail_append]

/-! ## What is sent -/

/-- No route ends at the process itself. -/
theorem routerFor_ne_process (n : Node) (node : String) (a : Pid) :
    n.routerFor node ≠ .ok (.process a) := by
  rw [routerFor]
  split
  next => simp
  next => split <;> simp

/-- Names belong to the living, so whoever holds one is in reach under it. -/
theorem resolveName_eq_process_iff (hn : n.Coherent) {name : String} :
    n.resolveName name = .ok (.process a) ↔ n.whereis name = some a := by
  rw [resolveName]
  rcases hw : n.whereis name with _ | p
  · simp
  · simp only [hn.isSome_lookup, (hn.names name p hw).2, if_true, Except.ok.injEq,
      Resolved.process.injEq, Option.some.injEq]

/-- A name of this node resolves to its process as long as that is alive, and names of other nodes
    go to a router. -/
theorem resolvePid_eq_process_iff (hn : n.Coherent) {p : Pid} :
    n.resolvePid p = .ok (.process a) ↔ p = a ∧ n.lives a = true := by
  rw [resolvePid]
  constructor
  · intro h
    split at h
    next =>
      split at h
      next hl =>
        rw [Except.ok.injEq, Resolved.process.injEq] at h
        rw [← h]
        exact ⟨rfl, hn.isSome_lookup p ▸ hl⟩
      next => exact absurd h (by simp)
    next =>
      split at h
      next => exact absurd h (by simp)
      next node _ => exact absurd h (routerFor_ne_process n node a)
  · rintro ⟨rfl, hl⟩
    rcases lives_iff.mp hl with ⟨c, hc, -⟩
    rw [if_pos (hn.isLocal hc), if_pos (hn.isSome_lookup p ▸ hl)]

/-- The destinations that stand for a process are those that resolve to it. -/
theorem resolve_eq_process_iff (hn : n.Coherent) {target : Dest} :
    n.resolve target = .ok (.process a) ↔ n.Addresses a target := by
  constructor
  · intro h
    cases target with
    | pid p =>
        rcases (resolvePid_eq_process_iff hn).mp h with ⟨rfl, hl⟩
        exact .pid hl
    | name name => exact .name ((resolveName_eq_process_iff hn).mp h)
    | remote name node =>
        -- A registered name on a node is one of this node's names, or it is routed.
        rw [resolve] at h
        split at h
        next heq =>
          rw [heq]
          exact .own ((resolveName_eq_process_iff hn).mp h)
        next => exact absurd h (routerFor_ne_process n node a)
  · intro h
    cases h with
    | pid hl => exact (resolvePid_eq_process_iff hn).mpr ⟨rfl, hl⟩
    | name hw => exact (resolveName_eq_process_iff hn).mpr hw
    | own hw =>
        rw [resolve, if_pos rfl]
        exact (resolveName_eq_process_iff hn).mpr hw

/-- What a call sends to a process. -/
structure Sends (n : Node) (a sender : Pid) (s : Signal) (target : Dest) : Prop where
  /-- A call to a destination that stands for the process succeeds and sends it the signal. -/
  addressed : n.Addresses a target → (n.signal sender s target).1 = .ok () ∧
    n.posts (.signal sender s target) = [⟨a, sender, s⟩]
  /-- Any other call sends the process nothing, or an envelope that it is to route. -/
  other : ¬ n.Addresses a target → ∀ d ∈ n.posts (.signal sender s target), d.target = a →
    d = ⟨a, sender, .relay (Routed.toTerm ⟨sender, target, s⟩)⟩
  /-- A call that fails sends nothing. -/
  failed : ∀ e, (n.signal sender s target).1 = .error e → n.posts (.signal sender s target) = []

/-- A call reaches a process exactly if its destination stands for it, and otherwise sends it
    nothing but what a router gets. -/
theorem sends_of_coherent (hn : n.Coherent) (a sender : Pid) (s : Signal) (target : Dest) :
    n.Sends a sender s target := by
  refine ⟨fun h => ?_, fun h d hd ht => ?_, fun e he => ?_⟩
  · have hr := (resolve_eq_process_iff hn).mpr h
    simp only [signal, posts, deliveries, hr, and_self]
  · -- Of a destination that does not stand for the process, it can only get something as the
    -- router.
    rw [posts, deliveries] at hd
    rcases hr : n.resolve target with e | (p | p) <;> rw [hr] at hd
    · exact absurd hd List.not_mem_nil
    · rw [List.mem_singleton.mp hd] at ht
      rw [show p = a from ht] at hr
      exact absurd ((resolve_eq_process_iff hn).mp hr) h
    · rw [List.mem_singleton.mp hd] at ht ⊢
      rw [show p = a from ht]
  · rw [posts, deliveries]
    rcases hr : n.resolve target with e' | (p | p)
    · rfl
    · simp only [signal, hr] at he
      exact absurd he (by simp)
    · simp only [signal, hr] at he
      exact absurd he (by simp)

/-! ## Runs -/

/-- What comes in at a process in a run, and in which order. -/
structure InOrder (n : Node) (a : Pid) (ops : List NodeOp) : Prop where
  /-- Messages come in by the signals that are handled and in no other way, and between them
      the receivers of the process do what they do. -/
  mailbox : ∀ c, (n.run ops).process? a = some c →
    c.mailbox = (n.collect (events a) ops).foldl .after .empty
  /-- What was handled and what waits is what was sent to the process, in the same order. -/
  order : n.handledBy a ops ++ mail a (n.run ops).queue.signals = mail a (n.collect posts ops)
  /-- Every call to a destination that stands for the process sends it one signal. A message
      that is sent or delivered is a call with a `relay`. -/
  call : ∀ before sender s target after, ops = before ++ .signal sender s target :: after →
    (n.run before).Sends a sender s target
  /-- What was sent before some moment is handled before what is sent later. -/
  earlier : ∀ before after, ops = before ++ after →
    n.handledBy a ops <+: mail a (n.collect posts before) ∨
    ∃ rest, n.handledBy a ops = mail a (n.collect posts before) ++ rest ∧
      rest <+: mail a ((n.run before).collect posts after)
  /-- A process that ends sends a partner an exit signal, and after that a notice for each
      of its monitors. No announcement that is handled after what was sent before the end
      comes before these, and none between them. -/
  farewell : ∀ before op after x reason, ops = before ++ op :: after →
    (n.run before).lives a = true → (x, reason) ∈ (n.run before).deaths op →
    ∃ c, (n.run before).Ends x c reason op ∧
      ((n.run before).posts op).filter (informs a) = farewellTo a x c reason ∧
      ∀ rest, n.handledBy a ops = mail a (n.collect posts before) ++ rest →
        rest.filter (informs a) <+: farewellTo a x c reason ∨
        farewellTo a x c reason <+: rest.filter (informs a)

/-- Announcements to a process are mail. -/
theorem filter_informs_mail (ds : List Delivery) :
    (mail a ds).filter (informs a) = ds.filter (informs a) := by
  rw [mail, List.filter_filter]
  refine List.filter_congr fun d _ => ?_
  rw [Bool.and_eq_left_iff_imp]
  exact fun hi => decide_eq_true (informs_iff.mp hi).1

/-- Signals arrive at a process that stays alive in the order in which they were sent, and
    the announcements of an end after all that was sent before it. -/
theorem in_order_run {config : NodeConfig} {ops : List NodeOp}
    (ha : ((new config).run ops).lives a = true) : (new config).InOrder a ops := by
  have hn := coherent_new config
  have horder : (new config).handledBy a ops ++ mail a ((new config).run ops).queue.signals =
      mail a ((new config).collect posts ops) := handledBy_append_signals hn ha
  -- What was handled is the beginning of what was sent, wherever the run is divided.
  have hsent : ∀ before after, ops = before ++ after → (new config).handledBy a ops <+:
      mail a ((new config).collect posts before) ++
        mail a (((new config).run before).collect posts after) := by
    rintro before after rfl
    rw [← mail_append, ← collect_append, ← horder]
    exact List.prefix_append _ _
  refine ⟨fun c hc => ?_, horder, ?_, fun before after hops => ?_, ?_⟩
  · rw [← mailboxOf_eq hc, mailboxOf_run hn ha]
    rfl
  · rintro before sender s target after -
    exact sends_of_coherent (coherent_run hn before) a sender s target
  · have hbegins := hsent before after hops
    rcases List.prefix_or_prefix_of_prefix hbegins (List.prefix_append _ _) with hx | ⟨rest, hrest⟩
    · exact Or.inl hx
    · rw [← hrest, List.prefix_append_right_inj] at hbegins
      exact Or.inr ⟨rest, hrest.symm, hbegins⟩
  · intro before op after x reason hops hl hd
    rcases ends_of_deaths hd with ⟨c, h⟩
    have hposts : (((new config).run before).posts op).filter (informs a) =
        farewellTo a x c reason := by
      rw [h.posts, filter_informs_farewellsOf (coherent_run hn before) hl]
    refine ⟨c, h, hposts, fun rest hrest => ?_⟩
    have hbegins := hsent before (op :: after) hops
    rw [hrest, List.prefix_append_right_inj] at hbegins
    have hinformed := hbegins.filter (informs a)
    rw [filter_informs_mail, collect, List.filter_append, hposts] at hinformed
    exact List.prefix_or_prefix_of_prefix hinformed (List.prefix_append _ _)

/-- A process sends another one, its partner and watcher, a message by each of its three
    addresses, and ends. The messages are there before the exit, and that before the notice. -/
theorem in_order_pair :
    let a : Pid := .ofSlot 1 0 0
    let x : Pid := .ofSlot 2 0 0
    let ops : List NodeOp := [.spawn, .spawn, .register a "a", .setFlag a .trapExit true,
      .monitor a x, .link a x, .beginTurn, .handleInHand, .handleInHand, .handleInHand,
      .signal x (.relay (.atom "one")) (.name "a"), .signal x (.relay (.atom "two")) (.pid a),
      .signal x (.relay (.atom "three")) (.remote "a" "nonode@nohost"),
      .die x Reason.shutdown, .beginTurn, .handleInHand, .handleInHand, .handleInHand,
      .beginTurn, .handleInHand, .handleInHand]
    let n := (new (NodeConfig.standard.withDispatchBatch 3)).run ops
    n.lives a = true ∧ (new (NodeConfig.standard.withDispatchBatch 3)).InOrder a ops ∧
      (n.mailboxOf a).messages = [.atom "one", .atom "two", .atom "three",
        exitMessage x Reason.shutdown, downMessage (.ofCounter 0 0) x Reason.shutdown] :=
  ⟨by decide, in_order_run (by decide), by decide⟩

end Node

end Actors
