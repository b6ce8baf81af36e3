import Actors.Node.Relations
import Actors.Proofs.Process

/-!
# What Sending a Signal Comes Down To

Every request that one process makes about another changes a process, or queues
signals, or both. This module says for each request what it changes and what it
queues, so that no proof further on has to open a request again.

A signal that is sent turns into at most one queued signal, and which one is
decided by what its destination resolves to at that moment. Sending is
therefore the same as queueing a list, `deliveries`, and what was changed
about processes before does not show in that list: a destination resolves by
the tables of the node, and by whether there is a process at all.

## Main definitions

* `Node.queueAll`: Some signals are queued, in order.
* `Node.deliveries`: What a signal that is sent turns into.
* `Node.linkDeliveries`, `Node.monitorDeliveries`: What requests queue.
* `Node.track`: A watcher remembers whom it watches.

## Theorems

* `resolve_ok`: What a destination resolves to is in reach.
* `signal_snd`, `post_eq`, `postAll_eq`: Sending is queueing.
* `link_eq`, `unlink_eq`, `monitor_eq`, `demonitor_cases`: Requests.
-/

namespace Actors

/-- The process that a signal to a resolved destination is queued for. -/
def Resolved.pid : Resolved → Pid
  | .process p => p
  | .router p => p

/-- The reference of the monitor that a signal is about, if it is about one. -/
def Signal.ref? : Signal → Option Ref
  | .monitor ref => some ref
  | .demonitor ref => some ref
  | .down ref _ => some ref
  | _ => none

namespace Node

/-! ## Processes -/

@[simp] theorem process?_update (n : Node) (p q : Pid) (f : Process → Process) :
    (n.update p f).process? q = if q = p then (n.process? q).map f else n.process? q :=
  Dict.get?_modify n.processes p q f

theorem process?_update_self {n : Node} {p : Pid} {c : Process} (h : n.process? p = some c)
    (f : Process → Process) : (n.update p f).process? p = some (f c) := by
  rw [process?_update, if_pos rfl, h]
  rfl

/-- Who is there after a change was there before. -/
theorem process?_of_update {n : Node} {p q : Pid} {f : Process → Process} {c' : Process}
    (h : (n.update p f).process? q = some c') :
    (∃ c, q = p ∧ n.process? p = some c ∧ c' = f c) ∨ q ≠ p ∧ n.process? q = some c' := by
  rw [process?_update] at h
  split at h
  next heq =>
    subst heq
    rw [Option.map_eq_some_iff] at h
    rcases h with ⟨c, hc, hf⟩
    exact Or.inl ⟨c, rfl, hc, hf.symm⟩
  next hne => exact Or.inr ⟨hne, h⟩

/-- A change of a process neither makes nor removes one. -/
theorem isSome_process?_update (n : Node) (p q : Pid) (f : Process → Process) :
    ((n.update p f).process? q).isSome = (n.process? q).isSome := by
  rw [process?_update]
  split
  · exact Option.isSome_map
  · rfl

/-- Nor does it change who is in reach, for that is a matter of the slots and of who is there. -/
theorem isSome_lookup_update (n : Node) (p q : Pid) (f : Process → Process) :
    ((n.update p f).lookup q).isSome = (n.lookup q).isSome := by
  -- The two lookups ask the same slot, so only what they find there is to be compared.
  change (if n.resolves q then (n.update p f).process? q else none).isSome =
    (if n.resolves q then n.process? q else none).isSome
  split
  · exact isSome_process?_update n p q f
  · rfl

theorem lookup_eq_some {n : Node} {p : Pid} {c : Process} (h : n.lookup p = some c) :
    n.resolves p = true ∧ n.process? p = some c := by
  rw [lookup] at h
  split at h
  next hr => exact ⟨hr, h⟩
  next => exact absurd h (by simp)

/-! ## Queueing -/

/-- Some signals are queued, in order. -/
def queueAll (n : Node) (ds : List Delivery) : Node :=
  { n with queue := ds.foldl .enqueue n.queue }

theorem queueAll_append (n : Node) (ds es : List Delivery) :
    n.queueAll (ds ++ es) = (n.queueAll ds).queueAll es := by
  simp only [queueAll, List.foldl_append]

/-- What is queued stands behind everything that was queued before, in its order. -/
@[simp] theorem signals_queueAll (n : Node) (ds : List Delivery) :
    (n.queueAll ds).queue.signals = n.queue.signals ++ ds := by
  change (ds.foldl Dispatcher.enqueue n.queue).signals = n.queue.signals ++ ds
  -- Over the signals: each of them is enqueued behind those before it.
  induction ds generalizing n with
  | nil => rw [List.foldl_nil, List.append_nil]
  | cons d rest ih =>
      have h := ih (n.enqueue d)
      rw [enqueue, Dispatcher.signals_enqueue, List.append_assoc] at h
      exact h

/-- What the node asks before it forgets a process: whether a signal is on its way to it, in the
    batch or behind it. -/
theorem targets_iff {q : Dispatcher} {p : Pid} :
    q.targets p = true ↔ ∃ d ∈ q.signals, d.target = p := by
  simp only [Dispatcher.targets, Dispatcher.signals, Bool.or_eq_true, List.any_eq_true,
    decide_eq_true_eq, List.mem_append]
  constructor
  · rintro (⟨d, hd, h⟩ | ⟨d, hd, h⟩)
    · exact ⟨d, Or.inl hd, h⟩
    · exact ⟨d, Or.inr hd, h⟩
  · rintro ⟨d, hd | hd, h⟩
    · exact Or.inl ⟨d, hd, h⟩
    · exact Or.inr ⟨d, hd, h⟩

theorem target_ne_of_targets {q : Dispatcher} {p : Pid} (h : q.targets p = false) {d : Delivery}
    (hd : d ∈ q.signals) : d.target ≠ p := by
  intro heq
  rw [targets_iff.mpr ⟨d, hd, heq⟩] at h
  exact absurd h (by simp)

/-! ## Sending -/

/-- What a signal that is sent turns into: nothing if the destination cannot be
    reached, and otherwise one queued signal. -/
def deliveries (n : Node) (sender : Pid) (s : Signal) (target : Dest) : List Delivery :=
  -- A signal that leaves the node is queued for the router, in an envelope that says where it goes
  -- and from whom.
  match n.resolve target with
  | .error _ => []
  | .ok (.process p) => [⟨p, sender, s⟩]
  | .ok (.router p) => [⟨p, sender, .relay (Routed.toTerm ⟨sender, target, s⟩)⟩]

/-- Sending a signal is queueing what it turns into, whatever the sender is told about it. -/
theorem signal_snd (n : Node) (sender : Pid) (s : Signal) (target : Dest) :
    (n.signal sender s target).2 = n.queueAll (n.deliveries sender s target) := by
  rcases h : n.resolve target with e | (p | p) <;> simp only [signal, deliveries, h] <;> rfl

/-- Posting is sending to a process without looking at the outcome. -/
theorem post_eq (n : Node) (sender : Pid) (s : Signal) (target : Pid) :
    n.post sender s target = n.queueAll (n.deliveries sender s (.pid target)) :=
  signal_snd n sender s (.pid target)

@[simp] theorem resolve_queueAll (n : Node) (ds : List Delivery) (target : Dest) :
    (n.queueAll ds).resolve target = n.resolve target := by
  cases target <;> rfl

/-- Where a signal goes does not depend on what is queued, so signals can be sent one after the
    other or all at once. -/
@[simp] theorem deliveries_queueAll (n : Node) (ds : List Delivery) (sender : Pid) (s : Signal)
    (target : Dest) :
    (n.queueAll ds).deliveries sender s target = n.deliveries sender s target := by
  rw [deliveries, resolve_queueAll, deliveries]

/-- Some signals of one sender are queued in the order in which they are sent. -/
theorem postAll_eq (n : Node) (sender : Pid) (signals : List (Pid × Signal)) :
    n.postAll sender signals =
      n.queueAll (signals.flatMap fun e => n.deliveries sender e.2 (.pid e.1)) := by
  induction signals generalizing n with
  | nil => rfl
  | cons e rest ih =>
      -- What was sent first does not change where the rest goes.
      have h := ih (n.post sender e.2 e.1)
      change (n.post sender e.2 e.1).postAll sender rest = _
      rw [List.flatMap_cons, queueAll_append, h]
      simp only [post_eq, deliveries_queueAll]

@[simp] theorem routers_update (n : Node) (p : Pid) (f : Process → Process) :
    (n.update p f).routers = n.routers := rfl

@[simp] theorem whereis_update (n : Node) (p : Pid) (f : Process → Process) (name : String) :
    (n.update p f).whereis name = n.whereis name := rfl

/-- A route is chosen by the table of routes and then looked up, and neither sees what a process has
    become. -/
theorem routerFor_update (n : Node) (p : Pid) (f : Process → Process) (node : String) :
    (n.update p f).routerFor node = n.routerFor node := by
  simp only [routerFor, routers_update, isSome_lookup_update]

theorem resolveName_update (n : Node) (p : Pid) (f : Process → Process) (name : String) :
    (n.update p f).resolveName name = n.resolveName name := by
  simp only [resolveName, whereis_update, isSome_lookup_update]

/-- Changing a process does not change what a destination resolves to. -/
@[simp] theorem resolve_update (n : Node) (p : Pid) (f : Process → Process) (target : Dest) :
    (n.update p f).resolve target = n.resolve target := by
  cases target with
  | pid q =>
      simp only [resolve, resolvePid, isSome_lookup_update, routers_update, routerFor_update]
  | name name => exact resolveName_update n p f name
  | remote name node =>
      simp only [resolve, resolveName_update, routerFor_update]
      rfl

/-- Nor does what a process has become decide where signals go. This is what lets a request that
    changes a process and then sends be taken apart. -/
@[simp] theorem deliveries_update (n : Node) (p : Pid) (f : Process → Process) (sender : Pid)
    (s : Signal) (target : Dest) :
    (n.update p f).deliveries sender s target = n.deliveries sender s target := by
  rw [deliveries, resolve_update, deliveries]

/-- A router that is found is in reach, since the route of one that is not is no answer. -/
theorem routerFor_ok {n : Node} {node : String} {r : Resolved} (h : n.routerFor node = .ok r) :
    (n.lookup r.pid).isSome := by
  rw [routerFor] at h
  split at h
  next => exact absurd h (by simp)
  next p _ =>
    split at h
    next hs =>
      rw [Except.ok.injEq] at h
      rwa [← h]
    next => exact absurd h (by simp)

/-- The holder of a name is looked up before it counts. -/
theorem resolveName_ok {n : Node} {name : String} {r : Resolved}
    (h : n.resolveName name = .ok r) : (n.lookup r.pid).isSome := by
  rw [resolveName] at h
  split at h
  next => exact absurd h (by simp)
  next p _ =>
    split at h
    next hs =>
      rw [Except.ok.injEq] at h
      rwa [← h]
    next => exact absurd h (by simp)

/-- What a destination resolves to is in reach. -/
theorem resolve_ok {n : Node} {target : Dest} {r : Resolved} (h : n.resolve target = .ok r) :
    (n.lookup r.pid).isSome := by
  cases target with
  | pid p =>
      rw [resolve, resolvePid] at h
      split at h
      next =>
        split at h
        next hs =>
          rw [Except.ok.injEq] at h
          rwa [← h]
        next => exact absurd h (by simp)
      next =>
        split at h
        next => exact absurd h (by simp)
        -- The identifier is one of another node, so a router stands for it.
        next node _ => exact routerFor_ok h
  | name name => exact resolveName_ok h
  | remote name node =>
      rw [resolve] at h
      split at h
      next => exact resolveName_ok h
      next => exact routerFor_ok h

/-- What is queued for a signal has its sender and a target in reach, and is the signal itself
    unless a router carries it. -/
theorem mem_deliveries {n : Node} {sender : Pid} {s : Signal} {target : Dest} {d : Delivery}
    (h : d ∈ n.deliveries sender s target) :
    (n.lookup d.target).isSome ∧ d.sender = sender ∧ (d.signal = s ∨ ∃ m, d.signal = .relay m) := by
  rw [deliveries] at h
  split at h
  next => exact absurd h List.not_mem_nil
  next p hp =>
    rw [List.mem_singleton] at h
    rw [h]
    exact ⟨resolve_ok hp, rfl, Or.inl rfl⟩
  next p hp =>
    rw [List.mem_singleton] at h
    rw [h]
    exact ⟨resolve_ok hp, rfl, Or.inr ⟨_, rfl⟩⟩

/-- A process name resolves to that process, or to a router. -/
theorem eq_of_resolve_process {n : Node} {p q : Pid} (h : n.resolve (.pid p) = .ok (.process q)) :
    q = p := by
  rw [resolve, resolvePid] at h
  split at h
  next =>
    split at h
    next =>
      rw [Except.ok.injEq, Resolved.process.injEq] at h
      exact h.symm
    next => exact absurd h (by simp)
  next =>
    split at h
    next => exact absurd h (by simp)
    next =>
      rw [routerFor] at h
      split at h
      next => exact absurd h (by simp)
      next => split at h <;> exact absurd h (by simp)

/-- A signal to a process is queued for it as it is, or for a router in an
    envelope. -/
theorem mem_deliveries_pid {n : Node} {sender : Pid} {s : Signal} {p : Pid} {d : Delivery}
    (h : d ∈ n.deliveries sender s (.pid p)) :
    d = ⟨p, sender, s⟩ ∨
      ∃ router, d = ⟨router, sender, .relay (Routed.toTerm ⟨sender, .pid p, s⟩)⟩ := by
  rw [deliveries] at h
  split at h
  next => exact absurd h List.not_mem_nil
  next q hq =>
    rw [List.mem_singleton, eq_of_resolve_process hq] at h
    exact Or.inl h
  next router _ =>
    rw [List.mem_singleton] at h
    exact Or.inr ⟨router, h⟩

/-- A signal about a monitor is queued as one about the same monitor, or hidden in an envelope. -/
theorem ref?_of_mem_deliveries {n : Node} {sender : Pid} {s : Signal} {target : Dest}
    {d : Delivery} (h : d ∈ n.deliveries sender s target) :
    d.signal.ref? = s.ref? ∨ d.signal.ref? = none := by
  rcases (mem_deliveries h).2.2 with hs | ⟨m, hm⟩
  · exact Or.inl (congrArg Signal.ref? hs)
  · exact Or.inr (congrArg Signal.ref? hm)

/-- Who is told that a signal failed has sent nothing, for the destination did not resolve. -/
theorem signal_error {n n' : Node} {sender : Pid} {s : Signal} {target : Dest} {e : Failure}
    (h : n.signal sender s target = (.error e, n')) : n.resolve target = .error e ∧ n' = n := by
  rcases hr : n.resolve target with e' | (p | p)
  · simp only [signal, hr, Prod.mk.injEq, Except.error.injEq] at h
    exact ⟨congrArg Except.error h.1, h.2.symm⟩
  · simp only [signal, hr] at h
    exact absurd h (by simp)
  · simp only [signal, hr] at h
    exact absurd h (by simp)

/-- Who is told that a signal was sent has queued it. -/
theorem signal_ok {n n' : Node} {sender : Pid} {s : Signal} {target : Dest}
    (h : n.signal sender s target = (.ok (), n')) :
    (∃ r, n.resolve target = .ok r) ∧ n' = n.queueAll (n.deliveries sender s target) := by
  have hs := signal_snd n sender s target
  rw [h] at hs
  rcases hr : n.resolve target with e' | r
  · simp only [signal, hr] at h
    exact absurd h (by simp)
  · exact ⟨⟨r, rfl⟩, hs⟩

/-! ## Requests -/

/-- What a request to link two processes queues. -/
def linkDeliveries (n : Node) (a b : Pid) : List Delivery :=
  if a = b then []
  else
    match n.resolve (.pid b) with
    | .error e => n.deliveries b (.exit (unreachableReason e)) (.pid a)
    | .ok _ => n.deliveries a .link (.pid b) ++ n.deliveries b .link (.pid a)

/-- Linking only queues: a request to each side, or the bad news to the first if the second is out
    of reach. -/
theorem link_eq (n : Node) (a b : Pid) : n.link a b = n.queueAll (n.linkDeliveries a b) := by
  rw [link, linkDeliveries]
  split
  next => rfl
  next =>
    split
    next e n' h =>
      -- Nothing was sent to the second process, and the first is told so in its name.
      rcases signal_error h with ⟨hr, rfl⟩
      rw [hr, post_eq]
    next n' h =>
      rcases signal_ok h with ⟨⟨r, hr⟩, rfl⟩
      rw [hr, post_eq, deliveries_queueAll, ← queueAll_append]

/-- Unlinking queues a request for each side and does not ask whether it arrives. -/
theorem unlink_eq (n : Node) (a b : Pid) :
    n.unlink a b =
      n.queueAll (n.deliveries a .unlink (.pid b) ++ n.deliveries b .unlink (.pid a)) := by
  rw [unlink, post_eq, post_eq, deliveries_queueAll, ← queueAll_append]

/-- The reference that is made next. -/
def nextRef (n : Node) : Ref := .ofCounter n.refs n.creation

/-- A reference has been made. -/
def countRef (n : Node) : Node := { n with refs := n.refs + 1 }

/-- The counter of references has no say in where a signal goes. -/
@[simp] theorem deliveries_countRef (n : Node) (sender : Pid) (s : Signal) (target : Dest) :
    n.countRef.deliveries sender s target = n.deliveries sender s target := by
  cases target <;> rfl

/-- A process in reach remembers whom it watches. -/
def track (n : Node) (watcher : Pid) (ref : Ref) (watchee : Pid) : Node :=
  if (n.lookup watcher).isSome then n.update watcher (·.trackMonitor ref watchee) else n

/-- A watcher that is out of reach has no table to remember the monitor in. -/
theorem track_cases (n : Node) (watcher : Pid) (ref : Ref) (watchee : Pid) :
    n.track watcher ref watchee = n ∨
      n.track watcher ref watchee = n.update watcher (·.trackMonitor ref watchee) := by
  rw [track]
  split
  · exact Or.inr rfl
  · exact Or.inl rfl

/-- What a watcher remembers does not change what a destination resolves to. -/
@[simp] theorem resolve_track (n : Node) (watcher : Pid) (ref : Ref) (watchee : Pid)
    (target : Dest) : (n.track watcher ref watchee).resolve target = n.resolve target := by
  rcases track_cases n watcher ref watchee with h | h <;> rw [h]
  exact resolve_update n watcher _ target

@[simp] theorem deliveries_track (n : Node) (watcher : Pid) (ref : Ref) (watchee : Pid)
    (sender : Pid) (s : Signal) (target : Dest) :
    (n.track watcher ref watchee).deliveries sender s target = n.deliveries sender s target := by
  rw [deliveries, resolve_track, deliveries]

/-- What a request to watch a process queues. -/
def monitorDeliveries (n : Node) (watcher watchee : Pid) (ref : Ref) : List Delivery :=
  match n.resolve (.pid watchee) with
  | .error e => n.deliveries watchee (.down ref (unreachableReason e)) (.pid watcher)
  | .ok _ => n.deliveries watcher (.monitor ref) (.pid watchee)

/-- A monitor takes the next reference, has the watcher remember it, and queues the request. If the
    request cannot be delivered, the watcher is sent the notice that it would have led to. -/
theorem monitor_eq (n : Node) (watcher watchee : Pid) :
    n.monitor watcher watchee =
      (n.nextRef, (n.countRef.track watcher n.nextRef watchee).queueAll
        (n.monitorDeliveries watcher watchee n.nextRef)) := by
  simp only [monitor, makeRef]
  rw [monitorDeliveries]
  split
  next e n₃ h =>
    have hs : (n.countRef.track watcher n.nextRef watchee).signal watcher (.monitor n.nextRef)
      (.pid watchee) = (.error e, n₃) := h
    rcases signal_error hs with ⟨hr, rfl⟩
    -- The request was resolved after the change, with the result it has before.
    rw [resolve_track] at hr
    change n.resolve (.pid watchee) = .error e at hr
    rw [hr, post_eq, ← nextRef, deliveries_track, deliveries_countRef]
  next n₃ h =>
    have hs : (n.countRef.track watcher n.nextRef watchee).signal watcher (.monitor n.nextRef)
      (.pid watchee) = (.ok (), n₃) := h
    rcases signal_ok hs with ⟨⟨r, hr⟩, rfl⟩
    rw [resolve_track] at hr
    change n.resolve (.pid watchee) = .ok r at hr
    rw [hr, ← nextRef, deliveries_track, deliveries_countRef]

/-- Ending a monitor does nothing unless the one who asks is in reach and remembers the reference.
    Then the memory goes, and the watched is told. -/
theorem demonitor_cases (n : Node) (watcher : Pid) (ref : Ref) :
    n.demonitor watcher ref = n ∨
    ∃ c watchee, n.lookup watcher = some c ∧ c.monitors.get? ref = some watchee ∧
      n.demonitor watcher ref =
        (n.update watcher fun c => { c with monitors := c.monitors.erase ref }).queueAll
          (n.deliveries watcher (.demonitor ref) (.pid watchee)) := by
  rw [demonitor]
  split
  next => exact Or.inl rfl
  next c hc =>
    split
    next => exact Or.inl rfl
    next watchee hw =>
      -- Where the request goes was settled before the entry was erased.
      refine Or.inr ⟨c, watchee, hc, hw, ?_⟩
      rw [post_eq, deliveries_update]

end Node

end Actors
