import Actors.Proofs.Envelope
import Actors.Proofs.Node.Posting

/-!
# What a Router Is Given

A signal for another node is queued for the router that leads there, as a
message that holds the whole signal. From there on it is a message like any
other. It is handled after everything that was queued before it, and if the
router is alive then, it goes into the mailbox of the router and nowhere else.
What the router finds there, or whoever it sends the bytes to, reads back as the
sender, the destination and the signal that were given.

## Main definitions

* `Node.Forwards`: A signal reaches a router in an envelope.

## Theorems

* `handleInHand_relay`: A message that is handled goes into one mailbox.
* `next_of_takes`: What was queued last is next when all before it was taken.
* `forwards_of_resolve`: A signal for another node is forwarded.
* `exact_envelopes`: Envelopes are exact, also on their way through a router.
-/

namespace Actors

namespace Node

variable {n : Node}

/-- A message that is handled goes into the mailbox of its target, and nothing
    else happens to anybody. -/
theorem handleInHand_relay {p sender : Pid} {message : Term} {q : Dispatcher}
    (hq : n.queue.next? = some (⟨p, sender, .relay message⟩, q)) {c : Process}
    (hc : n.process? p = some c) (ha : c.isAlive = true) :
    n.posts .handleInHand = [] ∧ n.handleInHand =
      ((n.withQueue q).update p fun _ => c.receive message).reclaim p := by
  -- A living process takes every message.
  have hreact : c.react sender (.relay message) = .become (c.receive message) := by
    rw [Process.react, if_pos ha, Process.reactAlive]
  refine ⟨?_, ?_⟩
  · simp only [posts, hq, replies, hc, hreact]
  · have hc' : (n.withQueue q).process? p = some c := hc
    rw [handleInHand, hq]
    change ((n.withQueue q).handle ⟨p, sender, .relay message⟩).reclaim p = _
    rw [handle_eq hc']
    simp only [hreact]

/-- What was queued last is next when exactly the signals before it were taken. -/
theorem next_of_takes {ds : List Delivery} {d d' : Delivery} {ops : List NodeOp} {q : Dispatcher}
    (hs : n.queue.signals = ds ++ [d]) (hlen : (n.collect takes ops).length = ds.length)
    (hq : (n.run ops).queue.next? = some (d', q)) : d' = d := by
  have htaken := takes_append_signals n ops
  rw [hs, List.append_assoc] at htaken
  have hrest := (List.append_inj htaken hlen).2
  rw [Dispatcher.signals_of_next? hq, List.singleton_append] at hrest
  exact (List.cons.inj hrest).1

/-- A signal reaches a router in an envelope, from which it can be read. -/
structure Forwards (n : Node) (sender : Pid) (s : Signal) (target : Dest) (router : Pid) :
    Prop where
  /-- The sender is told that it was sent. -/
  sent : (n.signal sender s target).1 = .ok ()
  /-- One message is queued, behind all that was queued before. -/
  queued : (n.step (.signal sender s target)).queue.signals =
    n.queue.signals ++ [⟨router, sender, .relay (Routed.toTerm ⟨sender, target, s⟩)⟩]
  /-- After those it is the next to be handled. -/
  next : ∀ ops d q,
    ((n.step (.signal sender s target)).collect takes ops).length = n.queue.signals.length →
    ((n.step (.signal sender s target)).run ops).queue.next? = some (d, q) →
    d = ⟨router, sender, .relay (Routed.toTerm ⟨sender, target, s⟩)⟩
  /-- When it is handled and the router is alive, it goes into the mailbox of the
      router as it is. No other process changes and no other signal is queued. -/
  pushed : ∀ (m : Node) q c,
    m.queue.next? = some (⟨router, sender, .relay (Routed.toTerm ⟨sender, target, s⟩)⟩, q) →
    m.process? router = some c → c.isAlive = true →
    (∀ c', (m.step .handleInHand).process? router = some c' →
      c' = c.receive (Routed.toTerm ⟨sender, target, s⟩)) ∧
    (c.handles ≠ 0 → (m.step .handleInHand).process? router =
      some (c.receive (Routed.toTerm ⟨sender, target, s⟩))) ∧
    (∀ p, p ≠ router → (m.step .handleInHand).process? p = m.process? p) ∧
    m.posts .handleInHand = []
  /-- The message is read back as what was sent. -/
  back : Routed.ofTerm? (Routed.toTerm ⟨sender, target, s⟩) = some ⟨sender, target, s⟩
  /-- So is what its bytes are read as, whatever follows them. -/
  wire : (Routed.toTerm ⟨sender, target, s⟩).isStorable = true → ∀ rest, ∃ t,
    Term.decode ((Routed.toTerm ⟨sender, target, s⟩).encode ++ rest) = .ok (t, rest) ∧
      Routed.ofTerm? t = some ⟨sender, target, s⟩

/-- A signal for another node is forwarded. -/
theorem forwards_of_resolve {sender : Pid} {s : Signal} {target : Dest} {router : Pid}
    (h : n.resolve target = .ok (.router router)) : n.Forwards sender s target router := by
  -- The envelope stands last in the queue.
  have hqueued : (n.step (.signal sender s target)).queue.signals =
      n.queue.signals ++ [⟨router, sender, .relay (Routed.toTerm ⟨sender, target, s⟩)⟩] := by
    rw [step, signal_snd, signals_queueAll, deliveries, h]
  refine ⟨by simp only [signal, h], hqueued, fun ops d q => next_of_takes hqueued, ?_,
    Routed.ofTerm?_toTerm _, Routed.decode_encode⟩
  intro m q c hq hc ha
  rcases handleInHand_relay hq hc ha with ⟨hposts, hstep⟩
  have hself : ((m.withQueue q).update router fun _ =>
      c.receive (Routed.toTerm ⟨sender, target, s⟩)).process? router =
      some (c.receive (Routed.toTerm ⟨sender, target, s⟩)) := process?_update_self hc _
  rw [step, hstep]
  refine ⟨fun c' hc' => ?_, fun hh => by rw [reclaim_of_handles hself hh, hself],
    fun p hp => ?_, hposts⟩
  · -- If the router is still there, it is what the handling left behind.
    have hkept := process?_of_reclaim hc'
    rw [hself, Option.some.injEq] at hkept
    exact hkept.symm
  · rw [process?_reclaim_of_ne hp, process?_update, if_neg hp]
    rfl

/-- Signals, destinations and envelopes are read from their term forms and from
    nothing else, and a signal that is forwarded to a router arrives there in an
    envelope that reads back as it was sent. -/
theorem exact_envelopes :
    (∀ (s : Signal) (t : Term), Signal.ofTerm? t = some s ↔ s.toTerm = t) ∧
    (∀ (d : Dest) (t : Term), Dest.ofTerm? t = some d ↔ d.toTerm = t) ∧
    (∀ (r : Routed) (t : Term), Routed.ofTerm? t = some r ↔ r.toTerm = t) ∧
    ∀ (n : Node) (sender : Pid) (s : Signal) (target : Dest) (router : Pid),
      n.resolve target = .ok (.router router) → n.Forwards sender s target router :=
  ⟨fun _ _ => Signal.ofTerm?_eq_some_iff, fun _ _ => Dest.ofTerm?_eq_some_iff,
    fun _ _ => Routed.ofTerm?_eq_some_iff, fun _ _ _ _ _ => forwards_of_resolve⟩

/-- A message for a name on another node, sent to the only router there is. -/
theorem forwards_relay :
    ((new .standard).run [.spawn, .registerRouter "b@host" 0 ⟨0, 1, 0, 0⟩ .standard]).Forwards
      ⟨0, 1, 0, 0⟩ (.relay (.atom "hello")) (.remote "logger" "b@host") ⟨0, 1, 0, 0⟩ ∧
    (Routed.toTerm ⟨⟨0, 1, 0, 0⟩, .remote "logger" "b@host",
      .relay (.atom "hello")⟩).isStorable = true :=
  ⟨exact_envelopes.2.2.2 _ _ _ _ _ (by rfl), by decide⟩

end Node

end Actors
