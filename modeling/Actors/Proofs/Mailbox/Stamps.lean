import Actors.Proofs.Mailbox.Balance

/-!
# Telling Equal Messages Apart

The same message may be sent twice, and then it makes no sense to ask which of
the two came first. `stamped` gives every message of a history a number, in
the order in which they are sent, and leaves the tests as they are: they look
at the message and not at its number.

This changes nothing. Whoever cannot see the numbers cannot tell the two
histories apart, which is what `Reads` says, for any way of reading the
messages of one mailbox as messages of another. It has to go both ways: a
message is read forwards, and a test is pulled back.

## Main definitions

* `Mailbox.Reads`: One mailbox, read in some way, is another.
* `MailboxOp.stamp`, `stamped`: The same operations, with numbered messages.

## Theorems

* `offer_pull`, `scan_map`: Both searches go the same way.
* `reads_step`, `reads_run`: A history with numbered messages goes the same way.
* `sends_stamped_lt`: A message that is sent later has a larger number.
-/

namespace Actors

variable {α β μ : Type}

/-- A receiver that reads its messages by a function before it tests them. -/
def Consumer.pull (f : α → β) (c : Consumer β) : Consumer α := ⟨c.id, c.matcher ∘ f⟩

/-- An answer, with its message read by a function. -/
def Resolution.map (f : α → β) : Resolution α → Resolution β
  | .message m => .message (f m)
  | .closed reason => .closed reason

/-- What an operation answers, with the message read by a function. -/
def MailboxAnswer.map (f : α → β) : MailboxAnswer α → MailboxAnswer β
  | .none => .none
  | .pending => .pending
  | .unknown => .unknown
  | .result r => .result (r.map f)
  | .panic text => .panic text
  | .dropped held => .dropped held
  | .found message => .found (message.map f)

namespace Mailbox

/-- What a search finds, read by a function. The messages that are left are read too. -/
def Found.map (f : α → β) : Found α → Found β
  | .nothing => .nothing
  | .message m others => .message (f m) (others.map f)
  | .panic text => .panic text

/-- What an attempt finds, read by a function. -/
def TryPop.map (f : α → β) : TryPop α → TryPop β
  | .nothing => .nothing
  | .message m => .message (f m)
  | .panic text => .panic text

/-- What a receiver that arrives is told, read by a function. -/
def Pop.map (f : α → β) : Pop α → Pop β
  | .done result => .done (result.map f)
  | .panic text => .panic text
  | .waiting id => .waiting id

/-- One mailbox, with its messages read by a function, is another. -/
structure Reads (f : α → β) (b' : Mailbox α) (b : Mailbox β) : Prop where
  messages : b.messages = b'.messages.map f
  consumers : b'.consumers = b.consumers.map (Consumer.pull f)
  resolved : b.resolved = b'.resolved.map (Prod.map id (Resolution.map f))
  nextId : b'.nextId = b.nextId
  closed : b'.closed = b.closed

/-- An offer goes to the same receiver, whether the message is read before it is offered or by the
    receivers. -/
theorem offer_pull (f : α → β) (m : α) (cs : List (Consumer β)) :
    offer m (cs.map (Consumer.pull f)) =
      (offer (f m) cs).map fun r => (r.1, r.2.map (Consumer.pull f)) := by
  induction cs with
  | nil => rfl
  | cons c rest ih =>
      have hsame : ((c.pull f).matcher m).accepts = (c.matcher (f m)).accepts := rfl
      rw [List.map_cons, offer, offer, hsame, ih]
      by_cases hc : (c.matcher (f m)).accepts = true
      · rw [if_pos hc, if_pos hc]
        rfl
      · rw [if_neg hc, if_neg hc]
        cases offer (f m) rest <;> rfl

/-- To search what was read is to read what was searched. -/
theorem scan_map (f : α → β) (test : Matcher β) (ms : List α) :
    scan test (ms.map f) = (scan (test ∘ f) ms).map f := by
  induction ms with
  | nil => rfl
  | cons m rest ih =>
      rw [List.map_cons, scan, scan, Function.comp_apply]
      cases test (f m) with
      | accept => rfl
      | panic text => rfl
      | reject =>
          simp only
          rw [ih]
          cases scan (test ∘ f) rest <;> rfl

/-- The answer under a number is read where it stands. -/
theorem lookup_map (f : α → β) (rs : List (Nat × Resolution α)) (id' : Nat) :
    (rs.map (Prod.map id (Resolution.map f))).lookup id' =
      (rs.lookup id').map (Resolution.map f) := by
  induction rs with
  | nil => rfl
  | cons r rest ih =>
      rcases r with ⟨k, r⟩
      rw [List.map_cons, Prod.map_apply, id_eq, List.lookup_cons, List.lookup_cons, ih]
      cases id' == k <;> rfl

variable {f : α → β} {b' : Mailbox α} {b : Mailbox β}

/-- Reading says nothing about whether the mailbox is open. -/
theorem Reads.isClosed (h : Reads f b' b) : b'.isClosed = b.isClosed := by
  rw [Mailbox.isClosed, Mailbox.isClosed, h.closed]

/-- A message arrives at both. It only has to be put into the buffer at the same place. -/
theorem reads_deliver (h : Reads f b' b) (m : α) {buffer' : List α → List α}
    {buffer : List β → List β} (hbuffer : ∀ ms, (buffer' ms).map f = buffer (ms.map f)) :
    Reads f (b'.deliver m buffer') (b.deliver (f m) buffer) := by
  rw [deliver, deliver, h.isClosed, h.consumers, offer_pull]
  by_cases hclosed : b.isClosed = true
  · rw [if_pos hclosed, if_pos hclosed]
    exact h
  · rw [if_neg hclosed, if_neg hclosed]
    rcases offer (f m) b.consumers with _ | ⟨id', others⟩
    · simp only [Option.map_none]
      refine ⟨?_, rfl, h.resolved, h.nextId, h.closed⟩
      exact (congrArg buffer h.messages).trans (hbuffer b'.messages).symm
    · simp only [Option.map_some]
      refine ⟨h.messages, rfl, ?_, h.nextId, h.closed⟩
      simp only [h.resolved, List.map_append]
      rfl

/-- A new message stands last in both. -/
theorem reads_push (h : Reads f b' b) (m : α) : Reads f (b'.push m) (b.push (f m)) :=
  reads_deliver h m fun ms => by rw [List.map_append]; rfl

/-- Clearing forgets all messages, read or not. -/
theorem reads_clear (h : Reads f b' b) (reason : Term) :
    Reads f (b'.clear reason) (b.clear reason) := by
  refine ⟨rfl, rfl, ?_, h.nextId, rfl⟩
  simp only [clear, h.resolved, h.consumers, List.map_append, List.map_map]
  rfl

/-- Those who stop waiting go by their numbers. -/
theorem reads_withdraw (h : Reads f b' b) (id : Nat) :
    Reads f (b'.withdraw id) (b.withdraw id) := by
  refine ⟨h.messages, ?_, h.resolved, h.nextId, h.closed⟩
  simp only [withdraw, h.consumers, List.filter_map]
  rfl

/-- So do those who see their answers. -/
theorem reads_observe (h : Reads f b' b) (id : Nat) : Reads f (b'.observe id) (b.observe id) := by
  refine ⟨h.messages, h.consumers, ?_, h.nextId, h.closed⟩
  simp only [observe, h.resolved, List.filter_map]
  rfl

/-- A receiver that looks sees the same message, read. -/
theorem reads_poll (h : Reads f b' b) (id : Nat) (expired : Bool) :
    (b.poll id expired).1 = (b'.poll id expired).1.map (Except.map f) ∧
      Reads f (b'.poll id expired).2 (b.poll id expired).2 := by
  rw [poll, poll, h.resolved, lookup_map]
  rcases b'.resolved.lookup id with _ | r
  · cases expired
    · exact ⟨rfl, h⟩
    · exact ⟨rfl, reads_withdraw h id⟩
  · refine ⟨?_, reads_observe h id⟩
    cases r <;> rfl

/-- A receiver that gives up hands back the same message. -/
theorem reads_cancel (h : Reads f b' b) (id : Nat) : Reads f (b'.cancel id) (b.cancel id) := by
  rw [cancel, cancel, h.resolved, lookup_map]
  rcases b'.resolved.lookup id with _ | m | reason
  · exact reads_withdraw h id
  · exact reads_deliver (reads_observe h id) m fun _ => rfl
  · exact reads_observe h id

/-- An attempt that tests what it has read finds the same message. -/
theorem reads_tryPop (h : Reads f b' b) (test : Matcher β) :
    (b.tryPop test).1 = (b'.tryPop (test ∘ f)).1.map f ∧
      Reads f (b'.tryPop (test ∘ f)).2 (b.tryPop test).2 := by
  rw [tryPop, tryPop, h.messages, scan_map]
  cases scan (test ∘ f) b'.messages with
  | nothing => exact ⟨rfl, h⟩
  | message m others => exact ⟨rfl, rfl, h.consumers, h.resolved, h.nextId, h.closed⟩
  | panic text => exact ⟨rfl, h⟩

/-- And so does a receiver that may have to wait. -/
theorem reads_pop (h : Reads f b' b) (test : Matcher β) :
    (b.pop test).1 = (b'.pop (test ∘ f)).1.map f ∧
      Reads f (b'.pop (test ∘ f)).2 (b.pop test).2 := by
  have hclosed : b'.closed = b.closed := h.closed
  rw [pop, pop, h.messages, scan_map]
  rcases hb : b.closed with _ | reason
  · rw [hclosed, hb]
    cases scan (test ∘ f) b'.messages with
    | nothing =>
        -- It waits in both, with the same number and with a test that reads first.
        simp only [Found.map]
        refine ⟨congrArg Pop.waiting h.nextId.symm, rfl, ?_, h.resolved,
          congrArg (· + 1) h.nextId, rfl⟩
        simp only [h.consumers, h.nextId, List.map_append]
        rfl
    | message m others => exact ⟨rfl, rfl, h.consumers, h.resolved, h.nextId, rfl⟩
    | panic text => exact ⟨rfl, h⟩
  · rw [hclosed, hb]
    exact ⟨rfl, h⟩

end Mailbox

open Mailbox

/-- The same operation, with a number for the message it sends. -/
def MailboxOp.stamp (n : Nat) : MailboxOp μ → MailboxOp (Nat × μ)
  | .push m => .push (n, m)
  | .clear reason => .clear reason
  | .advance ms => .advance ms
  | .pop name test timeout => .pop name (test ∘ Prod.snd) timeout
  | .poll name => .poll name
  | .drop name => .drop name
  | .tryPop test => .tryPop (test ∘ Prod.snd)

namespace TimedMailbox

/-- One timed mailbox, with its messages read by a function, is another. -/
structure Reads (f : α → β) (s' : TimedMailbox α) (s : TimedMailbox β) : Prop where
  box : s'.box.Reads f s.box
  now : s'.now = s.now
  pops : s'.pops = s.pops

variable {s' : TimedMailbox (Nat × μ)} {s : TimedMailbox μ}

/-- The receiver of a name looks, in both at the same time of day. -/
theorem reads_pollPending (h : Reads Prod.snd s' s) (name : String) (p : PendingPop) :
    (s.pollPending name p).1 = (s'.pollPending name p).1.map Prod.snd ∧
      Reads Prod.snd (s'.pollPending name p).2 (s.pollPending name p).2 := by
  have hpoll := reads_poll h.box p.id (deadlinePassed p.deadline s.now)
  rw [pollPending, pollPending, h.now, h.pops]
  rcases hq' : s'.box.poll p.id (deadlinePassed p.deadline s.now) with ⟨r', box'⟩
  rcases hq : s.box.poll p.id (deadlinePassed p.deadline s.now) with ⟨r, box⟩
  rw [hq', hq] at hpoll
  rcases hpoll with ⟨hr, hbox⟩
  have hr' : r = r'.map (Except.map Prod.snd) := hr
  rw [hr']
  rcases r' with _ | result
  · exact ⟨rfl, hbox, rfl, rfl⟩
  · exact ⟨rfl, hbox, rfl, rfl⟩

/-- A step goes the same way whatever number the message gets. -/
theorem reads_step (h : Reads Prod.snd s' s) (op : MailboxOp μ) (n : Nat) :
    (s.step op).1 = (s'.step (op.stamp n)).1.map Prod.snd ∧
      Reads Prod.snd (s'.step (op.stamp n)).2 (s.step op).2 := by
  cases op with
  | push m => exact ⟨rfl, reads_push h.box (n, m), h.now, h.pops⟩
  | clear reason => exact ⟨rfl, reads_clear h.box reason, h.now, h.pops⟩
  | advance ms => exact ⟨rfl, h.box, congrArg (· + ms) h.now, h.pops⟩
  | pop name test timeout =>
      -- The newcomer is told the same on both sides; if it has to wait, it looks once.
      have hpop := reads_pop h.box test
      simp only [MailboxOp.stamp, step, h.now, h.pops]
      rcases hp' : s'.box.pop (test ∘ Prod.snd) with ⟨r', box'⟩
      rcases hp : s.box.pop test with ⟨r, box⟩
      rw [hp', hp] at hpop
      rcases hpop with ⟨hr, hbox⟩
      have hr' : r = r'.map Prod.snd := hr
      rw [hr']
      cases r' with
      | done result => exact ⟨rfl, hbox, rfl, rfl⟩
      | panic text => exact ⟨rfl, hbox, rfl, rfl⟩
      | waiting id => exact reads_pollPending ⟨hbox, rfl, rfl⟩ name _
  | poll name =>
      simp only [MailboxOp.stamp, step, h.pops]
      rcases s.pops.get? name with _ | p
      · exact ⟨rfl, h⟩
      · exact reads_pollPending h name p
  | drop name =>
      simp only [MailboxOp.stamp, step, h.pops]
      rcases s.pops.get? name with _ | p
      · exact ⟨rfl, h⟩
      · exact ⟨rfl, reads_cancel h.box p.id, h.now, rfl⟩
  | tryPop test =>
      have hpop := reads_tryPop h.box test
      simp only [MailboxOp.stamp, step]
      rcases hp' : s'.box.tryPop (test ∘ Prod.snd) with ⟨r', box'⟩
      rcases hp : s.box.tryPop test with ⟨r, box⟩
      rw [hp', hp] at hpop
      rcases hpop with ⟨hr, hbox⟩
      have hr' : r = r'.map Prod.snd := hr
      rw [hr']
      cases r' <;> exact ⟨rfl, hbox, h.now, h.pops⟩

/-- The same operations, with the messages numbered from some number on. -/
def stamped (n : Nat) : List (MailboxOp μ) → List (MailboxOp (Nat × μ))
  | [] => []
  | op :: rest => op.stamp n :: stamped (n + 1) rest

/-- Over a history the answers are the same but for the numbers. -/
theorem reads_run (h : Reads Prod.snd s' s) (ops : List (MailboxOp μ)) (n : Nat) :
    (s.run ops).1 = (s'.run (stamped n ops)).1.map (MailboxAnswer.map Prod.snd) ∧
      Reads Prod.snd (s'.run (stamped n ops)).2 (s.run ops).2 := by
  induction ops generalizing s s' n with
  | nil => exact ⟨rfl, h⟩
  | cons op rest ih =>
      rcases reads_step h op n with ⟨hanswer, hstep⟩
      rcases ih hstep (n + 1) with ⟨hanswers, hrest⟩
      refine ⟨?_, hrest⟩
      change (s.step op).1 :: ((s.step op).2.run rest).1 = _
      rw [hanswer, hanswers]
      rfl

/-- Two empty mailboxes have nothing to read. -/
theorem reads_empty : Reads Prod.snd (empty : TimedMailbox (Nat × μ)) empty :=
  ⟨⟨rfl, rfl, rfl, rfl, rfl⟩, rfl, rfl⟩

/-- Where numbered operations come apart, the operations come apart. -/
theorem stamped_split {n : Nat} {ops : List (MailboxOp μ)} {before' after' : List _} {op' : _}
    (h : stamped n ops = before' ++ op' :: after') :
    ∃ before op after k, ops = before ++ op :: after ∧ before' = stamped n before ∧
      op.stamp k = op' ∧ after' = stamped (k + 1) after := by
  induction ops generalizing n before' with
  | nil => exact absurd h (by simp [stamped])
  | cons op rest ih =>
      cases before' with
      | nil =>
          rw [stamped, List.nil_append, List.cons.injEq] at h
          exact ⟨[], op, rest, n, rfl, rfl, h.1, h.2.symm⟩
      | cons op'' before'' =>
          rw [stamped, List.cons_append, List.cons.injEq] at h
          rcases ih h.2 with ⟨before, op₁, after, k, rfl, rfl, hop, hafter⟩
          exact ⟨op :: before, op₁, after, k, rfl, by rw [stamped, h.1], hop, hafter⟩

/-- Later messages have larger numbers. -/
theorem sends_stamped_lt (n : Nat) (ops : List (MailboxOp μ)) :
    ((stamped n ops).flatMap MailboxOp.sends).Pairwise (fun x y => x.1 < y.1) ∧
      ∀ x ∈ (stamped n ops).flatMap MailboxOp.sends, n ≤ x.1 := by
  induction ops generalizing n with
  | nil => exact ⟨List.Pairwise.nil, fun x hx => absurd hx List.not_mem_nil⟩
  | cons op rest ih =>
      rcases ih (n + 1) with ⟨hrest, hlarge⟩
      -- An operation sends at most one message, and under the number it was given.
      have hop : ∀ x ∈ (op.stamp n).sends, x.1 = n := by
        intro x hx
        cases op with
        | push m => rw [List.mem_singleton.mp hx]
        | _ => exact absurd hx List.not_mem_nil
      have hpair : (op.stamp n).sends.Pairwise (fun x y => x.1 < y.1) := by
        cases op with
        | push m => exact List.pairwise_singleton _ _
        | _ => exact List.Pairwise.nil
      rw [stamped, List.flatMap_cons, List.pairwise_append]
      refine ⟨⟨hpair, hrest, fun x hx y hy => ?_⟩, fun x hx => ?_⟩
      · have hx' := hop x hx
        have hy' := hlarge y hy
        omega
      · rcases List.mem_append.mp hx with hnow | hlater
        · exact Nat.le_of_eq (hop x hnow).symm
        · exact Nat.le_of_succ_le (hlarge x hlater)

end TimedMailbox

end Actors
