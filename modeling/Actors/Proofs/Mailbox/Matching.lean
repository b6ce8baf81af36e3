import Actors.Proofs.Dict
import Actors.Proofs.Mailbox.Basic

/-!
# No Receiver Waits in Vain

A receiver that waits has been turned down by every message in the buffer.

Two things bring a message and a receiver together. A receiver that arrives
walks the buffer and waits only if it took nothing. A message that arrives
walks the receivers and is buffered only if nobody took it, and a message that
comes back from a receiver that gave up does the same, although it goes to the
head of the buffer. Everything else that happens only makes the buffer or the
waiting receivers fewer. So the property is kept by `Unmatched.mono`, except
where somebody arrives.

It would also hold of a mailbox that loses its receivers, so the second half
of the module says that none is lost. A receiver that is pending under a name
either has its answer lying ready or is among those who wait, and those who
wait do so with the tests they came with, in the order in which they came.

## Main definitions

* `Mailbox.Unmatched`: No receiver waits for a message that is buffered.
* `Mailbox.Covers`: A receiver has an answer or waits for one.
* `TimedMailbox.Attended`: Every pending receiver is covered.
* `TimedMailbox.arrivals`: The receivers that had to wait, in order.

## Theorems

* `box_step`: What each operation of a mailbox keeps, each step keeps.
* `unmatched_step`, `attended_step`: What one step keeps.
* `consumers_run_sublist`: Those who wait came in the order in which they stand.
* `no_missed_match`: The laws together, after any history.
-/

namespace Actors

variable {μ : Type}

namespace Mailbox

/-- No receiver waits for a message that is buffered. -/
def Unmatched (b : Mailbox μ) : Prop :=
  ∀ m ∈ b.messages, ∀ c ∈ b.consumers, (c.matcher m).accepts = false

/-- Fewer messages and fewer receivers match less. -/
theorem Unmatched.mono {b b' : Mailbox μ} (h : b.Unmatched) (hm : b'.messages ⊆ b.messages)
    (hc : b'.consumers ⊆ b.consumers) : b'.Unmatched :=
  fun m hm' c hc' => h m (hm hm') c (hc hc')

/-- What is put into the buffer was turned down by everybody who waits. The order of the buffer does
    not matter here, so this serves messages that arrive and messages that come back. -/
theorem unmatched_deliver {b : Mailbox μ} (h : b.Unmatched) (m : μ) (buffer : List μ → List μ)
    (hbuffer : ∀ ms, ∀ y ∈ buffer ms, y ∈ ms ∨ y = m) : (b.deliver m buffer).Unmatched := by
  intro x hx c hc
  have hc' := (consumers_deliver_sublist b m buffer).subset hc
  rcases mem_messages_deliver hbuffer hx with hold | ⟨rfl, hnobody⟩
  · exact h x hold c hc'
  · exact hnobody c hc'

/-- A new message goes to the end of the buffer. -/
theorem unmatched_push {b : Mailbox μ} (h : b.Unmatched) (m : μ) : (b.push m).Unmatched :=
  unmatched_deliver h m _ fun _ _ hy => by rwa [List.mem_append, List.mem_singleton] at hy

/-- A message that comes back goes to its head. -/
theorem unmatched_restore {b : Mailbox μ} (h : b.Unmatched) (m : μ) : (b.restore m).Unmatched :=
  unmatched_deliver h m _ fun _ _ hy => (List.mem_cons.mp hy).symm

/-- A receiver that withdraws is one match less. -/
theorem unmatched_withdraw {b : Mailbox μ} (h : b.Unmatched) (id : Nat) :
    (b.withdraw id).Unmatched :=
  h.mono (fun _ hm => hm) (withdraw_consumers_sublist b id).subset

/-- A receiver that looks may leave. -/
theorem unmatched_poll {b : Mailbox μ} (h : b.Unmatched) (id : Nat) (expired : Bool) :
    (b.poll id expired).2.Unmatched := by
  rw [poll]
  split
  · exact h
  · split
    · exact unmatched_withdraw h id
    · exact h

/-- A receiver that gives up leaves, and its message is offered to the others before it is
    buffered. -/
theorem unmatched_cancel {b : Mailbox μ} (h : b.Unmatched) (id : Nat) :
    (b.cancel id).Unmatched := by
  rw [cancel]
  split
  next => exact unmatched_withdraw h id
  next m _ => exact unmatched_restore (b := b.observe id) h m
  next => exact h

/-- An attempt takes a message out or leaves everything as it is. -/
theorem unmatched_tryPop {b : Mailbox μ} (h : b.Unmatched) (test : Matcher μ) :
    (b.tryPop test).2.Unmatched := by
  rw [tryPop]
  split
  next => exact h
  next m others hscan => exact h.mono (scan_sublist hscan).subset fun _ hc => hc
  next => exact h

/-- A receiver joins those who wait only after a search of the whole buffer. -/
theorem unmatched_pop {b : Mailbox μ} (h : b.Unmatched) (test : Matcher μ) :
    (b.pop test).2.Unmatched := by
  rcases pop_cases b test with ⟨reason, -, hp⟩ | ⟨-, m, others, hscan, hp⟩ | ⟨-, text, -, hp⟩ |
    ⟨-, hscan, hp⟩
  · rwa [hp]
  · rw [hp]
    exact h.mono (scan_sublist hscan).subset fun _ hc => hc
  · rwa [hp]
  · rw [hp]
    intro m hm c hc
    rcases List.mem_append.mp hc with hold | hnew
    · exact h m hm c hold
    · -- The newcomer joins because it rejected all there is.
      have hreject : test m = .reject := scan_eq_nothing_iff.mp hscan m hm
      rw [List.mem_singleton.mp hnew]
      simp only [hreject, Verdict.accepts]

/-- A mailbox that is cleared has nothing in its buffer. -/
theorem unmatched_clear (b : Mailbox μ) (reason : Term) : (b.clear reason).Unmatched :=
  fun _ hm => absurd hm List.not_mem_nil

/-! ## No receiver is lost -/

/-- A receiver has its answer lying ready, or it waits. -/
def Covers (b : Mailbox μ) (id : Nat) : Prop :=
  b.isResolved id = true ∨ ∃ c ∈ b.consumers, c.id = id

/-- An answer lies ready under a number if there is one with this number. -/
theorem isResolved_iff {b : Mailbox μ} {id : Nat} :
    b.isResolved id = true ↔ ∃ r ∈ b.resolved, r.1 = id := by
  rw [isResolved, Option.isSome_iff_ne_none, ne_eq, List.lookup_eq_none_iff]
  constructor
  · intro h
    refine Classical.byContradiction fun hnone => h fun r hr => ?_
    exact bne_iff_ne.mpr fun heq => hnone ⟨r, hr, heq.symm⟩
  · rintro ⟨r, hr, rfl⟩ h
    exact absurd (h r hr) (by simp)

/-- Whoever is covered stays so if no answers disappear and whoever does not wait any more has an
    answer. -/
theorem Covers.of_append {b b' : Mailbox μ} {id : Nat} (h : b.Covers id)
    (hr : b.resolved ⊆ b'.resolved)
    (hc : ∀ c ∈ b.consumers, c ∈ b'.consumers ∨ ∃ r ∈ b'.resolved, r.1 = c.id) :
    b'.Covers id := by
  rcases h with hres | ⟨c, hmem, rfl⟩
  · rcases isResolved_iff.mp hres with ⟨r, hmem, rfl⟩
    exact Or.inl (isResolved_iff.mpr ⟨r, hr hmem, rfl⟩)
  · rcases hc c hmem with hstay | hanswer
    · exact Or.inr ⟨c, hstay, rfl⟩
    · exact Or.inl (isResolved_iff.mpr hanswer)

/-- The message makes one receiver stop waiting, and that one has it. -/
theorem covers_deliver {b : Mailbox μ} {id : Nat} (h : b.Covers id) (m : μ)
    (buffer : List μ → List μ) : (b.deliver m buffer).Covers id := by
  rw [deliver]
  split
  · exact h
  · split
    next id' others hoffer =>
      -- The one who took the message has it as an answer, and all others wait on.
      refine h.of_append (List.subset_append_left _ _) fun c hc => ?_
      refine (mem_or_eq_of_offer hoffer hc).imp (fun hmem => hmem) fun heq => ?_
      exact ⟨(id', .message m), by simp, heq.symm⟩
    next => exact h

/-- Clearing answers everybody who waits. -/
theorem covers_clear {b : Mailbox μ} {id : Nat} (h : b.Covers id) (reason : Term) :
    (b.clear reason).Covers id := by
  refine h.of_append (List.subset_append_left _ _) fun c hc => Or.inr ?_
  exact ⟨(c.id, .closed reason), List.mem_append_right _ (List.mem_map_of_mem hc), rfl⟩

/-- Another one stops waiting. -/
theorem covers_withdraw {b : Mailbox μ} {id id' : Nat} (h : b.Covers id) (hne : id ≠ id') :
    (b.withdraw id').Covers id := by
  rcases h with hres | ⟨c, hmem, rfl⟩
  · exact Or.inl hres
  · exact Or.inr ⟨c, List.mem_filter.mpr ⟨hmem, by simpa using hne⟩, rfl⟩

/-- Another one takes its answer. -/
theorem covers_observe {b : Mailbox μ} {id id' : Nat} (h : b.Covers id) (hne : id ≠ id') :
    (b.observe id').Covers id := by
  rcases h with hres | hwait
  · rcases isResolved_iff.mp hres with ⟨r, hmem, rfl⟩
    exact Or.inl (isResolved_iff.mpr ⟨r, List.mem_filter.mpr ⟨hmem, by simpa using hne⟩, rfl⟩)
  · exact Or.inr hwait

/-- Another one gives up. -/
theorem covers_cancel {b : Mailbox μ} {id id' : Nat} (h : b.Covers id) (hne : id ≠ id') :
    (b.cancel id').Covers id := by
  rw [cancel]
  split
  next => exact covers_withdraw h hne
  next m _ => exact covers_deliver (covers_observe h hne) m _
  next => exact covers_observe h hne

/-- An attempt that does not wait has no business with those who do. -/
theorem covers_tryPop {b : Mailbox μ} {id : Nat} (h : b.Covers id) (test : Matcher μ) :
    (b.tryPop test).2.Covers id := by
  rw [tryPop]
  split <;> exact h

/-- A receiver that arrives stands behind the others or is gone, and takes nothing from them but
    messages. -/
theorem covers_pop {b : Mailbox μ} {id : Nat} (h : b.Covers id) (test : Matcher μ) :
    (b.pop test).2.Covers id := by
  rcases pop_cases b test with ⟨reason, -, hp⟩ | ⟨-, m, others, -, hp⟩ | ⟨-, text, -, hp⟩ |
    ⟨-, -, hp⟩
  · rwa [hp]
  · rw [hp]
    exact h
  · rwa [hp]
  · rw [hp]
    exact h.of_append (fun _ hr => hr) fun c hc => Or.inl (List.mem_append_left _ hc)

/-- The receiver that an operation makes wait. -/
def arrival (b : Mailbox μ) : MailboxOp μ → List (Consumer μ)
  | .pop _ test _ =>
      match b.pop test with
      | (.waiting id, _) => [⟨id, test⟩]
      | _ => []
  | _ => []

/-- Only a receiver that arrives and has to wait joins those who wait. -/
theorem pop_consumers (b : Mailbox μ) (name : String) (test : Matcher μ) (timeout : Option Nat) :
    (b.pop test).2.consumers = b.consumers ++ b.arrival (.pop name test timeout) := by
  rw [arrival]
  rcases pop_cases b test with ⟨reason, -, h⟩ | ⟨-, m, others, -, h⟩ | ⟨-, text, -, h⟩ | ⟨-, -, h⟩
  · simp only [h, List.append_nil]
  · simp only [h, List.append_nil]
  · simp only [h, List.append_nil]
  · simp only [h]

end Mailbox

namespace TimedMailbox

open Mailbox

/-- Looking for an answer does to the mailbox what a poll does, whatever becomes
    of the receiver. -/
theorem box_pollPending (s : TimedMailbox μ) (name : String) (p : PendingPop) :
    (s.pollPending name p).2.box = (s.box.poll p.id (deadlinePassed p.deadline s.now)).2 := by
  rw [pollPending]
  split
  next hp => rw [hp]
  next hp => rw [hp]

/-- What each operation of a mailbox keeps, each step keeps. -/
theorem box_step (P : Mailbox μ → Prop) (push : ∀ b m, P b → P (b.push m))
    (clear : ∀ b reason, P b → P (b.clear reason)) (pop : ∀ b test, P b → P (b.pop test).2)
    (poll : ∀ b id expired, P b → P (b.poll id expired).2) (cancel : ∀ b id, P b → P (b.cancel id))
    (tryPop : ∀ b test, P b → P (b.tryPop test).2) (s : TimedMailbox μ) (op : MailboxOp μ)
    (h : P s.box) : P (s.step op).2.box := by
  have hpoll : ∀ (s : TimedMailbox μ) name p, P s.box → P (s.pollPending name p).2.box := by
    intro s name p h
    rw [box_pollPending]
    exact poll s.box p.id (deadlinePassed p.deadline s.now) h
  cases op with
  | push m => exact push s.box m h
  | clear reason => exact clear s.box reason h
  | advance ms => exact h
  | pop name test timeout =>
      have hnext := pop s.box test h
      rw [step]
      split
      next hp => rwa [hp] at hnext
      next hp => rwa [hp] at hnext
      next hp =>
        rw [hp] at hnext
        -- A receiver that has to wait looks for its answer at once.
        exact hpoll _ _ _ hnext
  | poll name =>
      rw [step]
      split
      next => exact h
      next p _ => exact hpoll s name p h
  | drop name =>
      rw [step]
      split
      next => exact h
      next p _ => exact cancel s.box p.id h
  | tryPop test =>
      have hnext := tryPop s.box test h
      rw [step]
      split
      next hp => rwa [hp] at hnext
      next hp => rwa [hp] at hnext
      next hp => rwa [hp] at hnext

/-- Each step keeps it, as each operation of the mailbox does. -/
theorem unmatched_step {s : TimedMailbox μ} (h : s.box.Unmatched) (op : MailboxOp μ) :
    (s.step op).2.box.Unmatched :=
  box_step Unmatched (fun _ m h => unmatched_push h m) (fun b reason _ => unmatched_clear b reason)
    (fun _ test h => unmatched_pop h test) (fun _ id e h => unmatched_poll h id e)
    (fun _ id h => unmatched_cancel h id) (fun _ test h => unmatched_tryPop h test) s op h

/-- The receivers that had to wait, in the order in which they came. -/
def arrivals (s : TimedMailbox μ) : List (MailboxOp μ) → List (Consumer μ)
  | [] => []
  | op :: rest => s.box.arrival op ++ arrivals (s.step op).2 rest

/-- A step lets some receivers go and adds at most the newcomer, at the end. -/
theorem consumers_step_sublist (s : TimedMailbox μ) (op : MailboxOp μ) :
    (s.step op).2.box.consumers.Sublist (s.box.consumers ++ s.box.arrival op) := by
  -- A look only removes.
  have hpoll : ∀ (s : TimedMailbox μ) name p,
      (s.pollPending name p).2.box.consumers.Sublist s.box.consumers := by
    intro s name p
    rw [box_pollPending]
    exact poll_consumers_sublist s.box p.id (deadlinePassed p.deadline s.now)
  have hsame : ∀ {cs cs' : List (Consumer μ)}, cs = cs' → cs.Sublist cs' :=
    fun h => h ▸ List.Sublist.refl _
  cases op with
  | push m =>
      simp only [arrival, List.append_nil]
      exact consumers_deliver_sublist s.box m _
  | clear reason => exact List.nil_sublist _
  | advance ms => exact List.sublist_append_left _ _
  | pop name test timeout =>
      -- The newcomer stands last, and may be gone again after it has looked.
      rw [← pop_consumers, step]
      split
      next hp => exact hsame (by rw [hp])
      next hp => exact hsame (by rw [hp])
      next hp => rw [hp]; exact hpoll _ _ _
  | poll name =>
      simp only [arrival, List.append_nil, step]
      split
      next => exact List.Sublist.refl _
      next p _ => exact hpoll s name p
  | drop name =>
      simp only [arrival, List.append_nil, step]
      split
      next => exact List.Sublist.refl _
      next p _ => exact cancel_consumers_sublist s.box p.id
  | tryPop test =>
      -- Whoever only glances never waits.
      have h := consumers_tryPop s.box test
      simp only [arrival, List.append_nil, step]
      rw [← h]
      split
      next hp => exact hsame (by rw [hp])
      next hp => exact hsame (by rw [hp])
      next hp => exact hsame (by rw [hp])

/-- Those who wait came in the order in which they stand. -/
theorem consumers_run_sublist (s : TimedMailbox μ) (ops : List (MailboxOp μ)) :
    (s.run ops).2.box.consumers.Sublist (s.box.consumers ++ s.arrivals ops) := by
  induction ops generalizing s with
  | nil => exact List.sublist_append_left _ _
  | cons op rest ih =>
      -- Who joins in the first step stands before all who join later.
      have hstep := (consumers_step_sublist s op).append_right ((s.step op).2.arrivals rest)
      rw [List.append_assoc] at hstep
      exact (ih (s.step op).2).trans hstep

/-! ## Every pending receiver is covered -/

/-- Every pending receiver is covered, and under a number of its own. -/
structure Attended (s : TimedMailbox μ) : Prop where
  /-- Numbers that were not given out yet are free. -/
  below : ∀ name p, s.pops.get? name = some p → p.id < s.box.nextId
  /-- No two receivers have one number. -/
  apart : ∀ name name' p p', s.pops.get? name = some p → s.pops.get? name' = some p' →
    p.id = p'.id → name = name'
  /-- Every receiver has its answer lying ready, or waits. -/
  covered : ∀ name p, s.pops.get? name = some p → s.box.Covers p.id

/-- A change of the mailbox that takes no number back and keeps what is covered. -/
theorem Attended.change {s : TimedMailbox μ} (h : s.Attended) (now : Nat) (box : Mailbox μ)
    (hnext : s.box.nextId ≤ box.nextId) (hcovers : ∀ id, s.box.Covers id → box.Covers id) :
    Attended { s with box, now } where
  below := fun name p hp => Nat.lt_of_lt_of_le (h.below name p hp) hnext
  apart := h.apart
  covered := fun name p hp => hcovers p.id (h.covered name p hp)

/-- A receiver that leaves takes only what is its own. -/
theorem Attended.leave {s : TimedMailbox μ} (h : s.Attended) {name : String} {p : PendingPop}
    (hp : s.pops.get? name = some p) (box : Mailbox μ) (hnext : s.box.nextId = box.nextId)
    (hcovers : ∀ id, id ≠ p.id → s.box.Covers id → box.Covers id) :
    Attended { s with box, pops := s.pops.erase name } := by
  refine ⟨fun name' p' h' => ?_, fun a b p' q' ha hb => ?_, fun name' p' h' => ?_⟩
  · change p'.id < box.nextId
    rw [← hnext]
    exact h.below name' p' (Dict.get?_of_erase h').2
  · exact h.apart a b p' q' (Dict.get?_of_erase ha).2 (Dict.get?_of_erase hb).2
  · rcases Dict.get?_of_erase h' with ⟨hne, hget⟩
    refine hcovers p'.id (fun heq => ?_) (h.covered name' p' hget)
    -- A number belongs to one receiver, so this one has another.
    exact hne (h.apart name' name p' p hget hp heq)

/-- A receiver that looks takes its answer along, stops waiting, or stays as it is. -/
theorem attended_pollPending {s : TimedMailbox μ} (h : s.Attended) {name : String}
    {p : PendingPop} (hp : s.pops.get? name = some p) : (s.pollPending name p).2.Attended := by
  rw [pollPending, Mailbox.poll]
  cases hres : s.box.resolved.lookup p.id with
  | some resolution =>
      exact h.leave hp (s.box.observe p.id) rfl fun id hne hc => covers_observe hc hne
  | none =>
      by_cases hexpired : deadlinePassed p.deadline s.now = true
      · simp only [hexpired, if_true]
        exact h.leave hp (s.box.withdraw p.id) rfl fun id hne hc => covers_withdraw hc hne
      · simp only [hexpired, Bool.false_eq_true, if_false]
        -- Without an answer and before its deadline it just waits on.
        exact h.change s.now s.box (Nat.le_refl _) fun _ hc => hc

/-- A receiver that has to wait is covered from the start: it has just joined
    those who wait. -/
theorem attended_arrive {s : TimedMailbox μ} (h : s.Attended) {name : String} {test : Matcher μ}
    {id : Nat} {box : Mailbox μ} (hpop : s.box.pop test = (.waiting id, box))
    (deadline : Option Nat) :
    Attended { s with box, pops := s.pops.insert name ⟨id, deadline⟩ } := by
  rcases pop_waiting hpop with ⟨hid, hnext, hconsumers⟩
  have hget : ∀ name' p', (s.pops.insert name ⟨id, deadline⟩).get? name' = some p' →
      (name' = name ∧ p'.id = id) ∨ (name' ≠ name ∧ s.pops.get? name' = some p') := by
    intro name' p' h'
    rw [Dict.get?_insert] at h'
    split at h'
    next heq =>
      rw [Option.some.injEq] at h'
      exact Or.inl ⟨heq, by rw [← h']⟩
    next hne => exact Or.inr ⟨hne, h'⟩
  -- A number that was given out before is below the one given out now.
  have hfresh : ∀ name' p', s.pops.get? name' = some p' → p'.id ≠ id := by
    intro name' p' h' heq
    have hlt := h.below name' p' h'
    omega
  refine ⟨fun name' p' h' => ?_, fun a b p' q' ha hb heq => ?_, fun name' p' h' => ?_⟩
  · change p'.id < box.nextId
    rcases hget name' p' h' with ⟨-, heq⟩ | ⟨-, hold⟩
    · omega
    · have hlt := h.below name' p' hold
      omega
  · rcases hget a p' ha with ⟨rfl, hp⟩ | ⟨-, hold⟩
    · rcases hget b q' hb with ⟨rfl, -⟩ | ⟨-, hold'⟩
      · rfl
      · exact absurd (heq.symm.trans hp) (hfresh b q' hold')
    · rcases hget b q' hb with ⟨rfl, hq⟩ | ⟨-, hold'⟩
      · exact absurd (heq.trans hq) (hfresh a p' hold)
      · exact h.apart a b p' q' hold hold' heq
  · change box.Covers p'.id
    rcases hget name' p' h' with ⟨-, heq⟩ | ⟨-, hold⟩
    · refine Or.inr ⟨⟨id, test⟩, ?_, heq.symm⟩
      rw [hconsumers]
      exact List.mem_append_right _ List.mem_cons_self
    · have hcovers := covers_pop (h.covered name' p' hold) test
      rwa [hpop] at hcovers

/-- Each step takes care of everybody who is pending. -/
theorem attended_step {s : TimedMailbox μ} (h : s.Attended) (op : MailboxOp μ) :
    (s.step op).2.Attended := by
  cases op with
  | push m =>
      exact h.change _ _ (Nat.le_of_eq (nextId_deliver s.box m _).symm)
        fun _ hc => covers_deliver hc m _
  | clear reason => exact h.change _ _ (Nat.le_refl _) fun _ hc => covers_clear hc reason
  | advance ms => exact h.change _ _ (Nat.le_refl _) fun _ hc => hc
  | pop name test timeout =>
      -- If it does not have to wait, the others notice no more than a message that is gone.
      have hchange := fun box (hbox : (s.box.pop test).2 = box) =>
        h.change s.now box (hbox ▸ nextId_le_pop s.box test) fun _ hc => hbox ▸ covers_pop hc test
      rw [step]
      split
      next box hp => exact hchange box (by rw [hp])
      next box hp => exact hchange box (by rw [hp])
      next id box hp =>
        refine attended_pollPending (attended_arrive h hp _) ?_
        rw [Dict.get?_insert, if_pos rfl]
  | poll name =>
      rw [step]
      split
      next => exact h
      next p hp => exact attended_pollPending h hp
  | drop name =>
      rw [step]
      split
      next => exact h
      next p hp =>
        exact h.leave hp (s.box.cancel p.id) (nextId_cancel s.box p.id).symm
          fun id hne hc => covers_cancel hc hne
  | tryPop test =>
      have hchange := fun box (hbox : (s.box.tryPop test).2 = box) =>
        h.change s.now box (hbox ▸ Nat.le_of_eq (nextId_tryPop s.box test).symm)
          fun _ hc => hbox ▸ covers_tryPop hc test
      rw [step]
      split
      next box hp => exact hchange box (by rw [hp])
      next m box hp => exact hchange box (by rw [hp])
      next text box hp => exact hchange box (by rw [hp])

/-- Over a history nobody who is pending is left without an answer and without a place in the
    line. -/
theorem attended_run {s : TimedMailbox μ} (h : s.Attended) (ops : List (MailboxOp μ)) :
    (s.run ops).2.Attended := by
  induction ops generalizing s with
  | nil => exact h
  | cons op rest ih => exact ih (attended_step h op)

/-- Over a history no buffered message is one that somebody waits for. -/
theorem unmatched_run {s : TimedMailbox μ} (h : s.box.Unmatched) (ops : List (MailboxOp μ)) :
    (s.run ops).2.box.Unmatched := by
  induction ops generalizing s with
  | nil => exact h
  | cons op rest ih => exact ih (unmatched_step h op)

/-- Nobody is pending at first. -/
theorem attended_empty : (empty : TimedMailbox μ).Attended where
  below := fun name p h => absurd h (by simp [empty])
  apart := fun name name' p p' h => absurd h (by simp [empty])
  covered := fun name p h => absurd h (by simp [empty])

/-- Whatever happened to a mailbox: no receiver that waits accepts a message
    that is buffered, every pending receiver without an answer waits, and those
    who wait have the tests they came with and stand in the order in which they
    came. -/
theorem no_missed_match (ops : List (MailboxOp μ)) :
    let s := ((empty : TimedMailbox μ).run ops).2
    (∀ m ∈ s.box.messages, ∀ c ∈ s.box.consumers, (c.matcher m).accepts = false) ∧
    (∀ name p, s.pops.get? name = some p → s.box.isResolved p.id = false →
      ∃ c ∈ s.box.consumers, c.id = p.id) ∧
    s.box.consumers.Sublist (empty.arrivals ops) := by
  refine ⟨unmatched_run (fun _ hm => absurd hm List.not_mem_nil) ops, ?_,
    consumers_run_sublist empty ops⟩
  intro name p hp hwaiting
  -- A pending receiver is covered in one of two ways, and this one has no answer.
  rcases (attended_run attended_empty ops).covered name p hp with hanswer | hwait
  · rw [hwaiting] at hanswer
    exact absurd hanswer (by simp)
  · exact hwait

end TimedMailbox

end Actors
