import Actors.Proofs.Mailbox.FirstCome
import Actors.Proofs.Process

/-!
# Closing a Mailbox

Once a mailbox is closed nothing gets into it any more, whatever happens. What
is sent is dropped, what a receiver gives back is dropped too, and whoever comes
is refused at once. All that is left are the answers of those who were pending
at the closing, and each of them keeps its answer until it looks or gives up.

At the closing a pending receiver is in one of two situations, if the mailbox
was open until then. It has been handed a message and gets it when it looks; or
it has no answer yet and then learns the reason, however long its time has been
up. A mailbox that is closed a second time has receivers of a third kind, those
who were told the first reason and have not looked. They keep it.

The answers need no assumption about the names of the receivers: in a closed
mailbox nobody waits, so nobody takes the name of another.

## Main definitions

* `TimedMailbox.afterClosing`: A mailbox is closed, and then something happens.
* `TimedMailbox.ClosesForGood`: What is true ever after.

## Theorems

* `shut_run`: A closed mailbox stays closed and empty.
* `answered_run_of_closed`: An answer lies ready until its receiver looks or gives up.
* `closes_for_good`: The law of closing, for every history before and after.
-/

namespace Actors

variable {μ : Type}

namespace Mailbox

/-- A closed mailbox that is empty is shut, for the reason it was closed for. -/
theorem Emptied.shut {b : Mailbox μ} (h : b.Emptied) {reason : Term}
    (hclosed : b.closed = some reason) : b.Shut reason := by
  rcases h (by simp [hclosed]) with ⟨hmessages, hconsumers⟩
  exact ⟨hmessages, hconsumers, hclosed⟩

/-! ## The answers of an open mailbox -/

/-- While a mailbox is open, every answer that lies ready is a message. -/
def Hopeful (b : Mailbox μ) : Prop :=
  b.closed = none → ∀ id reason, (id, Resolution.closed reason) ∉ b.resolved

/-- While no answers are added, none of them can be bad news. -/
theorem Hopeful.mono {b b' : Mailbox μ} (h : b.Hopeful) (hclosed : b'.closed = b.closed)
    (hsub : b'.resolved ⊆ b.resolved) : b'.Hopeful :=
  fun hopen id reason hr => h (hclosed ▸ hopen) id reason (hsub hr)

/-- A message that arrives adds a message to the answers, or nothing. -/
theorem hopeful_deliver {b : Mailbox μ} (h : b.Hopeful) (m : μ) (buffer : List μ → List μ) :
    (b.deliver m buffer).Hopeful := by
  rcases deliver_cases b m buffer with ⟨reason, -, hd⟩ | ⟨-, before, c, after, -, -, -, hd⟩ |
    ⟨-, -, hd⟩ <;> rw [hd]
  · exact h
  · intro hopen id reason hr
    rcases List.mem_append.mp hr with hold | hnew
    · exact h hopen id reason hold
    · exact absurd (List.mem_singleton.mp hnew) (by simp)
  · exact h

/-- Taking an answer away leaves the others. -/
theorem hopeful_observe {b : Mailbox μ} (h : b.Hopeful) (id : Nat) : (b.observe id).Hopeful :=
  h.mono rfl List.filter_sublist.subset

/-- A look takes away one answer at most. -/
theorem hopeful_poll {b : Mailbox μ} (h : b.Hopeful) (id : Nat) (expired : Bool) :
    (b.poll id expired).2.Hopeful := by
  rcases poll_cases b id expired with ⟨r, -, hp⟩ | ⟨-, hp⟩ | ⟨-, hp⟩ <;> rw [hp]
  · exact hopeful_observe h id
  · exact h
  · exact h

/-- To give up takes one away, and may add a message. -/
theorem hopeful_cancel {b : Mailbox μ} (h : b.Hopeful) (id : Nat) : (b.cancel id).Hopeful := by
  rcases cancel_cases b id with ⟨-, hc⟩ | ⟨m, -, hc⟩ | ⟨reason, -, hc⟩ <;> rw [hc]
  · exact h
  · exact hopeful_deliver (hopeful_observe h id) m _
  · exact hopeful_observe h id

end Mailbox

namespace TimedMailbox

open Mailbox

/-- In a history of an open mailbox nobody is told that it was closed. Clearing is the only
    operation that tells so, and it closes the mailbox. -/
theorem hopeful_run {s : TimedMailbox μ} (h : s.box.Hopeful) (ops : List (MailboxOp μ)) :
    (s.run ops).2.box.Hopeful := by
  induction ops generalizing s with
  | nil => exact h
  | cons op rest ih =>
      refine ih (box_step Hopeful (fun _ m h => hopeful_deliver h m _) (fun b reason _ => ?_)
        (fun b test h => h.mono (closed_pop b test) fun _ hr => resolved_pop b test ▸ hr)
        (fun _ id e h => hopeful_poll h id e) (fun _ id h => hopeful_cancel h id)
        (fun b test h => h.mono (closed_tryPop b test) fun _ hr => resolved_tryPop b test ▸ hr)
        s op h)
      exact fun hopen => absurd hopen (by simp [clear])

/-- In an open mailbox nobody is told of a closing. -/
theorem not_answered_of_open {s : TimedMailbox μ} (h : s.box.Hopeful) (hopen : s.box.closed = none)
    (name : String) (reason : Term) : ¬ s.Answered name (.closed reason) := by
  rintro ⟨p, -, hr⟩
  exact h hopen p.id reason hr

/-! ## A closed mailbox -/

/-- Without a clearing a mailbox stays what it is, open or closed. -/
theorem closed_run (s : TimedMailbox μ) {ops : List (MailboxOp μ)}
    (hops : ∀ r, MailboxOp.clear r ∉ ops) : (s.run ops).2.box.closed = s.box.closed := by
  induction ops generalizing s with
  | nil => rfl
  | cons op rest ih =>
      have hrest := ih (s.step op).2 fun r hr => hops r (List.mem_cons_of_mem op hr)
      rcases closed_step s op with ⟨reason, rfl⟩ | hsame
      · exact absurd List.mem_cons_self (hops reason)
      · exact hrest.trans hsame

/-- A closed mailbox stays closed and empty. -/
theorem shut_run {s : TimedMailbox μ} {reason : Term} (h : s.box.Shut reason)
    {ops : List (MailboxOp μ)} (hops : ∀ r, MailboxOp.clear r ∉ ops) :
    (s.run ops).2.box.Shut reason :=
  (emptied_run (fun _ => ⟨h.messages, h.consumers⟩) ops).shut ((closed_run s hops).trans h.closed)

/-- Whoever comes to a closed mailbox is refused and leaves no trace. -/
theorem step_pop_of_closed {s : TimedMailbox μ} {reason : Term} (h : s.box.closed = some reason)
    (name : String) (test : Matcher μ) (timeout : Option Nat) :
    s.step (.pop name test timeout) = (.result (.error (.closed reason)), s) := by
  simp only [step, pop, h]

/-- In a step of a closed mailbox only the receiver itself takes its answer. -/
theorem answered_step_of_closed {s : TimedMailbox μ} {name : String} {r : Resolution μ}
    (h : s.Answered name r) (hn : s.box.Numbered) (ha : s.Attended) {reason : Term}
    (hclosed : s.box.closed = some reason) {op : MailboxOp μ} (hpoll : op ≠ .poll name)
    (hdrop : op ≠ .drop name) : (s.step op).2.Answered name r := by
  by_cases hname : name ∈ op.opens
  · -- A receiver that comes does not stay, so it takes no name either.
    cases op with
    | pop name' test timeout =>
        rw [step_pop_of_closed hclosed]
        exact h
    | _ => exact absurd hname List.not_mem_nil
  · rcases answered_step h hn ha hname with ⟨-, hstays⟩ | ⟨heq, -⟩ | ⟨heq, -⟩
    · exact hstays
    · exact absurd heq hpoll
    · exact absurd heq hdrop

/-- In a closed mailbox an answer lies ready until its receiver looks or gives up. -/
theorem answered_run_of_closed {s : TimedMailbox μ} {name : String} {r : Resolution μ}
    (h : s.Answered name r) (hn : s.box.Numbered) (ha : s.Attended) {reason : Term}
    (hclosed : s.box.closed = some reason) {ops : List (MailboxOp μ)}
    (hops : ∀ r, MailboxOp.clear r ∉ ops) (hpoll : MailboxOp.poll name ∉ ops)
    (hdrop : MailboxOp.drop name ∉ ops) : (s.run ops).2.Answered name r := by
  induction ops generalizing s with
  | nil => exact h
  | cons op rest ih =>
      have hne : ∀ op' ∉ op :: rest, op ≠ op' := fun op' hop' heq =>
        hop' (heq ▸ List.mem_cons_self)
      have hstep := answered_step_of_closed h hn ha hclosed (hne _ hpoll) (hne _ hdrop)
      -- Nothing opens a closed mailbox again.
      have hstill : (s.step op).2.box.closed = some reason := by
        rcases closed_step s op with ⟨reason', heq⟩ | hsame
        · exact absurd heq (hne _ (hops reason'))
        · exact hsame.trans hclosed
      exact ih hstep (numbered_step hn op) (attended_step ha op) hstill
        (fun r hr => hops r (List.mem_cons_of_mem op hr))
        (fun hmem => hpoll (List.mem_cons_of_mem op hmem))
        (fun hmem => hdrop (List.mem_cons_of_mem op hmem))

/-- A pending receiver without an answer is told when the mailbox is closed. -/
theorem answered_clear {s : TimedMailbox μ} (ha : s.Attended) {name : String}
    (hpending : s.pops.get? name ≠ none) (hnone : ∀ r, ¬ s.Answered name r) (reason : Term) :
    (s.step (.clear reason)).2.Answered name (.closed reason) := by
  rcases Option.ne_none_iff_exists'.mp hpending with ⟨p, hp⟩
  refine ⟨p, hp, List.mem_append_right _ ?_⟩
  rcases ha.covered name p hp with hanswer | ⟨c, hc, hid⟩
  · rcases isResolved_iff.mp hanswer with ⟨⟨id, r⟩, hr, rfl⟩
    exact absurd ⟨p, hp, hr⟩ (hnone r)
  · exact List.mem_map.mpr ⟨c, hc, by rw [hid]⟩

/-! ## The law -/

/-- A mailbox is closed, and then something happens. -/
def afterClosing (s : TimedMailbox μ) (reason : Term) (ops : List (MailboxOp μ)) :
    TimedMailbox μ := ((s.step (.clear reason)).2.run ops).2

/-- What is true of a mailbox when it has been closed and something has happened. -/
structure ClosesForGood (s : TimedMailbox μ) (reason : Term) (ops : List (MailboxOp μ)) :
    Prop where
  /-- Nothing is buffered, also of what came back, and nobody waits. -/
  empty : (s.afterClosing reason ops).box.messages = [] ∧
    (s.afterClosing reason ops).box.consumers = []
  /-- Who was pending without an answer and has not looked since learns the
      reason when it looks, whether or not its time is up. -/
  told : ∀ name, s.pops.get? name ≠ none → (∀ m, ¬ s.Holds name m) →
    (∀ r, ¬ s.Answered name (.closed r)) →
    MailboxOp.poll name ∉ ops → MailboxOp.drop name ∉ ops →
    ((s.afterClosing reason ops).step (.poll name)).1 = .result (.error (.closed reason))
  /-- Who had been handed a message and has not looked since gets the message. -/
  served : ∀ name m, s.Holds name m →
    MailboxOp.poll name ∉ ops → MailboxOp.drop name ∉ ops →
    ((s.afterClosing reason ops).step (.poll name)).1 = .result (.ok m)
  /-- Who had been told of a closing before learns the reason of that one. -/
  told_before : ∀ name r, s.Answered name (.closed r) →
    MailboxOp.poll name ∉ ops → MailboxOp.drop name ∉ ops →
    ((s.afterClosing reason ops).step (.poll name)).1 = .result (.error (.closed r))
  /-- There is nobody of that kind if the mailbox was open. -/
  first : s.box.closed = none → ∀ name r, ¬ s.Answered name (.closed r)
  /-- Whoever comes later is refused at once, whatever it wants and however long
      it would wait, and leaves no trace. -/
  refused : ∀ name test timeout, (s.afterClosing reason ops).step (.pop name test timeout) =
    (.result (.error (.closed reason)), s.afterClosing reason ops)

/-- Whatever happened to a mailbox before it is closed, and whatever happens
    afterwards except that it is closed again. -/
theorem closes_for_good (before : List (MailboxOp μ)) (reason : Term)
    {after : List (MailboxOp μ)} (hafter : ∀ r, MailboxOp.clear r ∉ after) :
    ClosesForGood ((empty : TimedMailbox μ).run before).2 reason after := by
  generalize hs : ((empty : TimedMailbox μ).run before).2 = s
  have hn : s.box.Numbered := hs ▸ numbered_run accounted_empty.numbered before
  have ha : s.Attended := hs ▸ attended_run attended_empty before
  have hopeful : s.box.Hopeful := hs ▸ hopeful_run (fun _ _ _ => List.not_mem_nil) before
  -- What a receiver has when the mailbox is closed is what it sees later.
  have hn₁ := numbered_step hn (.clear reason)
  have ha₁ := attended_step ha (.clear reason)
  have hsees : ∀ {name r}, (s.step (.clear reason)).2.Answered name r →
      MailboxOp.poll name ∉ after → MailboxOp.drop name ∉ after →
      ((s.afterClosing reason after).step (.poll name)).1 = .result r.result :=
    fun h hpoll hdrop => (poll_of_answered
      (answered_run_of_closed h hn₁ ha₁ rfl hafter hpoll hdrop) (numbered_run hn₁ after)).1
  have hkept : ∀ {name r}, s.Answered name r → (s.step (.clear reason)).2.Answered name r :=
    fun h => h.change _ _ (List.subset_append_left _ _)
  have hshut : (s.afterClosing reason after).box.Shut reason :=
    shut_run (shut_clear s.box reason) hafter
  refine ⟨⟨hshut.messages, hshut.consumers⟩, fun name hpending hholds hbefore => ?_,
    fun name m h => hsees (hkept (holds_iff.mp h)), fun name r h => hsees (hkept h),
    not_answered_of_open hopeful, step_pop_of_closed hshut.closed⟩
  refine hsees (answered_clear ha hpending (fun r h => ?_) reason)
  cases r with
  | message m => exact hholds m h
  | closed r => exact hbefore r h

/-- One receiver has been handed a message, another one waits and its time will
    be up. -/
def beforeClosing : List (MailboxOp Nat) :=
  [.push 1, .pop "served" (fun m => .ofBool (m = 2)) none, .push 2,
    .pop "idle" (fun m => .ofBool (m = 9)) (some 5)]

/-- The message that is sent and the receiver that comes are too late, and the
    one that waited learns so when its time is up. -/
theorem closes_for_good_late :
    (∀ r, MailboxOp.clear r ∉
      ([.push 9, .pop "late" (fun _ => .accept) none, .advance 7] : List (MailboxOp Nat))) ∧
    ((((empty : TimedMailbox Nat).run beforeClosing).2.afterClosing .nil
      [.push 9, .pop "late" (fun _ => .accept) none, .advance 7]).step (.poll "idle")).1 =
        .result (.error (.closed .nil)) ∧
    ClosesForGood ((empty : TimedMailbox Nat).run beforeClosing).2 .nil
      [.push 9, .pop "late" (fun _ => .accept) none, .advance 7] :=
  ⟨by simp, rfl, closes_for_good beforeClosing .nil (by simp)⟩

end TimedMailbox

end Actors
