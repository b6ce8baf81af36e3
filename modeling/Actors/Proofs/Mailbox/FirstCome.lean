import Mathlib.Data.List.Nodup
import Actors.Proofs.Mailbox.Conservation
import Actors.Proofs.Mailbox.Stamps

/-!
# First Come, First Served

Which message a receiver gets, and which receiver gets a message. A message is
served in one of two ways: a receiver that arrives searches the buffer, or a
message that arrives is handed to a receiver that waits. In the first case it
is the oldest one the receiver accepts, since the buffer is in the order of
sending. In the second the message is the newest there is, and nothing in the
buffer would have done, since nobody waits for what is buffered. So the two
ways give one order.

All this holds as long as nobody gives a message back. A message that comes
back was once served, and may overtake others.

## Main definitions

* `TimedMailbox.Serves`: In a step, a receiver with this test gets this message.
* `TimedMailbox.Settled`: A message was served, or discarded by a closing.
* `TimedMailbox.Keeps`: Nobody gives a message back.
* `TimedMailbox.FirstCome`: The order in which messages and receivers meet.

## Theorems

* `messages_step_sublist`: The buffer keeps the order of sending.
* `buffered_step`: A message stays in the buffer, or is served, or discarded.
* `sent_run`: What was sent is in the buffer unless it is settled.
* `keeps_iff`: Whether somebody gives a message back can be computed.
* `older_rejected`: What is older in the buffer than a served message was turned down.
* `arrivals_lt`: A receiver that arrives later has a larger number.
* `first_come_run`: The law.
-/

namespace Actors

variable {μ : Type}

/-- In a list that is sorted by a key, what has a smaller key stands before. -/
theorem mem_left_of_lt {α : Type} {key : α → Nat} {before after : List α} {x y : α}
    (hsorted : (before ++ x :: after).Pairwise fun a b => key a < key b)
    (hy : y ∈ before ++ x :: after) (hlt : key y < key x) : y ∈ before := by
  rw [List.pairwise_append, List.pairwise_cons] at hsorted
  rcases List.mem_append.mp hy with hbefore | hrest
  · exact hbefore
  · rcases List.mem_cons.mp hrest with rfl | hafter
    · exact absurd hlt (Nat.lt_irrefl _)
    · have hgt := hsorted.2.1.1 y hafter
      exact absurd hlt (Nat.lt_asymm hgt)

namespace Mailbox

/-- A closed mailbox has nothing to give and nobody to give it to. -/
def Emptied (b : Mailbox μ) : Prop := b.closed ≠ none → b.messages = [] ∧ b.consumers = []

/-- A closed mailbox stays empty while nothing is put into it. -/
theorem Emptied.mono {b b' : Mailbox μ} (h : b.Emptied) (hclosed : b'.closed = b.closed)
    (hm : b.closed ≠ none → b.messages = [] → b'.messages = [])
    (hc : b'.consumers.Sublist b.consumers) : b'.Emptied := by
  intro hshut
  rw [hclosed] at hshut
  rcases h hshut with ⟨hmessages, hconsumers⟩
  rw [hconsumers] at hc
  exact ⟨hm hshut hmessages, List.sublist_nil.mp hc⟩

/-- A message that comes too late is dropped. -/
theorem emptied_deliver {b : Mailbox μ} (h : b.Emptied) (m : μ) (buffer : List μ → List μ) :
    (b.deliver m buffer).Emptied := by
  refine h.mono (closed_deliver b m buffer) (fun hshut hmessages => ?_)
    (consumers_deliver_sublist b m buffer)
  have hclosed : b.isClosed = true := Option.isSome_iff_ne_none.mpr hshut
  rw [deliver, if_pos hclosed]
  exact hmessages

/-- Who comes too late is refused. -/
theorem emptied_pop {b : Mailbox μ} (h : b.Emptied) (test : Matcher μ) :
    (b.pop test).2.Emptied := by
  rcases pop_cases b test with ⟨reason, -, hp⟩ | ⟨hopen, m, others, -, hp⟩ | ⟨-, text, -, hp⟩ |
    ⟨hopen, -, hp⟩ <;> rw [hp]
  · exact h
  · exact fun hshut => absurd hopen hshut
  · exact h
  · exact fun hshut => absurd hopen hshut

/-- A receiver that looks takes nothing from the buffer. -/
theorem emptied_poll {b : Mailbox μ} (h : b.Emptied) (id : Nat) (expired : Bool) :
    (b.poll id expired).2.Emptied := by
  refine h.mono (closed_poll b id expired) (fun _ hmessages => ?_)
    (poll_consumers_sublist b id expired)
  rcases poll_cases b id expired with ⟨r, -, hp⟩ | ⟨-, hp⟩ | ⟨-, hp⟩ <;> rw [hp] <;> exact hmessages

/-- What is handed back to a closed mailbox is dropped as well. -/
theorem emptied_cancel {b : Mailbox μ} (h : b.Emptied) (id : Nat) : (b.cancel id).Emptied := by
  rcases cancel_cases b id with ⟨-, hc⟩ | ⟨m, -, hc⟩ | ⟨reason, -, hc⟩ <;> rw [hc]
  · exact h.mono rfl (fun _ hmessages => hmessages) (withdraw_consumers_sublist b id)
  · exact emptied_deliver (b := b.observe id) h m _
  · exact h

/-- An attempt that does not wait finds nothing. -/
theorem emptied_tryPop {b : Mailbox μ} (h : b.Emptied) (test : Matcher μ) :
    (b.tryPop test).2.Emptied := by
  rcases tryPop_cases b test with ⟨m, others, hscan, hp⟩ | hp | ⟨text, hp⟩ <;> rw [hp]
  · refine h.mono rfl (fun _ hmessages => ?_) (List.Sublist.refl _)
    rw [hmessages] at hscan
    exact absurd hscan (by simp [scan])
  · exact h
  · exact h

end Mailbox

namespace TimedMailbox

open Mailbox

/-- Whatever happens, a closed mailbox has nothing to give. -/
theorem emptied_run {s : TimedMailbox μ} (h : s.box.Emptied) (ops : List (MailboxOp μ)) :
    (s.run ops).2.box.Emptied := by
  induction ops generalizing s with
  | nil => exact h
  | cons op rest ih =>
      refine ih (box_step Emptied (fun _ m h => emptied_deliver h m _) (fun _ _ _ _ => ⟨rfl, rfl⟩)
        (fun _ test h => emptied_pop h test) (fun _ id e h => emptied_poll h id e)
        (fun _ id h => emptied_cancel h id) (fun _ test h => emptied_tryPop h test) s op h)

/-! ## The buffer -/

/-- Nobody gives a message back: a receiver that gives up has got none. -/
def Keeps (s : TimedMailbox μ) (ops : List (MailboxOp μ)) : Prop :=
  ∀ before name after m, ops = before ++ .drop name :: after → ¬ (s.run before).2.Holds name m

/-- Nobody gives a message back in the first operation. -/
theorem Keeps.head {s : TimedMailbox μ} {op : MailboxOp μ} {rest : List (MailboxOp μ)}
    (h : s.Keeps (op :: rest)) : s.regains op = [] := by
  refine List.eq_nil_iff_forall_not_mem.mpr fun m hm => ?_
  rcases holds_of_mem_regains hm with ⟨name, rfl, hholds⟩
  exact h [] name rest m rfl hholds

/-- Nor in the others. -/
theorem Keeps.tail {s : TimedMailbox μ} {op : MailboxOp μ} {rest : List (MailboxOp μ)}
    (h : s.Keeps (op :: rest)) : (s.step op).2.Keeps rest := by
  intro before name after m hsplit
  exact h (op :: before) name after m (by rw [hsplit]; rfl)

/-- Whether somebody gives a message back can be read off the history. -/
theorem keeps_iff {s : TimedMailbox μ} (hn : s.box.Numbered) {ops : List (MailboxOp μ)} :
    s.Keeps ops ↔ s.collect regains ops = [] := by
  induction ops generalizing s with
  | nil =>
      refine iff_of_true (fun before name after m h => ?_) rfl
      exact absurd h (by simp)
  | cons op rest ih =>
      rw [collect, List.append_eq_nil_iff, ← ih (numbered_step hn op)]
      refine ⟨fun h => ⟨h.head, h.tail⟩, fun h => ?_⟩
      rintro before name after m hsplit hholds
      -- The receiver that gives a message back does it first, or among the others.
      cases before with
      | nil =>
          rw [List.nil_append, List.cons.injEq] at hsplit
          rcases hholds with ⟨p, hp, hm⟩
          have hp' : s.pops.get? name = some p := hp
          have hgives := h.1
          rw [hsplit.1] at hgives
          simp only [regains, hp', lookup_of_mem_resolved hn hm, Option.bind_some,
            Resolution.message?] at hgives
          exact absurd hgives (by simp)
      | cons op' before' =>
          rw [List.cons_append, List.cons.injEq] at hsplit
          rw [← hsplit.1] at hholds
          exact h.2 before' name after m hsplit.2 hholds

/-- To look changes nothing in the buffer. -/
theorem messages_pollPending (s : TimedMailbox μ) (name : String) (p : PendingPop) :
    (s.pollPending name p).2.box.messages = s.box.messages := by
  rcases pollPending_cases s name p with ⟨r, -, hp⟩ | ⟨-, hp⟩ | ⟨-, hp⟩ <;> rw [hp] <;> rfl

/-- A receiver that has nothing to give back leaves the buffer as it is. -/
theorem messages_drop {s : TimedMailbox μ} {name : String} (h : s.regains (.drop name) = []) :
    (s.step (.drop name)).2.box.messages = s.box.messages := by
  rw [regains] at h
  rw [step]
  rcases hp : s.pops.get? name with _ | p
  · rfl
  · rw [hp] at h
    rcases cancel_cases s.box p.id with ⟨-, hc⟩ | ⟨m, hr, -⟩ | ⟨reason, -, hc⟩
    · simp only [hc]
      rfl
    · simp only [hr, Option.bind_some, Resolution.message?] at h
      exact absurd h (by simp)
    · simp only [hc]
      rfl

/-- A step in which nothing comes back may take a message out of the buffer and may add the one that
    was sent, at the end. -/
theorem messages_step_sublist {s : TimedMailbox μ} {op : MailboxOp μ} (h : s.regains op = []) :
    (s.step op).2.box.messages.Sublist (s.box.messages ++ op.sends) := by
  cases op with
  | push m =>
      rcases deliver_cases s.box m (· ++ [m]) with ⟨reason, -, hd⟩ |
        ⟨-, before, c, after, -, -, -, hd⟩ | ⟨-, -, hd⟩ <;> rw [step, push, hd]
      · exact List.sublist_append_left _ _
      · exact List.sublist_append_left _ _
      · exact List.Sublist.refl _
  | clear reason => exact List.nil_sublist _
  | advance ms => exact List.sublist_append_left _ _
  | pop name test timeout =>
      rcases pop_cases s.box test with ⟨reason, -, hp⟩ | ⟨-, m, others, hscan, hp⟩ |
        ⟨-, text, -, hp⟩ | ⟨-, -, hp⟩ <;>
        simp only [step, hp, MailboxOp.sends, List.append_nil, messages_pollPending]
      · exact List.Sublist.refl _
      · exact scan_sublist hscan
      · exact List.Sublist.refl _
      · exact List.Sublist.refl _
  | poll name =>
      simp only [step, MailboxOp.sends, List.append_nil]
      split
      next => exact List.Sublist.refl _
      next p _ => exact (messages_pollPending s name p) ▸ List.Sublist.refl _
  | drop name =>
      rw [messages_drop h]
      exact List.sublist_append_left _ _
  | tryPop test =>
      rcases tryPop_cases s.box test with ⟨m, others, hscan, hp⟩ | hp | ⟨text, hp⟩ <;>
        simp only [step, hp, MailboxOp.sends, List.append_nil]
      · exact scan_sublist hscan
      · exact List.Sublist.refl _
      · exact List.Sublist.refl _

/-- So the buffer holds some of what was sent, in the order in which it was sent. -/
theorem messages_run_sublist {s : TimedMailbox μ} {ops : List (MailboxOp μ)} (h : s.Keeps ops) :
    (s.run ops).2.box.messages.Sublist (s.box.messages ++ ops.flatMap MailboxOp.sends) := by
  induction ops generalizing s with
  | nil => exact List.sublist_append_left _ _
  | cons op rest ih =>
      have hstep := (messages_step_sublist h.head).append_right (rest.flatMap MailboxOp.sends)
      rw [List.append_assoc] at hstep
      exact (ih h.tail).trans hstep

/-! ## What is served -/

/-- In a step, a receiver with this test gets this message: one that waited is
    given it, or one that arrives takes it from the buffer, to wait or not. -/
inductive Serves (s : TimedMailbox μ) : MailboxOp μ → Matcher μ → μ → Prop where
  | handed {op : MailboxOp μ} {c : Consumer μ} {m : μ} : c ∈ s.box.consumers →
      (c.id, .message m) ∈ (s.step op).2.box.resolved → Serves s op c.matcher m
  | taken {name : String} {test : Matcher μ} {timeout : Option Nat} {m : μ} :
      (s.step (.pop name test timeout)).1 = .result (.ok m) →
      Serves s (.pop name test timeout) test m
  | found {test : Matcher μ} {m : μ} :
      (s.step (.tryPop test)).1 = .found (some m) → Serves s (.tryPop test) test m

/-- A receiver that has just joined has no answer yet, so one that has a message
    at once found it in the buffer. -/
theorem scan_of_taken {s : TimedMailbox μ} (hn : s.box.Numbered) {name : String} {test : Matcher μ}
    {timeout : Option Nat} {m : μ} (h : (s.step (.pop name test timeout)).1 = .result (.ok m)) :
    s.box.closed = none ∧ ∃ others, scan test s.box.messages = .message m others := by
  rcases pop_cases s.box test with ⟨reason, -, hp⟩ | ⟨hopen, m', others, hscan, hp⟩ |
    ⟨-, text, -, hp⟩ | ⟨-, -, hp⟩ <;> simp only [step, hp] at h
  · exact absurd h (by simp)
  · rw [MailboxAnswer.result.injEq, Except.ok.injEq] at h
    exact ⟨hopen, others, h ▸ hscan⟩
  · exact absurd h (by simp)
  · have hr := pollPending_answer h
    -- The number is new, and no answer lies ready for it.
    have hmem := List.mem_map_of_mem (f := Prod.fst) (mem_resolved_of_lookup hr)
    exact absurd (hn.below _ (List.mem_append_right _ hmem)) (Nat.lt_irrefl s.box.nextId)

/-- What was found by somebody who did not wait was found by the search. -/
theorem scan_of_found {s : TimedMailbox μ} {test : Matcher μ} {m : μ}
    (h : (s.step (.tryPop test)).1 = .found (some m)) :
    ∃ others, scan test s.box.messages = .message m others := by
  rcases tryPop_cases s.box test with ⟨m', others, hscan, hp⟩ | hp | ⟨text, hp⟩ <;>
    simp only [step, hp] at h
  · rw [MailboxAnswer.found.injEq, Option.some.injEq] at h
    exact ⟨others, h ▸ hscan⟩
  · exact absurd h (by simp)
  · exact absurd h (by simp)

/-- A mailbox that serves is open. -/
theorem open_of_serves {s : TimedMailbox μ} (hn : s.box.Numbered) (he : s.box.Emptied)
    {op : MailboxOp μ} {test : Matcher μ} {m : μ} (h : s.Serves op test m) :
    s.box.closed = none := by
  -- In a closed mailbox nobody waits and nothing is buffered, so none of the three ways to be
  -- served is left.
  refine Classical.byContradiction fun hshut => ?_
  rcases he hshut with ⟨hmessages, hconsumers⟩
  cases h with
  | handed hc hm =>
      rw [hconsumers] at hc
      exact absurd hc List.not_mem_nil
  | taken h => exact hshut (scan_of_taken hn h).1
  | found h =>
      rcases scan_of_found h with ⟨others, hscan⟩
      rw [hmessages] at hscan
      exact absurd hscan (by simp [scan])

/-- What stands in the buffer before a message that is served was turned down. -/
theorem older_rejected {s : TimedMailbox (Nat × μ)} (hu : s.box.Unmatched) (hn : s.box.Numbered)
    (hsorted : s.box.messages.Pairwise fun x y => x.1 < y.1) {op : MailboxOp (Nat × μ)}
    {test : Matcher (Nat × μ)} {m₁ m₂ : Nat × μ} (h : s.Serves op test m₂)
    (hm : m₁ ∈ s.box.messages) (hlt : m₁.1 < m₂.1) : (test m₁).accepts = false := by
  -- Where the message comes from a search of the buffer, the search went past the older one.
  have hscan : ∀ others, scan test s.box.messages = .message m₂ others →
      (test m₁).accepts = false := by
    intro others hscan
    rcases scan_eq_message_iff.mp hscan with ⟨before, after, hsplit, hrejected, -, -⟩
    rw [hsplit] at hm hsorted
    have hbefore : m₁ ∈ before := mem_left_of_lt hsorted hm hlt
    rw [hrejected m₁ hbefore]
    rfl
  cases h with
  -- Where it is handed to somebody who waits, he turned the older one down when he came, or when it
  -- came.
  | handed hc _ => exact hu m₁ hm _ hc
  | taken h =>
      rcases scan_of_taken hn h with ⟨-, others, hscan'⟩
      exact hscan others hscan'
  | found h =>
      rcases scan_of_found h with ⟨others, hscan'⟩
      exact hscan others hscan'

/-! ## What becomes of a message -/

/-- What a search leaves in the buffer is all but the message it finds. -/
theorem mem_others_of_scan {test : Matcher μ} {ms others : List μ} {m x : μ}
    (h : scan test ms = .message m others) (hx : x ∈ ms) : x ∈ others ∨ x = m := by
  rcases scan_eq_message_iff.mp h with ⟨before, after, rfl, -, -, rfl⟩
  rw [List.mem_append, List.mem_cons] at hx
  rw [List.mem_append]
  rcases hx with hx | hx | hx
  · exact Or.inl (Or.inl hx)
  · exact Or.inr hx
  · exact Or.inl (Or.inr hx)

/-- A buffered message stays, or is served, or goes down when the mailbox is cleared. There is no
    fourth way. -/
theorem buffered_step {s : TimedMailbox μ} {op : MailboxOp μ} (h : s.regains op = []) {m : μ}
    (hm : m ∈ s.box.messages) : m ∈ (s.step op).2.box.messages ∨
      (∃ test, s.Serves op test m) ∨ ∃ reason, op = .clear reason := by
  cases op with
  | push m' =>
      rcases deliver_cases s.box m' (· ++ [m']) with ⟨reason, -, hd⟩ |
        ⟨-, before, c, after, -, -, -, hd⟩ | ⟨-, -, hd⟩ <;> rw [step, push, hd]
      · exact Or.inl hm
      · exact Or.inl hm
      · exact Or.inl (List.mem_append_left _ hm)
  | clear reason => exact Or.inr (Or.inr ⟨reason, rfl⟩)
  | advance ms => exact Or.inl hm
  | pop name test timeout =>
      rcases pop_cases s.box test with ⟨reason, -, hp⟩ | ⟨-, m', others, hscan, hp⟩ |
        ⟨-, text, -, hp⟩ | ⟨-, -, hp⟩
      · simp only [step, hp]
        exact Or.inl hm
      · rcases mem_others_of_scan hscan hm with hstays | rfl
        · simp only [step, hp]
          exact Or.inl hstays
        · refine Or.inr (Or.inl ⟨test, Serves.taken ?_⟩)
          simp only [step, hp]
      · simp only [step, hp]
        exact Or.inl hm
      · simp only [step, hp, messages_pollPending]
        exact Or.inl hm
  | poll name =>
      refine Or.inl ?_
      rw [step]
      split
      next => exact hm
      next p _ => rwa [messages_pollPending]
  | drop name => exact Or.inl (by rwa [messages_drop h])
  | tryPop test =>
      rcases tryPop_cases s.box test with ⟨m', others, hscan, hp⟩ | hp | ⟨text, hp⟩
      · rcases mem_others_of_scan hscan hm with hstays | rfl
        · simp only [step, hp]
          exact Or.inl hstays
        · refine Or.inr (Or.inl ⟨test, Serves.found ?_⟩)
          simp only [step, hp]
      · simp only [step, hp]
        exact Or.inl hm
      · simp only [step, hp]
        exact Or.inl hm

/-- A message sent to an open mailbox is buffered or served. -/
theorem sent_step {s : TimedMailbox μ} (hopen : s.box.closed = none) (m : μ) :
    m ∈ (s.step (.push m)).2.box.messages ∨ ∃ test, s.Serves (.push m) test m := by
  rcases deliver_cases s.box m (· ++ [m]) with ⟨reason, hshut, -⟩ |
    ⟨-, before, c, after, hsplit, -, -, hd⟩ | ⟨-, -, hd⟩
  · rw [hopen] at hshut
    exact absurd hshut (by simp)
  · refine Or.inr ⟨c.matcher, Serves.handed ?_ ?_⟩
    · rw [hsplit]
      exact List.mem_append_right _ List.mem_cons_self
    · rw [step, push, hd]
      exact List.mem_append_right _ List.mem_cons_self
  · rw [step, push, hd]
    exact Or.inl (List.mem_append_right _ List.mem_cons_self)

/-- In some step of a history a message was served, or it was buffered when the
    mailbox was closed. -/
def Settled (s : TimedMailbox μ) (ops : List (MailboxOp μ)) (m : μ) : Prop :=
  ∃ before op after, ops = before ++ op :: after ∧
    ((∃ test, (s.run before).2.Serves op test m) ∨
      ∃ reason, op = .clear reason ∧ m ∈ (s.run before).2.box.messages)

/-- What is settled later is settled. -/
theorem Settled.cons {s : TimedMailbox μ} {op : MailboxOp μ} {rest : List (MailboxOp μ)} {m : μ}
    (h : (s.step op).2.Settled rest m) : s.Settled (op :: rest) m := by
  rcases h with ⟨before, op', after, rfl, hwhen⟩
  exact ⟨op :: before, op', after, rfl, hwhen⟩

/-- Over a history a buffered message stays or is settled. -/
theorem buffered_run {s : TimedMailbox μ} {ops : List (MailboxOp μ)} (h : s.Keeps ops) {m : μ}
    (hm : m ∈ s.box.messages) : m ∈ (s.run ops).2.box.messages ∨ s.Settled ops m := by
  induction ops generalizing s with
  | nil => exact Or.inl hm
  | cons op rest ih =>
      rcases buffered_step h.head hm with hstays | hserved | ⟨reason, hclear⟩
      · exact (ih h.tail hstays).imp id Settled.cons
      · exact Or.inr ⟨[], op, rest, rfl, Or.inl hserved⟩
      · exact Or.inr ⟨[], op, rest, rfl, Or.inr ⟨reason, hclear, hm⟩⟩

/-- A mailbox that is open in the end was open all along, as nothing opens it. -/
theorem open_of_run {s : TimedMailbox μ} {ops : List (MailboxOp μ)}
    (h : (s.run ops).2.box.closed = none) : s.box.closed = none := by
  induction ops generalizing s with
  | nil => exact h
  | cons op rest ih =>
      have hnext : (s.step op).2.box.closed = none := ih h
      rcases closed_step s op with ⟨reason, rfl⟩ | hsame
      · exact absurd hnext (by simp [step, clear])
      · rwa [hsame] at hnext

/-- What was sent to a mailbox that is still open is buffered or settled. -/
theorem sent_run {s : TimedMailbox μ} {ops : List (MailboxOp μ)} (h : s.Keeps ops)
    (hopen : (s.run ops).2.box.closed = none) {m : μ} (hm : m ∈ ops.flatMap MailboxOp.sends) :
    m ∈ (s.run ops).2.box.messages ∨ s.Settled ops m := by
  induction ops generalizing s with
  | nil => exact absurd hm List.not_mem_nil
  | cons op rest ih =>
      rw [List.flatMap_cons, List.mem_append] at hm
      rcases hm with hnow | hlater
      · cases op with
        | push m' =>
            rw [List.mem_singleton.mp hnow]
            have hthen : s.box.closed = none := open_of_run hopen
            rcases sent_step hthen m' with hstays | hserved
            · exact (buffered_run h.tail hstays).imp id Settled.cons
            · exact Or.inr ⟨[], _, rest, rfl, Or.inl hserved⟩
        | _ => exact absurd hnow List.not_mem_nil
      · exact (ih h.tail hopen hlater).imp id Settled.cons

/-! ## The receivers -/

/-- The counter never goes back. -/
theorem nextId_le_step (s : TimedMailbox μ) (op : MailboxOp μ) :
    s.box.nextId ≤ (s.step op).2.box.nextId := by
  refine box_step (fun b => s.box.nextId ≤ b.nextId) (fun b m h => ?_) (fun _ _ h => h)
    (fun b test h => Nat.le_trans h (nextId_le_pop b test)) (fun b id e h => ?_) (fun b id h => ?_)
    (fun b test h => ?_) s op (Nat.le_refl _)
  · rwa [push, nextId_deliver]
  · rwa [nextId_poll]
  · rwa [nextId_cancel]
  · rwa [nextId_tryPop]

/-- A receiver that joins has the next number, which is given out then. -/
theorem arrival_cases (s : TimedMailbox μ) (op : MailboxOp μ) :
    s.box.arrival op = [] ∨ ∃ c, s.box.arrival op = [c] ∧ c.id = s.box.nextId ∧
      s.box.nextId < (s.step op).2.box.nextId := by
  cases op with
  | pop name test timeout =>
      rcases pop_cases s.box test with ⟨reason, -, hp⟩ | ⟨-, m, others, -, hp⟩ | ⟨-, text, -, hp⟩ |
        ⟨-, -, hp⟩
      · exact Or.inl (by rw [arrival, hp])
      · exact Or.inl (by rw [arrival, hp])
      · exact Or.inl (by rw [arrival, hp])
      · refine Or.inr ⟨⟨s.box.nextId, test⟩, by rw [arrival, hp], rfl, ?_⟩
        simp only [step, hp]
        rcases pollPending_cases _ name _ with ⟨r, -, hq⟩ | ⟨-, hq⟩ | ⟨-, hq⟩ <;> rw [hq] <;>
          exact Nat.lt_succ_self _
  | _ => exact Or.inl rfl

/-- Who comes later has the larger number. -/
theorem arrivals_lt (s : TimedMailbox μ) (ops : List (MailboxOp μ)) :
    (s.arrivals ops).Pairwise (fun c c' => c.id < c'.id) ∧
      ∀ c ∈ s.arrivals ops, s.box.nextId ≤ c.id := by
  induction ops generalizing s with
  | nil => exact ⟨List.Pairwise.nil, fun c hc => absurd hc List.not_mem_nil⟩
  | cons op rest ih =>
      rcases ih (s.step op).2 with ⟨hrest, hlarge⟩
      rw [arrivals]
      rcases arrival_cases s op with hnone | ⟨c, hc, hid, hnext⟩
      · rw [hnone, List.nil_append]
        exact ⟨hrest, fun c' hc' => Nat.le_trans (nextId_le_step s op) (hlarge c' hc')⟩
      · rw [hc, List.singleton_append, List.pairwise_cons, List.forall_mem_cons]
        refine ⟨⟨fun c' hc' => ?_, hrest⟩, Nat.le_of_eq hid.symm, fun c' hc' => ?_⟩
        · have hlater := hlarge c' hc'
          omega
        · have hlater := hlarge c' hc'
          omega

/-- Who is handed a message that arrives stands first among those who want it. -/
theorem first_of_handed {s : TimedMailbox μ} (hn : s.box.Numbered) {m m' : μ} {c : Consumer μ}
    (hc : c ∈ s.box.consumers)
    (hm : (c.id, .message m') ∈ (s.step (.push m)).2.box.resolved) :
    ∃ before after, s.box.consumers = before ++ c :: after ∧
      ∀ c' ∈ before, (c'.matcher m).accepts = false := by
  have hapart := hn.apart
  rw [numbers, List.nodup_append] at hapart
  have hid : c.id ∈ s.box.consumers.map Consumer.id := List.mem_map_of_mem hc
  -- A receiver that waits has no answer before this step.
  have hnew : (c.id, Resolution.message m') ∉ s.box.resolved := fun hold =>
    hapart.2.2 c.id hid c.id (List.mem_map_of_mem (f := Prod.fst) hold) rfl
  rcases deliver_cases s.box m (· ++ [m]) with ⟨reason, -, hd⟩ |
    ⟨-, before, c₀, after, hsplit, hbefore, -, hd⟩ | ⟨-, -, hd⟩ <;> rw [step, push, hd] at hm
  · exact absurd hm hnew
  · rcases List.mem_append.mp hm with hold | hlast
    · exact absurd hold hnew
    · rw [List.mem_singleton, Prod.mk.injEq] at hlast
      have hc₀ : c₀ ∈ s.box.consumers := by
        rw [hsplit]
        exact List.mem_append_right _ List.mem_cons_self
      have heq : c = c₀ := List.inj_on_of_nodup_map hapart.1 hc hc₀ hlast.1
      exact ⟨before, after, heq ▸ hsplit, hbefore⟩
  · exact absurd hm hnew

/-! ## The law -/

/-- Of two that stand in a row, the first is not the last of all. -/
theorem mem_of_pair_sublist {α : Type} {x y : α} {xs ys : List α}
    (h : [x, y].Sublist (xs ++ ys)) (hlast : ys.length ≤ 1) : x ∈ xs := by
  rcases List.sublist_append_iff.mp h with ⟨l₁, l₂, hsplit, hl₁, hl₂⟩
  cases l₁ with
  | nil =>
      have hlength := hl₂.length_le
      rw [← show [x, y] = l₂ from hsplit, List.length_cons, List.length_singleton] at hlength
      omega
  | cons a rest =>
      rw [List.cons_append, List.cons.injEq] at hsplit
      exact hl₁.subset (hsplit.1 ▸ List.mem_cons_self)

/-- In which order messages are served, and receivers get them. -/
structure FirstCome (ops : List (MailboxOp μ)) : Prop where
  /-- The buffer is in the order of sending. -/
  buffered : ((empty : TimedMailbox μ).run ops).2.box.messages.Sublist
    (ops.flatMap MailboxOp.sends)
  /-- It makes no difference to number the messages, -/
  numbered : (empty.run ops).1 =
      (empty.run (stamped 0 ops)).1.map (MailboxAnswer.map Prod.snd) ∧
    Reads Prod.snd (empty.run (stamped 0 ops)).2 (empty.run ops).2
  /-- and the numbered ones show that where a receiver gets a message, every
      message sent before it that the receiver accepts is settled already. -/
  oldest : ∀ before op after test m₁ m₂, stamped 0 ops = before ++ op :: after →
    ((empty : TimedMailbox (Nat × μ)).run before).2.Serves op test m₂ →
    [m₁, m₂].Sublist ((before ++ [op]).flatMap MailboxOp.sends) → (test m₁).accepts = true →
    empty.Settled before m₁
  /-- Where a message that arrives is handed over, no receiver that came earlier
      and still waits accepts it. -/
  longest : ∀ before m after c c', ops = before ++ .push m :: after →
    c ∈ ((empty : TimedMailbox μ).run before).2.box.consumers →
    (c.id, .message m) ∈ ((empty.run before).2.step (.push m)).2.box.resolved →
    [c', c].Sublist (empty.arrivals before) → c' ∈ (empty.run before).2.box.consumers →
    (c'.matcher m).accepts = false

/-- What lies ready for a receiver among numbered messages does so without the numbers. -/
theorem Reads.holds {s' : TimedMailbox (Nat × μ)} {s : TimedMailbox μ} (h : Reads Prod.snd s' s)
    {name : String} {m : Nat × μ} (hm : s'.Holds name m) : s.Holds name m.2 := by
  rcases hm with ⟨p, hp, hmem⟩
  refine ⟨p, h.pops ▸ hp, ?_⟩
  rw [h.box.resolved]
  exact List.mem_map_of_mem (f := Prod.map id (Resolution.map Prod.snd)) hmem

/-- Numbering the messages makes nobody give one back. -/
theorem keeps_stamped {ops : List (MailboxOp μ)} (h : (empty : TimedMailbox μ).Keeps ops) :
    empty.Keeps (stamped 0 ops) := by
  intro before' name after' m hsplit hholds
  rcases stamped_split hsplit with ⟨before, op, after, k, rfl, rfl, hop, -⟩
  have hdrop : op = .drop name := by
    cases op with
    | drop name' => rw [← MailboxOp.drop.inj hop]
    | _ => exact absurd hop (by simp [MailboxOp.stamp])
  rw [hdrop] at h
  exact h before name after m.2 rfl ((reads_run reads_empty before 0).2.holds hholds)

/-- The law of a mailbox to which nobody gives a message back. -/
theorem first_come_run {ops : List (MailboxOp μ)} (h : (empty : TimedMailbox μ).Keeps ops) :
    FirstCome ops := by
  refine ⟨?_, reads_run reads_empty ops 0, ?_, ?_⟩
  · exact messages_run_sublist h
  · intro before op after test m₁ m₂ hsplit hserves hpair haccepts
    have hkeeps : (empty : TimedMailbox (Nat × μ)).Keeps before := by
      intro before' name after' m hbefore
      refine keeps_stamped h before' name (after' ++ op :: after) m ?_
      rw [hsplit, hbefore, List.append_assoc]
      rfl
    have hn := numbered_run (s := (empty : TimedMailbox (Nat × μ))) accounted_empty.numbered before
    have hopen := open_of_serves hn (emptied_run (fun hshut => absurd rfl hshut) before) hserves
    have hsends : ((before ++ [op]).flatMap MailboxOp.sends).Pairwise fun x y => x.1 < y.1 := by
      have hall := (sends_stamped_lt 0 ops).1
      rw [hsplit, List.append_cons, List.flatMap_append] at hall
      exact (List.pairwise_append.mp hall).1
    have hsent : m₁ ∈ before.flatMap MailboxOp.sends := by
      rw [List.flatMap_append] at hpair
      refine mem_of_pair_sublist hpair ?_
      cases op <;> simp [MailboxOp.sends]
    rcases sent_run hkeeps hopen hsent with hbuffered | hsettled
    · have hu := unmatched_run (s := (empty : TimedMailbox (Nat × μ)))
        (fun _ hm => absurd hm List.not_mem_nil) before
      have hlt := List.rel_of_pairwise_cons (hsends.sublist hpair) List.mem_cons_self
      -- The buffer is in the order of sending, so in the order of the numbers.
      have hsorted : (empty.run before).2.box.messages.Pairwise fun x y => x.1 < y.1 := by
        rw [List.flatMap_append] at hsends
        exact (List.pairwise_append.mp hsends).1.sublist (messages_run_sublist hkeeps)
      have hrejected := older_rejected hu hn hsorted hserves hbuffered hlt
      rw [hrejected] at haccepts
      exact absurd haccepts (by simp)
    · exact hsettled
  · rintro before m after c c' rfl hc hm hpair hc'
    have hn := numbered_run (s := (empty : TimedMailbox μ)) accounted_empty.numbered before
    rcases first_of_handed hn hc hm with ⟨earlier, later, hsplit, hrejected⟩
    have harrivals := (arrivals_lt (empty : TimedMailbox μ) before).1
    -- Those who wait stand in the order of their numbers.
    have hsorted := harrivals.sublist (consumers_run_sublist empty before)
    rw [hsplit] at hsorted hc'
    refine hrejected c' (mem_left_of_lt hsorted hc' ?_)
    have hordered := harrivals.sublist hpair
    exact List.rel_of_pairwise_cons hordered List.mem_cons_self

/-- Two messages that are equal, two receivers that want the same, and one that
    leaves without a message. -/
def rush : List (MailboxOp Nat) :=
  [.push 1, .push 2, .push 1, .tryPop (fun m => .ofBool (m % 2 = 0)),
    .pop "large" (fun m => .ofBool (5 ≤ m)) none, .pop "shy" (fun _ => .panic "no") (some 3),
    .pop "later" (fun m => .ofBool (5 ≤ m)) none, .push 7, .pop "any" (fun _ => .accept) none,
    .push 9, .drop "shy", .poll "large", .poll "later"]

/-- The one receiver that gives up has got nothing, so there is nothing to give back. -/
theorem first_come_rush : (empty : TimedMailbox Nat).Keeps rush ∧ FirstCome rush := by
  have hkeeps : (empty : TimedMailbox Nat).Keeps rush :=
    (keeps_iff accounted_empty.numbered).mpr (by decide)
  exact ⟨hkeeps, first_come_run hkeeps⟩

end TimedMailbox

end Actors
