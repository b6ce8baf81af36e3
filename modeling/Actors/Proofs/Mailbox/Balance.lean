import Actors.Proofs.Dict
import Actors.Proofs.Mailbox.Matching

/-!
# What Goes In and What Comes Out

What is counted is the messages that a mailbox holds: those that are buffered,
and those that lie ready for a receiver that has not looked yet. Each step
takes messages in, gives messages out and discards some, and the held ones
change by just that much.

The one place where this could go wrong is a receiver with two answers, since
it would see only the first. `Numbered` says that there is no such receiver: a
number stands for one receiver, which waits or has one answer.

## Main definitions

* `Mailbox.held`: The messages that are buffered or lie ready.
* `Mailbox.Numbered`: No two receivers have one number.
* `TimedMailbox.takesIn`, `MailboxAnswer.messages`, `TimedMailbox.discards`:
  What a step takes in, gives out and discards.

## Theorems

* `held_deliver`, `held_clear`, `held_observe`, `held_scan`: What each change of
  a mailbox does to the messages it holds.
* `accounts_step`, `accounts_run`: The balance of one step and of a history.
-/

namespace Actors

variable {μ : Type}

/-- The message of an answer, if it has one. -/
def Resolution.message? : Resolution μ → Option μ
  | .message m => some m
  | .closed _ => none

/-- The message that an operation sends, whether or not the mailbox takes it in. -/
def MailboxOp.sends : MailboxOp μ → List μ
  | .push m => [m]
  | _ => []

/-- The messages that an answer hands over. -/
def MailboxAnswer.messages : MailboxAnswer μ → List μ
  | .result (.ok m) => [m]
  | .found (some m) => [m]
  | _ => []

namespace Mailbox

/-- The messages that lie ready for receivers. -/
def ready (b : Mailbox μ) : List μ := b.resolved.filterMap fun r => r.2.message?

/-- The messages that are buffered or lie ready. -/
def held (b : Mailbox μ) : List μ := b.messages ++ b.ready

/-- The numbers of the receivers that wait or have an answer. -/
def numbers (b : Mailbox μ) : List Nat :=
  b.consumers.map Consumer.id ++ b.resolved.map Prod.fst

/-- No two receivers have one number, and none has a number that was not given out. -/
structure Numbered (b : Mailbox μ) : Prop where
  apart : b.numbers.Nodup
  below : ∀ id ∈ b.numbers, id < b.nextId

/-! ## Numbers -/

/-- It does not matter where the numbers stand, among those who wait or among those with an
    answer. -/
theorem Numbered.of_perm {b b' : Mailbox μ} (h : b.Numbered) (hp : b'.numbers.Perm b.numbers)
    (hnext : b'.nextId = b.nextId) : b'.Numbered :=
  ⟨hp.nodup_iff.mpr h.apart, fun id hid => hnext ▸ h.below id (hp.mem_iff.mp hid)⟩

/-- Nor does it matter if some of them go. -/
theorem Numbered.of_sublist {b b' : Mailbox μ} (h : b.Numbered)
    (hs : b'.numbers.Sublist b.numbers) (hnext : b'.nextId = b.nextId) : b'.Numbered :=
  ⟨h.apart.sublist hs, fun id hid => hnext ▸ h.below id (hs.subset hid)⟩

/-- A message that arrives keeps the numbers together. -/
theorem numbers_deliver (b : Mailbox μ) (m : μ) (buffer : List μ → List μ) :
    (b.deliver m buffer).numbers.Perm b.numbers := by
  rcases deliver_cases b m buffer with ⟨reason, -, hd⟩ | ⟨-, before, c, after, hsplit, -, -, hd⟩ |
    ⟨-, -, hd⟩
  · rw [hd]
  · -- The number only moves from those who wait to those with an answer.
    rw [hd, numbers, numbers, hsplit]
    simp only [List.map_append, List.map_cons, List.map_nil, List.append_assoc, List.cons_append]
    refine List.Perm.append_left _ ?_
    have hlast := List.perm_append_singleton c.id
      (after.map Consumer.id ++ b.resolved.map Prod.fst)
    rwa [List.append_assoc] at hlast
  · rw [hd]
    exact List.Perm.refl _

/-- So they are still told apart. -/
theorem numbered_deliver {b : Mailbox μ} (h : b.Numbered) (m : μ) (buffer : List μ → List μ) :
    (b.deliver m buffer).Numbered :=
  h.of_perm (numbers_deliver b m buffer) (nextId_deliver b m buffer)

/-- Clearing moves everybody from those who wait to those with an answer. -/
theorem numbers_clear (b : Mailbox μ) (reason : Term) :
    (b.clear reason).numbers.Perm b.numbers := by
  simp only [numbers, clear, List.map_nil, List.nil_append, List.map_append, List.map_map]
  exact List.perm_append_comm

/-- Who withdraws takes a number away. -/
theorem numbers_withdraw (b : Mailbox μ) (id : Nat) :
    (b.withdraw id).numbers.Sublist b.numbers :=
  ((withdraw_consumers_sublist b id).map Consumer.id).append_right _

/-- So does who sees an answer. -/
theorem numbers_observe (b : Mailbox μ) (id : Nat) : (b.observe id).numbers.Sublist b.numbers :=
  (List.filter_sublist.map Prod.fst).append_left _

/-- The numbers that are left are still told apart when somebody stops waiting. -/
theorem numbered_withdraw {b : Mailbox μ} (h : b.Numbered) (id : Nat) : (b.withdraw id).Numbered :=
  h.of_sublist (numbers_withdraw b id) rfl

/-- They are when somebody has seen his answer. -/
theorem numbered_observe {b : Mailbox μ} (h : b.Numbered) (id : Nat) : (b.observe id).Numbered :=
  h.of_sublist (numbers_observe b id) rfl

/-- They are when somebody looks, as that ends in one of the two or in nothing. -/
theorem numbered_poll {b : Mailbox μ} (h : b.Numbered) (id : Nat) (expired : Bool) :
    (b.poll id expired).2.Numbered := by
  rcases poll_cases b id expired with ⟨r, -, hp⟩ | ⟨-, hp⟩ | ⟨-, hp⟩ <;> rw [hp]
  · exact numbered_observe h id
  · exact numbered_withdraw h id
  · exact h

/-- They are when somebody gives up and his message goes on. -/
theorem numbered_cancel {b : Mailbox μ} (h : b.Numbered) (id : Nat) : (b.cancel id).Numbered := by
  rcases cancel_cases b id with ⟨-, hc⟩ | ⟨m, -, hc⟩ | ⟨reason, -, hc⟩ <;> rw [hc]
  · exact numbered_withdraw h id
  · exact numbered_deliver (numbered_observe h id) m _
  · exact numbered_observe h id

/-- An attempt that does not wait has no number at all. -/
theorem numbered_tryPop {b : Mailbox μ} (h : b.Numbered) (test : Matcher μ) :
    (b.tryPop test).2.Numbered := by
  rcases tryPop_cases b test with ⟨m, others, -, hp⟩ | hp | ⟨text, hp⟩ <;> rw [hp]
  · exact h.of_perm (List.Perm.refl _) rfl
  · exact h
  · exact h

/-- Where a receiver joins, its number is the next one. -/
theorem numbers_arrive (b : Mailbox μ) (test : Matcher μ) :
    ({ b with consumers := b.consumers ++ [⟨b.nextId, test⟩], nextId := b.nextId + 1 } :
      Mailbox μ).numbers.Perm (b.nextId :: b.numbers) := by
  simp only [numbers, List.map_append, List.map_cons, List.map_nil, List.append_assoc,
    List.cons_append, List.nil_append]
  exact List.perm_middle

/-- A newcomer has a number nobody had. -/
theorem numbered_pop {b : Mailbox μ} (h : b.Numbered) (test : Matcher μ) :
    (b.pop test).2.Numbered := by
  rcases pop_cases b test with ⟨reason, -, hp⟩ | ⟨-, m, others, -, hp⟩ | ⟨-, text, -, hp⟩ |
    ⟨-, -, hp⟩ <;> rw [hp]
  · exact h
  · exact h.of_perm (List.Perm.refl _) rfl
  · exact h
  · have hp := numbers_arrive b test
    refine ⟨hp.nodup_iff.mpr (List.nodup_cons.mpr ⟨fun hmem => ?_, h.apart⟩), fun id hid => ?_⟩
    · -- The next number was not given out before.
      exact Nat.lt_irrefl _ (h.below _ hmem)
    · rcases List.mem_cons.mp (hp.mem_iff.mp hid) with rfl | hold
      · exact Nat.lt_succ_self _
      · exact Nat.lt_succ_of_lt (h.below id hold)

/-- Who had no answer and stops waiting is gone altogether. -/
theorem not_mem_numbers_withdraw {b : Mailbox μ} {id : Nat} (h : b.resolved.lookup id = none) :
    id ∉ (b.withdraw id).numbers := by
  intro hmem
  rcases List.mem_append.mp hmem with hwait | hanswer
  · rcases List.mem_map.mp hwait with ⟨c, hc, heq⟩
    have hne := (List.mem_filter.mp hc).2
    exact absurd heq (of_decide_eq_true hne)
  · rcases List.mem_map.mp hanswer with ⟨r, hr, heq⟩
    have hne := List.lookup_eq_none_iff.mp h r hr
    exact bne_iff_ne.mp hne heq.symm

/-- What a receiver finds is there. -/
theorem mem_resolved_of_lookup {b : Mailbox μ} {id : Nat} {r : Resolution μ}
    (h : b.resolved.lookup id = some r) : (id, r) ∈ b.resolved := by
  rcases List.lookup_eq_some_iff.mp h with ⟨before, after, hsplit, -⟩
  rw [hsplit]
  exact List.mem_append_right _ List.mem_cons_self

/-- A receiver that saw its answer is gone altogether, since it did not wait any more. -/
theorem not_mem_numbers_observe {b : Mailbox μ} (hb : b.Numbered) {id : Nat} {r : Resolution μ}
    (h : b.resolved.lookup id = some r) : id ∉ (b.observe id).numbers := by
  intro hmem
  have hanswer : id ∈ b.resolved.map Prod.fst :=
    List.mem_map.mpr ⟨(id, r), mem_resolved_of_lookup h, rfl⟩
  -- To stand among those who wait as well would be to have the number twice.
  rcases List.mem_append.mp hmem with hwait | hleft
  · have hapart := hb.apart
    rw [numbers, List.nodup_append] at hapart
    exact hapart.2.2 id hwait id hanswer rfl
  · rcases List.mem_map.mp hleft with ⟨x, hx, heq⟩
    have hne := (List.mem_filter.mp hx).2
    exact absurd heq (of_decide_eq_true hne)

/-! ## What is held -/

/-- A message that arrives is held from then on. -/
theorem held_deliver {b : Mailbox μ} (hopen : b.closed = none) (m : μ) {buffer : List μ → List μ}
    (hbuffer : ∀ ms, (buffer ms).Perm (m :: ms)) :
    (b.deliver m buffer).held.Perm (m :: b.held) := by
  rcases deliver_cases b m buffer with ⟨reason, hclosed, -⟩ |
    ⟨-, before, c, after, -, -, -, hd⟩ | ⟨-, -, hd⟩
  · rw [hopen] at hclosed
    exact absurd hclosed (by simp)
  · -- It goes to a receiver, for whom it lies ready now.
    have hready : (b.deliver m buffer).ready = b.ready ++ [m] := by
      rw [hd, ready, List.filterMap_append, ready]
      rfl
    rw [held, hready, held, ← List.append_assoc, hd]
    exact List.perm_append_singleton m _
  · rw [hd]
    exact (hbuffer b.messages).append_right _

/-- Clearing throws the buffer away. What lies ready stays, and the answers that are added carry no
    message. -/
theorem held_clear (b : Mailbox μ) (reason : Term) : (b.clear reason).held = b.ready := by
  have hnone : (b.consumers.map fun c =>
      (c.id, (Resolution.closed reason : Resolution μ))).filterMap
      (fun r => r.2.message?) = [] := by
    rw [List.filterMap_map, List.filterMap_eq_nil_iff]
    intro c _
    rfl
  rw [held, ready, clear, List.filterMap_append, hnone, List.append_nil]
  rfl

/-- The answer of a receiver stands once among all answers. -/
theorem perm_observe {rs : List (Nat × Resolution μ)} {id : Nat} {r : Resolution μ}
    (hnodup : (rs.map Prod.fst).Nodup) (h : rs.lookup id = some r) :
    rs.Perm ((id, r) :: rs.filter fun x => x.1 ≠ id) := by
  rcases List.lookup_eq_some_iff.mp h with ⟨before, after, rfl, hbefore⟩
  rw [List.map_append, List.map_cons, List.nodup_append, List.nodup_cons] at hnodup
  -- The answer is the first of its number, and by `hnodup` the last.
  have hleft : (before.filter fun x => x.1 ≠ id) = before := by
    refine List.filter_eq_self.mpr fun x hx => decide_eq_true ?_
    exact fun heq => bne_iff_ne.mp (hbefore x hx) heq.symm
  have hright : (after.filter fun x => x.1 ≠ id) = after :=
    Dict.filter_entries_of_not_mem hnodup.2.1.1
  rw [List.filter_append, List.filter_cons_of_neg (by simp), hleft, hright]
  exact List.perm_middle

/-- A receiver that sees its answer takes the message from the mailbox. -/
theorem held_observe {b : Mailbox μ} (hb : b.Numbered) {id : Nat} {r : Resolution μ}
    (h : b.resolved.lookup id = some r) :
    ((b.observe id).held ++ r.message?.toList).Perm b.held := by
  have hapart := hb.apart
  rw [numbers, List.nodup_append] at hapart
  have hready : (r.message?.toList ++ (b.observe id).ready).Perm b.ready := by
    have hp := (perm_observe hapart.2.1 h).filterMap fun r => r.2.message?
    refine List.Perm.trans ?_ hp.symm
    rw [List.filterMap_cons]
    -- An answer without a message takes nothing away.
    cases r with
    | message m => exact List.Perm.refl _
    | closed reason => exact List.Perm.refl _
  rw [held, held, List.append_assoc]
  exact (List.perm_append_comm.trans hready).append_left _

/-- A receiver that finds a message takes it out of the buffer. -/
theorem held_scan {b : Mailbox μ} {test : Matcher μ} {m : μ} {others : List μ}
    (h : scan test b.messages = .message m others) :
    (({ b with messages := others } : Mailbox μ).held ++ [m]).Perm b.held := by
  rcases scan_eq_message_iff.mp h with ⟨before, after, hsplit, -, -, rfl⟩
  have hmessages : b.messages.Perm (m :: (before ++ after)) := by
    rw [hsplit]
    exact List.perm_middle
  exact (List.perm_append_singleton m _).trans (hmessages.append_right b.ready).symm

end Mailbox

namespace TimedMailbox

open Mailbox

/-! ## The balance -/

/-- The message that an operation brings into the mailbox. A closed one takes none. -/
def takesIn (s : TimedMailbox μ) : MailboxOp μ → List μ
  | .push m => if s.box.isClosed then [] else [m]
  | _ => []

/-- The message that a receiver gives back when it gives up. -/
def regains (s : TimedMailbox μ) : MailboxOp μ → List μ
  | .drop name =>
      match s.pops.get? name with
      | none => []
      | some p => ((s.box.resolved.lookup p.id).bind Resolution.message?).toList
  | _ => []

/-- The messages that an operation discards: closing the mailbox empties the
    buffer, and a closed mailbox takes nothing back. -/
def discards (s : TimedMailbox μ) : MailboxOp μ → List μ
  | .clear _ => s.box.messages
  | .drop name => if s.box.isClosed then s.regains (.drop name) else []
  | _ => []

/-- What the operations of a history give, in order. -/
def collect {α : Type} (f : TimedMailbox μ → MailboxOp μ → List α) (s : TimedMailbox μ) :
    List (MailboxOp μ) → List α
  | [] => []
  | op :: rest => f s op ++ (s.step op).2.collect f rest

/-- A history in two parts. -/
theorem run_append (s : TimedMailbox μ) (ops ops' : List (MailboxOp μ)) :
    (s.run (ops ++ ops')).2 = ((s.run ops).2.run ops').2 := by
  induction ops generalizing s with
  | nil => rfl
  | cons op rest ih => exact ih (s.step op).2

/-- A receiver that looks is done if it sees an answer or its time is up, and
    waits on if not. -/
theorem pollPending_cases (s : TimedMailbox μ) (name : String) (p : PendingPop) :
    (∃ r, s.box.resolved.lookup p.id = some r ∧ s.pollPending name p =
      (.result r.result, { s with box := s.box.observe p.id, pops := s.pops.erase name })) ∨
    (s.box.resolved.lookup p.id = none ∧ s.pollPending name p =
      (.result (.error .timeout),
        { s with box := s.box.withdraw p.id, pops := s.pops.erase name })) ∨
    (s.box.resolved.lookup p.id = none ∧ s.pollPending name p = (.pending, s)) := by
  rw [pollPending]
  rcases poll_cases s.box p.id (deadlinePassed p.deadline s.now) with ⟨r, hr, hp⟩ | ⟨hr, hp⟩ |
    ⟨hr, hp⟩ <;> rw [hp]
  · exact Or.inl ⟨r, hr, rfl⟩
  · exact Or.inr (Or.inl ⟨hr, rfl⟩)
  · exact Or.inr (Or.inr ⟨hr, rfl⟩)

/-- Who is given a message had it lying ready. -/
theorem pollPending_answer {s : TimedMailbox μ} {name : String} {p : PendingPop} {m : μ}
    (h : (s.pollPending name p).1 = .result (.ok m)) :
    s.box.resolved.lookup p.id = some (.message m) := by
  rcases pollPending_cases s name p with ⟨r, hr, hp⟩ | ⟨-, hp⟩ | ⟨-, hp⟩ <;> rw [hp] at h
  · cases r with
    | message m' =>
        rw [Resolution.result, MailboxAnswer.result.injEq, Except.ok.injEq] at h
        rwa [← h]
    | closed reason => exact absurd h (by simp [Resolution.result])
  · exact absurd h (by simp)
  · exact absurd h (by simp)

/-- What a look gives out is missing afterwards from what is held. -/
theorem accounts_pollPending {s : TimedMailbox μ} (hn : s.box.Numbered) (name : String)
    (p : PendingPop) :
    ((s.pollPending name p).2.box.held ++ (s.pollPending name p).1.messages).Perm s.box.held := by
  rcases pollPending_cases s name p with ⟨r, hr, hp⟩ | ⟨-, hp⟩ | ⟨-, hp⟩ <;> rw [hp]
  · have hanswer : (MailboxAnswer.result r.result).messages = r.message?.toList := by
      cases r <;> rfl
    rw [hanswer]
    exact held_observe hn hr
  · exact List.Perm.of_eq (List.append_nil _)
  · exact List.Perm.of_eq (List.append_nil _)

/-- A receiver that gives up gives its message back, and a closed mailbox discards it. -/
theorem accounts_drop {s : TimedMailbox μ} (hn : s.box.Numbered) (name : String) :
    ((s.step (.drop name)).2.box.held ++ s.discards (.drop name)).Perm s.box.held := by
  rw [discards]
  rcases hp : s.pops.get? name with _ | p
  · simp only [step, regains, hp, ite_self, List.append_nil]
    exact List.Perm.refl _
  · simp only [step, regains, hp]
    rcases cancel_cases s.box p.id with ⟨hr, hc⟩ | ⟨m, hr, hc⟩ | ⟨reason, hr, hc⟩ <;> rw [hc, hr]
    · simp only [Option.bind_none, Option.toList_none, ite_self, List.append_nil]
      exact List.Perm.refl _
    · have hback : ((s.box.observe p.id).held ++ [m]).Perm s.box.held := held_observe hn hr
      rcases hclosed : s.box.closed with _ | reason
      · -- An open mailbox holds the message again, for another receiver or in the buffer.
        have hopen : s.box.isClosed = false := by rw [isClosed, hclosed]; rfl
        rw [hopen, if_neg (by simp), List.append_nil]
        have hheld := held_deliver (b := s.box.observe p.id) hclosed m fun ms =>
          List.Perm.refl (m :: ms)
        refine hheld.trans ?_
        exact (List.perm_append_singleton m _).symm.trans hback
      · have hshut : s.box.isClosed = true := by rw [isClosed, hclosed]; rfl
        rw [hshut, if_pos rfl]
        rcases deliver_cases (s.box.observe p.id) m (m :: ·) with ⟨reason', -, hd⟩ |
          ⟨hopen, -⟩ | ⟨hopen, -⟩
        · rw [restore, hd]
          exact hback
        · exact absurd (hclosed.symm.trans hopen) (by simp)
        · exact absurd (hclosed.symm.trans hopen) (by simp)
    · simp only [Option.bind_some, Resolution.message?, Option.toList_none, ite_self]
      exact held_observe hn hr

/-- What one step takes in, gives out and discards makes up the difference in
    what is held. -/
theorem accounts_step {s : TimedMailbox μ} (hn : s.box.Numbered) (op : MailboxOp μ) :
    ((s.step op).2.box.held ++ (s.step op).1.messages ++ s.discards op).Perm
      (s.box.held ++ s.takesIn op) := by
  cases op with
  | push m =>
      simp only [discards, step, MailboxAnswer.messages, takesIn, List.append_nil]
      rcases hclosed : s.box.closed with _ | reason
      · have hopen : s.box.isClosed = false := by rw [isClosed, hclosed]; rfl
        rw [hopen, if_neg (by simp)]
        have hin := held_deliver hclosed m fun ms => List.perm_append_singleton m ms
        exact hin.trans (List.perm_append_singleton m _).symm
      · -- What comes to a closed mailbox was never taken in.
        have hshut : s.box.isClosed = true := by rw [isClosed, hclosed]; rfl
        rw [push, deliver, if_pos hshut, if_pos hshut, List.append_nil]
  | clear reason =>
      simp only [step, discards, MailboxAnswer.messages, takesIn, List.append_nil, held_clear]
      exact List.perm_append_comm
  | advance ms =>
      simp only [discards, step, MailboxAnswer.messages, takesIn, List.append_nil]
      exact List.Perm.refl _
  | pop name test timeout =>
      simp only [discards, takesIn, List.append_nil]
      have hpop := numbered_pop hn test
      rcases pop_cases s.box test with ⟨reason, -, hp⟩ | ⟨-, m, others, hscan, hp⟩ |
        ⟨-, text, -, hp⟩ | ⟨-, -, hp⟩ <;> simp only [step, hp] at hpop ⊢
      · exact List.Perm.of_eq (List.append_nil _)
      · exact held_scan hscan
      · exact List.Perm.of_eq (List.append_nil _)
      · -- To wait changes nothing about messages, and then it looks.
        exact accounts_pollPending (s := { s with
          box := _
          pops := s.pops.insert name ⟨s.box.nextId, timeout.map (s.now + ·)⟩ }) hpop name _
  | poll name =>
      simp only [discards, takesIn, List.append_nil, step]
      split
      next => exact List.Perm.of_eq (List.append_nil _)
      next p _ => exact accounts_pollPending hn name p
  | drop name =>
      have hanswer : (s.step (.drop name)).1.messages = [] := by
        rw [step]
        split <;> rfl
      simp only [hanswer, takesIn, List.append_nil]
      exact accounts_drop hn name
  | tryPop test =>
      simp only [discards, takesIn, List.append_nil, step]
      rcases tryPop_cases s.box test with ⟨m, others, hscan, hp⟩ | hp | ⟨text, hp⟩ <;>
        simp only [hp]
      · exact held_scan hscan
      · exact List.Perm.of_eq (List.append_nil _)
      · exact List.Perm.of_eq (List.append_nil _)

/-- The numbers are told apart after each step. -/
theorem numbered_step {s : TimedMailbox μ} (h : s.box.Numbered) (op : MailboxOp μ) :
    (s.step op).2.box.Numbered :=
  box_step Numbered (fun _ m h => numbered_deliver h m _)
    (fun b reason h => h.of_perm (numbers_clear b reason) rfl) (fun _ test h => numbered_pop h test)
    (fun _ id e h => numbered_poll h id e) (fun _ id h => numbered_cancel h id)
    (fun _ test h => numbered_tryPop h test) s op h

/-- They are after each history. -/
theorem numbered_run {s : TimedMailbox μ} (h : s.box.Numbered) (ops : List (MailboxOp μ)) :
    (s.run ops).2.box.Numbered := by
  induction ops generalizing s with
  | nil => exact h
  | cons op rest ih => exact ih (numbered_step h op)

/-- The balance of a history. -/
theorem accounts_run {s : TimedMailbox μ} (hn : s.box.Numbered) (ops : List (MailboxOp μ)) :
    ((s.run ops).2.box.held ++ (s.run ops).1.flatMap MailboxAnswer.messages ++
      s.collect discards ops).Perm (s.box.held ++ s.collect takesIn ops) := by
  classical
  induction ops generalizing s with
  | nil =>
      simp only [run, collect, List.flatMap_nil, List.append_nil]
      exact List.Perm.refl _
  | cons op rest ih =>
      have hstep := accounts_step hn op
      have hrest := ih (numbered_step hn op)
      change (((s.step op).2.run rest).2.box.held ++
        ((s.step op).1.messages ++ ((s.step op).2.run rest).1.flatMap MailboxAnswer.messages) ++
        (s.discards op ++ (s.step op).2.collect discards rest)).Perm
          (s.box.held ++ (s.takesIn op ++ (s.step op).2.collect takesIn rest))
      rw [List.perm_iff_count] at hstep hrest ⊢
      -- Every message is counted for itself.
      intro m
      have h₁ := hstep m
      have h₂ := hrest m
      simp only [List.count_append] at h₁ h₂ ⊢
      omega

end TimedMailbox

end Actors
