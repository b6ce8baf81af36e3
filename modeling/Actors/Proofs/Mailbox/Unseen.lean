import Actors.Proofs.Mailbox.FirstCome

/-!
# A Receiver Nobody Notices

A receiver that leaves with empty hands, because its time is up or because it
gives up before it has an answer, might as well never have come. The others get
the same answers without it, the buffer is the same at every time, and the
others stand in the same order.

Not everything is the same. The receiver has used up a number, so whoever comes
after it has a number that is one larger, and while it waits it is one of those
who wait. `Hides` says that there is no other difference: leave the receiver
out, close up the numbers, and the one mailbox is the other.

The relation survives every step in which the receiver is not answered. It is
passed over by whatever message comes, since it does not accept it or its test
breaks down, and the next one in the queue is found as if it were not there.
Only if the receiver were answered would the two mailboxes part. That cannot
happen to a receiver that leaves without an answer, because an answer that lies
ready stays until its receiver looks or gives up.

## Main definitions

* `closeUp`: A number, when one number is left out.
* `Mailbox.Hides`, `TimedMailbox.Hides`: One mailbox without some receiver is another.
* `TimedMailbox.LeavesEmpty`: In a step a receiver leaves with empty hands.
* `TimedMailbox.without`: A history without what one receiver does.
* `TimedMailbox.Invisible`: Nobody notices a receiver.

## Theorems

* `offer_closeUp`: A message goes to the same receiver if it does not go to the
  one that is left out.
* `hides_step`: What another receiver does has the same outcome.
* `hides_own`: What the receiver itself does changes nothing for the others.
* `invisible_run`: Nobody notices a receiver that leaves with empty hands.
-/

namespace Actors

variable {μ : Type}

/-- A number, when one number is left out and the larger ones move up. -/
def closeUp (g id : Nat) : Nat := if g < id then id - 1 else id

/-- Numbers up to the gap stay. -/
theorem closeUp_of_le {g id : Nat} (h : id ≤ g) : closeUp g id = id := if_neg (Nat.not_lt.mpr h)

/-- Behind the gap the numbers move up together, so the counter and what it counts stay in step. -/
theorem closeUp_succ {g id : Nat} (h : g < id) : closeUp g (id + 1) = closeUp g id + 1 := by
  rw [closeUp, closeUp, if_pos h, if_pos (Nat.lt_succ_of_lt h)]
  omega

/-- Two receivers that are not left out have two numbers afterwards as well. -/
theorem closeUp_inj {g id id' : Nat} (h : id ≠ g) (h' : id' ≠ g) :
    closeUp g id = closeUp g id' ↔ id = id' := by
  simp only [closeUp]
  split <;> split <;> omega

/-- A waiting receiver under its new number. -/
def Consumer.closeUp (g : Nat) (c : Consumer μ) : Consumer μ := ⟨Actors.closeUp g c.id, c.matcher⟩

/-- A pending receiver under its new number. -/
def PendingPop.closeUp (g : Nat) (p : PendingPop) : PendingPop :=
  ⟨Actors.closeUp g p.id, p.deadline⟩

namespace Mailbox

/-- The answer to a receiver that arrives, under its new number. -/
def Pop.closeUp (g : Nat) : Pop μ → Pop μ
  | .done result => .done result
  | .panic text => .panic text
  | .waiting id => .waiting (Actors.closeUp g id)

/-- The waiting receivers without one of them. -/
def leaveOut (g : Nat) (cs : List (Consumer μ)) : List (Consumer μ) :=
  (cs.filter fun c => c.id ≠ g).map (Consumer.closeUp g)

/-- One mailbox, without a receiver that has no answer, is another. -/
structure Hides (g : Nat) (b b' : Mailbox μ) : Prop where
  /-- The buffer is the same. -/
  messages : b'.messages = b.messages
  /-- The others wait in the same order. -/
  consumers : b'.consumers = leaveOut g b.consumers
  /-- The same answers lie ready. -/
  resolved : b'.resolved = b.resolved.map (Prod.map (closeUp g) id)
  /-- None of them is for the receiver. -/
  unanswered : ∀ r ∈ b.resolved, r.1 ≠ g
  /-- The receiver has used up its number. -/
  nextId : b'.nextId = closeUp g b.nextId
  /-- Both are open, or closed for the same reason. -/
  closed : b'.closed = b.closed

variable {g : Nat}

/-! ## The receivers without one of them -/

/-- The receiver itself is skipped. -/
theorem leaveOut_cons_of_eq {c : Consumer μ} (h : c.id = g) (cs : List (Consumer μ)) :
    leaveOut g (c :: cs) = leaveOut g cs := by
  rw [leaveOut, List.filter_cons_of_neg (by simp [h]), leaveOut]

/-- Everybody else stays in his place. -/
theorem leaveOut_cons_of_ne {c : Consumer μ} (h : c.id ≠ g) (cs : List (Consumer μ)) :
    leaveOut g (c :: cs) = c.closeUp g :: leaveOut g cs := by
  rw [leaveOut, List.filter_cons_of_pos (by simp [h]), List.map_cons, leaveOut]

/-- Leaving out goes part by part, so it respects the order of the line. -/
theorem leaveOut_append (cs cs' : List (Consumer μ)) :
    leaveOut g (cs ++ cs') = leaveOut g cs ++ leaveOut g cs' := by
  rw [leaveOut, List.filter_append, List.map_append, leaveOut, leaveOut]

/-- A receiver that is not there leaves no gap. -/
theorem leaveOut_of_lt {cs : List (Consumer μ)} (h : ∀ c ∈ cs, c.id < g) : leaveOut g cs = cs := by
  rw [leaveOut, List.filter_eq_self.mpr fun c hc => decide_eq_true (Nat.ne_of_lt (h c hc))]
  refine (List.map_congr_left fun c hc => ?_).trans (List.map_id cs)
  rw [Consumer.closeUp, closeUp_of_le (Nat.le_of_lt (h c hc))]
  rfl

/-- A message that does not go to the receiver that is left out goes where it
    went before. -/
theorem offer_closeUp {m : μ} {cs : List (Consumer μ)}
    (h : ∀ r, offer m cs = some r → r.1 ≠ g) :
    offer m (leaveOut g cs) = (offer m cs).map fun r => (closeUp g r.1, leaveOut g r.2) := by
  induction cs with
  | nil => rfl
  | cons c rest ih =>
      rw [offer] at h ⊢
      by_cases hc : (c.matcher m).accepts = true
      · rw [if_pos hc] at h ⊢
        have hid : c.id ≠ g := h (c.id, rest) rfl
        have hc' : ((c.closeUp g).matcher m).accepts = true := hc
        rw [leaveOut_cons_of_ne hid, offer, if_pos hc', Option.map_some]
        rfl
      · rw [if_neg hc] at h ⊢
        have hrest := ih fun r hr => h (r.1, c :: r.2) (by rw [hr]; rfl)
        by_cases hid : c.id = g
        · -- The receiver turned the message down, so it makes no difference.
          rw [leaveOut_cons_of_eq hid, hrest]
          rcases offer m rest with _ | ⟨id', others⟩
          · rfl
          · simp only [Option.map_some, leaveOut_cons_of_eq hid]
        · have hc' : ¬ ((c.closeUp g).matcher m).accepts = true := hc
          rw [leaveOut_cons_of_ne hid, offer, if_neg hc', hrest]
          rcases offer m rest with _ | ⟨id', others⟩
          · rfl
          · simp only [Option.map_some, leaveOut_cons_of_ne hid]

/-- Everybody finds under his new number the answer that he had under the old one. -/
theorem lookup_closeUp {rs : List (Nat × Resolution μ)} (h : ∀ r ∈ rs, r.1 ≠ g) {id' : Nat}
    (hid : id' ≠ g) : (rs.map (Prod.map (closeUp g) id)).lookup (closeUp g id') = rs.lookup id' := by
  induction rs with
  | nil => rfl
  | cons r rest ih =>
      rcases r with ⟨k, r⟩
      rcases List.forall_mem_cons.mp h with ⟨hk, hrest⟩
      -- Comparing new numbers is comparing old ones.
      have hkey : (closeUp g id' == closeUp g k) = (id' == k) := by
        rw [Bool.eq_iff_iff, beq_iff_eq, beq_iff_eq, closeUp_inj hid hk]
      rw [List.map_cons, Prod.map_apply, List.lookup_cons, List.lookup_cons, hkey, ih hrest]
      rfl

/-! ## What the operations do to the two mailboxes -/

variable {b b' : Mailbox μ}

/-- Both mailboxes are open, or neither is. -/
theorem Hides.isClosed (h : Hides g b b') : b'.isClosed = b.isClosed := by
  rw [Mailbox.isClosed, Mailbox.isClosed, h.closed]

/-- No answer lies ready for the receiver that is left out. -/
theorem Hides.lookup_eq_none (h : Hides g b b') : b.resolved.lookup g = none := by
  rw [List.lookup_eq_none_iff]
  exact fun r hr => bne_iff_ne.mpr (h.unanswered r hr).symm

/-- A message goes to the same receiver in both, unless it goes to the one that is left out. That is
    what `hun` excludes: the one that is left out has no answer afterwards. -/
theorem hides_deliver (h : Hides g b b') (m : μ) (buffer : List μ → List μ)
    (hun : ∀ r ∈ (b.deliver m buffer).resolved, r.1 ≠ g) :
    Hides g (b.deliver m buffer) (b'.deliver m buffer) := by
  rw [deliver] at hun
  rw [deliver, deliver, h.isClosed]
  by_cases hclosed : b.isClosed = true
  · rw [if_pos hclosed, if_pos hclosed]
    exact h
  · rw [if_neg hclosed] at hun
    rw [if_neg hclosed, if_neg hclosed, h.consumers]
    rcases hoffer : offer m b.consumers with _ | ⟨id', others⟩
    · -- Nobody takes it, so it is buffered in both.
      rw [offer_closeUp (by simp [hoffer]), hoffer]
      exact ⟨congrArg buffer h.messages, rfl, h.resolved, h.unanswered, h.nextId, h.closed⟩
    · rw [hoffer] at hun
      have hid : id' ≠ g := hun (id', .message m) (List.mem_append_right _ List.mem_cons_self)
      rw [offer_closeUp (by simp [hoffer, hid]), hoffer]
      refine ⟨h.messages, rfl, ?_, hun, h.nextId, h.closed⟩
      simp only [h.resolved, List.map_append]
      rfl

/-- Clearing answers everybody who waits. The receiver that is left out is not answered, so it did
    not wait. -/
theorem hides_clear (h : Hides g b b') (reason : Term)
    (hun : ∀ r ∈ (b.clear reason).resolved, r.1 ≠ g) :
    Hides g (b.clear reason) (b'.clear reason) := by
  refine ⟨rfl, rfl, ?_, hun, h.nextId, rfl⟩
  have hids : ∀ c ∈ b.consumers, c.id ≠ g := fun c hc =>
    hun (c.id, .closed reason) (List.mem_append_right _ (List.mem_map_of_mem hc))
  -- The receiver is not among those who wait, or it would be answered now.
  have hall : b.consumers.filter (fun c => c.id ≠ g) = b.consumers :=
    List.filter_eq_self.mpr fun c hc => decide_eq_true (hids c hc)
  simp only [clear, h.resolved, h.consumers, leaveOut, hall, List.map_append, List.map_map]
  rfl

/-- Somebody sees his answer. -/
theorem hides_observe (h : Hides g b b') {id' : Nat} (hid : id' ≠ g) :
    Hides g (b.observe id') (b'.observe (closeUp g id')) := by
  refine ⟨h.messages, h.consumers, ?_, ?_, h.nextId, h.closed⟩
  · simp only [observe, h.resolved, List.filter_map]
    refine congrArg _ (List.filter_congr fun r hr => ?_)
    simp only [Function.comp_apply, Prod.map_fst, ne_eq, closeUp_inj (h.unanswered r hr) hid]
  · exact fun r hr => h.unanswered r (List.mem_of_mem_filter hr)

/-- Somebody stops waiting. -/
theorem hides_withdraw (h : Hides g b b') {id' : Nat} (hid : id' ≠ g) :
    Hides g (b.withdraw id') (b'.withdraw (closeUp g id')) := by
  refine ⟨h.messages, ?_, h.resolved, h.unanswered, h.nextId, h.closed⟩
  simp only [withdraw, leaveOut, h.consumers, List.filter_map, List.filter_filter]
  refine congrArg _ (List.filter_congr fun c _ => ?_)
  -- The two filters commute: one throws out the receiver that is left out, the other the one that
  -- leaves.
  by_cases hc : c.id = g
  · simp [hc]
  · simp [Consumer.closeUp, closeUp_inj hc hid, hc]

/-- Whether the receiver that is left out still waits makes no difference. -/
theorem hides_withdraw_own (h : Hides g b b') : Hides g (b.withdraw g) b' := by
  refine ⟨h.messages, ?_, h.resolved, h.unanswered, h.nextId, h.closed⟩
  rw [h.consumers, leaveOut, leaveOut, withdraw, List.filter_filter]
  simp only [Bool.and_self]

/-- Another receiver looks, and is told the same in both. -/
theorem hides_poll (h : Hides g b b') {id' : Nat} (hid : id' ≠ g) (expired : Bool) :
    (b'.poll (closeUp g id') expired).1 = (b.poll id' expired).1 ∧
      Hides g (b.poll id' expired).2 (b'.poll (closeUp g id') expired).2 := by
  rw [poll, poll, h.resolved, lookup_closeUp h.unanswered hid]
  rcases b.resolved.lookup id' with _ | r
  · cases expired
    · exact ⟨rfl, h⟩
    · exact ⟨rfl, hides_withdraw h hid⟩
  · exact ⟨rfl, hides_observe h hid⟩

/-- Another receiver gives up, and what it hands back takes the same way. -/
theorem hides_cancel (h : Hides g b b') {id' : Nat} (hid : id' ≠ g)
    (hun : ∀ r ∈ (b.cancel id').resolved, r.1 ≠ g) :
    Hides g (b.cancel id') (b'.cancel (closeUp g id')) := by
  rw [cancel] at hun
  rw [cancel, cancel, h.resolved, lookup_closeUp h.unanswered hid]
  rcases hr : b.resolved.lookup id' with _ | m | reason <;> rw [hr] at hun
  · exact hides_withdraw h hid
  · exact hides_deliver (hides_observe h hid) m _ hun
  · exact hides_observe h hid

/-- An attempt that does not wait sees the buffer only, and that is the same. -/
theorem hides_tryPop (h : Hides g b b') (test : Matcher μ) :
    (b'.tryPop test).1 = (b.tryPop test).1 ∧ Hides g (b.tryPop test).2 (b'.tryPop test).2 := by
  rw [tryPop, tryPop, h.messages]
  cases scan test b.messages with
  | nothing => exact ⟨rfl, h⟩
  | message m others =>
      exact ⟨rfl, rfl, h.consumers, h.resolved, h.unanswered, h.nextId, h.closed⟩
  | panic text => exact ⟨rfl, h⟩

/-- A receiver that arrives after the one that is left out is treated alike, but its number is one
    less where the other never came. -/
theorem hides_pop (h : Hides g b b') (hg : g < b.nextId) (test : Matcher μ) :
    (b'.pop test).1 = (b.pop test).1.closeUp g ∧ Hides g (b.pop test).2 (b'.pop test).2 := by
  rw [pop, pop, h.closed, h.messages]
  rcases hclosed : b.closed with _ | reason
  · cases scan test b.messages with
    | nothing =>
        -- It waits in both, and stands last in both.
        refine ⟨congrArg Pop.waiting h.nextId, rfl, ?_, h.resolved, h.unanswered, ?_, rfl⟩
        · simp only
          rw [leaveOut_append, leaveOut_cons_of_ne (Nat.ne_of_gt hg), ← h.consumers, h.nextId]
          rfl
        · exact (congrArg (· + 1) h.nextId).trans (closeUp_succ hg).symm
    | message m others =>
        exact ⟨rfl, rfl, h.consumers, h.resolved, h.unanswered, h.nextId, rfl⟩
    | panic text => exact ⟨rfl, h⟩
  · exact ⟨rfl, h⟩

/-- Before it comes a receiver is not there. -/
theorem hides_self (h : b.Numbered) : Hides b.nextId b b := by
  refine ⟨rfl, (leaveOut_of_lt fun c hc => ?_).symm, ?_, fun r hr => ?_,
    (closeUp_of_le (Nat.le_refl _)).symm, rfl⟩
  · exact h.below c.id (List.mem_append_left _ (List.mem_map_of_mem hc))
  · -- All answers belong to earlier numbers, which stay what they are.
    refine ((List.map_congr_left fun r hr => ?_).trans (List.map_id _)).symm
    have hlt := h.below r.1 (List.mem_append_right _ (List.mem_map_of_mem hr))
    rw [← Prod.map_id, Prod.map, closeUp_of_le (Nat.le_of_lt hlt)]
    rfl
  · exact Nat.ne_of_lt (h.below r.1 (List.mem_append_right _ (List.mem_map_of_mem hr)))

/-- When it comes and has to wait, it is the one that is left out. -/
theorem hides_arrive (h : b.Numbered) (test : Matcher μ) :
    Hides b.nextId { b with
      consumers := b.consumers ++ [⟨b.nextId, test⟩]
      nextId := b.nextId + 1 } b := by
  have hself := hides_self h
  refine ⟨rfl, ?_, hself.resolved, hself.unanswered, ?_, rfl⟩
  · rw [leaveOut_append, leaveOut_cons_of_eq (c := ⟨b.nextId, test⟩) rfl, ← hself.consumers]
    exact (List.append_nil _).symm
  · rw [closeUp, if_pos (Nat.lt_succ_self _)]
    rfl

end Mailbox

/-- Whether an operation is one of the receiver of a name. -/
def MailboxOp.isOf (name : String) : MailboxOp μ → Bool
  | .pop name' _ _ | .poll name' | .drop name' => name' = name
  | _ => false

namespace TimedMailbox

open Mailbox

/-- A history without what the receiver of a name does. -/
def without (name : String) (ops : List (MailboxOp μ)) : List (MailboxOp μ) :=
  ops.filter fun op => !op.isOf name

/-- What is answered, unless it is answered to the receiver of a name. -/
def answersBut (name : String) (s : TimedMailbox μ) (op : MailboxOp μ) : List (MailboxAnswer μ) :=
  if op.isOf name then [] else [(s.step op).1]

/-- One timed mailbox, without the receiver of a name and its number, is another. -/
structure Hides (name : String) (g : Nat) (s s' : TimedMailbox μ) : Prop where
  box : s.box.Hides g s'.box
  now : s'.now = s.now
  /-- The others are pending under their new numbers. -/
  pops : ∀ name', s'.pops.get? name' =
    if name' = name then none else (s.pops.get? name').map (PendingPop.closeUp g)

/-- A number was given out, to the receiver of a name and to nobody else. -/
structure Owns (s : TimedMailbox μ) (name : String) (g : Nat) : Prop where
  given : g < s.box.nextId
  mine : ∀ p, s.pops.get? name = some p → p.id = g
  alone : ∀ name' p, s.pops.get? name' = some p → p.id = g → name' = name

variable {name : String} {g : Nat} {s s' : TimedMailbox μ}

/-! ## Numbers and their owners -/

/-- A look makes nobody pending. -/
theorem pending_pollPending {name name' : String} {p p' : PendingPop}
    (h : (s.pollPending name' p').2.pops.get? name = some p) : s.pops.get? name = some p := by
  rcases pollPending_cases s name' p' with ⟨r, -, hq⟩ | ⟨-, hq⟩ | ⟨-, hq⟩ <;> rw [hq] at h
  · exact (Dict.get?_of_erase h).2
  · exact (Dict.get?_of_erase h).2
  · exact h

/-- Who is pending after a step was pending before, or has just come. -/
theorem pending_step (s : TimedMailbox μ) (op : MailboxOp μ) {name : String} {p : PendingPop}
    (h : (s.step op).2.pops.get? name = some p) :
    s.pops.get? name = some p ∨ (p.id = s.box.nextId ∧ name ∈ op.opens) := by
  cases op with
  | push m => exact Or.inl h
  | clear reason => exact Or.inl h
  | advance ms => exact Or.inl h
  | pop name' test timeout =>
      rw [step] at h
      split at h
      next => exact Or.inl h
      next => exact Or.inl h
      -- Only here somebody comes. It is pending unless its first look was the last.
      next id box hp =>
        have hin := pending_pollPending h
        rw [Dict.get?_insert] at hin
        split at hin
        next heq =>
          rw [Option.some.injEq] at hin
          refine Or.inr ⟨?_, List.mem_singleton.mpr heq⟩
          rw [← hin]
          exact (pop_waiting hp).1
        next => exact Or.inl hin
  | poll name' =>
      rw [step] at h
      split at h
      next => exact Or.inl h
      next => exact Or.inl (pending_pollPending h)
  | drop name' =>
      rw [step] at h
      split at h
      next => exact Or.inl h
      next => exact Or.inl (Dict.get?_of_erase h).2
  | tryPop test =>
      rw [step] at h
      split at h <;> exact Or.inl h

/-- A number belongs to a name for good, if nobody takes the name again: the counter has passed it,
    so nobody else gets it. -/
theorem owns_step (h : s.Owns name g) {op : MailboxOp μ} (hname : name ∉ op.opens) :
    (s.step op).2.Owns name g where
  given := Nat.lt_of_lt_of_le h.given (nextId_le_step s op)
  mine p hp := by
    rcases pending_step s op hp with hold | ⟨-, hnew⟩
    · exact h.mine p hold
    · exact absurd hnew hname
  alone name' p hp hid := by
    rcases pending_step s op hp with hold | ⟨hnew, -⟩
    · exact h.alone name' p hold hid
    · exact absurd (hid.symm.trans hnew) (Nat.ne_of_lt h.given)

/-- A number is not answered as long as its owner is not. -/
theorem unanswered_of_owns (h : s.Owns name g) (hs : s.Accounted)
    (hun : ∀ r, ¬ s.Answered name r) : ∀ r ∈ s.box.resolved, r.1 ≠ g := by
  rintro ⟨id, r⟩ hr rfl
  rcases hs.owned id (List.mem_append_right _ (List.mem_map_of_mem hr)) with ⟨name', p, hp, hid⟩
  rw [h.alone name' p hp hid] at hp
  exact hun r ⟨p, hp, hid ▸ hr⟩

/-! ## The others -/

/-- Whoever leaves the one leaves the other. -/
theorem Hides.erase (h : Hides name g s s') (name' : String) {box box' : Mailbox μ}
    (hbox : box.Hides g box') :
    Hides name g { s with box, pops := s.pops.erase name' }
      { s' with box := box', pops := s'.pops.erase name' } := by
  refine ⟨hbox, h.now, fun name'' => ?_⟩
  simp only [Dict.get?_erase, h.pops name'']
  by_cases heq : name'' = name' <;> simp [heq]

/-- Another pending receiver looks, on both sides at the same time of day. -/
theorem hides_pollPending (h : Hides name g s s') (name' : String) {p : PendingPop}
    (hid : p.id ≠ g) :
    (s'.pollPending name' (p.closeUp g)).1 = (s.pollPending name' p).1 ∧
      Hides name g (s.pollPending name' p).2 (s'.pollPending name' (p.closeUp g)).2 := by
  have hpoll := hides_poll h.box hid (deadlinePassed p.deadline s.now)
  simp only [pollPending, PendingPop.closeUp, h.now]
  rcases hq' : s'.box.poll (closeUp g p.id) (deadlinePassed p.deadline s.now) with ⟨r', box'⟩
  rcases hq : s.box.poll p.id (deadlinePassed p.deadline s.now) with ⟨r, box⟩
  rw [hq', hq] at hpoll
  rcases hpoll with ⟨hr, hbox⟩
  have hr' : r' = r := hr
  rw [hr']
  -- Without a result it stays pending, with one it is gone.
  rcases r with _ | result
  · exact ⟨rfl, hbox, rfl, h.pops⟩
  · exact ⟨rfl, hbox, rfl, (h.erase name' hbox).pops⟩

/-- Another receiver arrives. Its number is one less where the receiver that is left out never
    came, and that is all the difference. -/
theorem hides_come_other (h : Hides name g s s') (ho : s.Owns name g) {name' : String}
    (hne : name' ≠ name) (test : Matcher μ) (timeout : Option Nat) :
    (s'.step (.pop name' test timeout)).1 = (s.step (.pop name' test timeout)).1 ∧
      Hides name g (s.step (.pop name' test timeout)).2
        (s'.step (.pop name' test timeout)).2 := by
  have hpop := hides_pop h.box ho.given test
  simp only [step, h.now]
  rcases hp' : s'.box.pop test with ⟨r', box'⟩
  rcases hp : s.box.pop test with ⟨r, box⟩
  rw [hp', hp] at hpop
  rcases hpop with ⟨hr, hbox⟩
  have hr' : r' = r.closeUp g := hr
  rw [hr']
  cases r with
  | done result => exact ⟨rfl, hbox, rfl, h.pops⟩
  | panic text => exact ⟨rfl, hbox, rfl, h.pops⟩
  | waiting id =>
      -- The number is a new one, so it is not that of the receiver that is left out.
      have hid : id ≠ g := by
        rw [(pop_waiting hp).1]
        exact Nat.ne_of_gt ho.given
      let p : PendingPop := ⟨id, timeout.map (s.now + ·)⟩
      have hjoin : Hides name g { s with box, pops := s.pops.insert name' p }
          ⟨box', s.now, s'.pops.insert name' (p.closeUp g)⟩ := by
        refine ⟨hbox, rfl, fun name'' => ?_⟩
        simp only [Dict.get?_insert, h.pops name'']
        by_cases heq : name'' = name'
        · rw [if_pos heq, if_pos heq, if_neg (heq ▸ hne), Option.map_some]
        · rw [if_neg heq, if_neg heq]
      exact hides_pollPending hjoin name' (p := p) hid

/-- What another receiver does, and whatever else happens, has the same outcome
    as long as the receiver that is left out has no answer. -/
theorem hides_step (h : Hides name g s s') (ho : s.Owns name g) {op : MailboxOp μ}
    (hop : op.isOf name = false) (hun : ∀ r ∈ (s.step op).2.box.resolved, r.1 ≠ g) :
    (s'.step op).1 = (s.step op).1 ∧ Hides name g (s.step op).2 (s'.step op).2 := by
  -- Everybody else is pending on both sides, under numbers that correspond.
  have hget : ∀ {name'}, name' ≠ name →
      s'.pops.get? name' = (s.pops.get? name').map (PendingPop.closeUp g) :=
    fun hne => (h.pops _).trans (if_neg hne)
  cases op with
  | push m => exact ⟨rfl, hides_deliver h.box m _ hun, h.now, h.pops⟩
  | clear reason => exact ⟨rfl, hides_clear h.box reason hun, h.now, h.pops⟩
  | advance ms => exact ⟨rfl, h.box, congrArg (· + ms) h.now, h.pops⟩
  | pop name' test timeout =>
      exact hides_come_other h ho (of_decide_eq_false hop) test timeout
  | poll name' =>
      have hne : name' ≠ name := of_decide_eq_false hop
      simp only [step, hget hne]
      rcases hp : s.pops.get? name' with _ | p
      · exact ⟨rfl, h⟩
      · exact hides_pollPending h name' fun hid => hne (ho.alone name' p hp hid)
  | drop name' =>
      have hne : name' ≠ name := of_decide_eq_false hop
      simp only [step, hget hne] at hun ⊢
      rcases hp : s.pops.get? name' with _ | p
      · exact ⟨rfl, h⟩
      · rw [hp] at hun
        have hid : p.id ≠ g := fun hid => hne (ho.alone name' p hp hid)
        exact ⟨rfl, h.erase name' (hides_cancel h.box hid hun)⟩
  | tryPop test =>
      have hpop := hides_tryPop h.box test
      simp only [step]
      rcases hp' : s'.box.tryPop test with ⟨r', box'⟩
      rcases hp : s.box.tryPop test with ⟨r, box⟩
      rw [hp', hp] at hpop
      rcases hpop with ⟨hr, hbox⟩
      have hr' : r' = r := hr
      rw [hr']
      cases r <;> exact ⟨rfl, hbox, h.now, h.pops⟩

/-! ## The receiver itself -/

/-- Once the receiver is gone from the one, it is simply missing in both. -/
theorem Hides.leave (h : Hides name g s s') :
    Hides name g { s with box := s.box.withdraw g, pops := s.pops.erase name } s' := by
  refine ⟨hides_withdraw_own h.box, h.now, fun name' => ?_⟩
  rw [h.pops name', Dict.get?_erase]
  split <;> rfl

/-- When the receiver looks it finds no answer. It stays, or its time is up and it leaves. -/
theorem hides_pollPending_own (h : Hides name g s s') {p : PendingPop} (hid : p.id = g) :
    Hides name g (s.pollPending name p).2 s' := by
  have hnone : s.box.resolved.lookup p.id = none := hid ▸ h.box.lookup_eq_none
  rcases pollPending_cases s name p with ⟨r, hr, -⟩ | ⟨-, hq⟩ | ⟨-, hq⟩
  · exact absurd (hnone.symm.trans hr) (by simp)
  · rw [hq, hid]
    exact h.leave
  · rw [hq]
    exact h

/-- What the receiver does that is left out changes nothing for the others. -/
theorem hides_own (h : Hides name g s s') (ho : s.Owns name g) {op : MailboxOp μ}
    (hop : op.isOf name = true) (hnew : name ∉ op.opens) : Hides name g (s.step op).2 s' := by
  cases op with
  | pop name' test timeout =>
      exact absurd (List.mem_singleton.mpr (of_decide_eq_true hop).symm) hnew
  | poll name' =>
      have heq : name' = name := of_decide_eq_true hop
      rw [heq, step]
      split
      next => exact h
      next p hp => exact hides_pollPending_own h (ho.mine p hp)
  | drop name' =>
      have heq : name' = name := of_decide_eq_true hop
      rw [heq, step]
      split
      next => exact h
      next p hp =>
        rw [ho.mine p hp, cancel, h.box.lookup_eq_none]
        exact h.leave
  | _ => exact absurd hop (by simp [MailboxOp.isOf])

/-- Before the receiver comes the two are the same, and its number is the next one. All numbers in
    use are smaller and stay. -/
theorem hides_before (hs : s.Accounted) (hnone : s.pops.get? name = none) :
    Hides name s.box.nextId s s := by
  refine ⟨hides_self hs.numbered, rfl, fun name' => ?_⟩
  split
  next heq => exact heq ▸ hnone
  next =>
    rcases hp : s.pops.get? name' with _ | p
    · rfl
    · have hlt := hs.attended.below name' p hp
      rw [Option.map_some, PendingPop.closeUp, closeUp_of_le (Nat.le_of_lt hlt)]

/-- A receiver that comes and has to wait is the one that is left out. -/
theorem hides_come (hs : s.Accounted) (hnone : s.pops.get? name = none) {test : Matcher μ}
    {id : Nat} {box : Mailbox μ} (hpop : s.box.pop test = (.waiting id, box))
    (timeout : Option Nat) :
    (s.step (.pop name test timeout)).2.Owns name s.box.nextId ∧
      Hides name s.box.nextId (s.step (.pop name test timeout)).2 s := by
  -- That it waits says which of the four cases it is, and so what the mailbox looks like.
  have hbox : box = { s.box with
      consumers := s.box.consumers ++ [⟨s.box.nextId, test⟩]
      nextId := s.box.nextId + 1 } := by
    rcases pop_cases s.box test with ⟨reason, -, hp⟩ | ⟨-, m, others, -, hp⟩ | ⟨-, text, -, hp⟩ |
      ⟨-, -, hp⟩ <;> rw [hpop, Prod.mk.injEq] at hp
    · exact absurd hp.1 (by simp)
    · exact absurd hp.1 (by simp)
    · exact absurd hp.1 (by simp)
    · exact hp.2
  have hid := (pop_waiting hpop).1
  refine ⟨⟨?_, fun p hp => ?_, fun name' p hp hg => ?_⟩, ?_⟩
  · rcases arrival_cases s (.pop name test timeout) with hnil | ⟨c, -, -, hlt⟩
    · rw [arrival, hpop] at hnil
      exact absurd hnil (by simp)
    · exact hlt
  · rcases pending_step s _ hp with hold | ⟨hnew, -⟩
    · exact absurd (hnone.symm.trans hold) (by simp)
    · exact hnew
  · rcases pending_step s _ hp with hold | ⟨-, hnew⟩
    · exact absurd hg (Nat.ne_of_lt (hs.attended.below name' p hold))
    · exact List.mem_singleton.mp hnew
  · -- It is left out as soon as it is pending, and so it is after its first look.
    have hjoin : Hides name s.box.nextId
        { s with box, pops := s.pops.insert name ⟨id, timeout.map (s.now + ·)⟩ } s := by
      refine ⟨hbox ▸ hides_arrive hs.numbered test, rfl, fun name' => ?_⟩
      rw [(hides_before hs hnone).pops name', Dict.get?_insert]
      split <;> rfl
    simp only [step, hpop]
    exact hides_pollPending_own hjoin hid

/-! ## Histories -/

/-- Before the receiver comes, or after it has come under some number, one timed
    mailbox is another that never sees it. -/
def Shadows (name : String) (ops : List (MailboxOp μ)) (s s' : TimedMailbox μ) : Prop :=
  (s' = s ∧ s.pops.get? name = none) ∨
    (name ∉ ops.flatMap MailboxOp.opens ∧ ∃ g, s.Owns name g ∧ Hides name g s s')

/-- A receiver that is not there does nothing unless it comes. -/
theorem idle_step (hnone : s.pops.get? name = none) {op : MailboxOp μ} (hop : op.isOf name = true)
    (hnew : name ∉ op.opens) : (s.step op).2 = s := by
  cases op with
  | pop name' test timeout =>
      exact absurd (List.mem_singleton.mpr (of_decide_eq_true hop).symm) hnew
  | poll name' =>
      have heq : name' = name := of_decide_eq_true hop
      simp only [step, heq, hnone]
  | drop name' =>
      have heq : name' = name := of_decide_eq_true hop
      simp only [step, heq, hnone]
  | _ => exact absurd hop (by simp [MailboxOp.isOf])

/-- One step. What the receiver does happens on one side only, anything else on both with the same
    answer. -/
theorem shadows_step {op : MailboxOp μ} {rest : List (MailboxOp μ)}
    (h : Shadows name (op :: rest) s s') (hs : s.Accounted) (hfresh : s.Fresh (op :: rest))
    (hun : ∀ r, ¬ (s.step op).2.Answered name r)
    (hwaits : ∀ test timeout, op = .pop name test timeout →
      ∃ id box, s.box.pop test = (.waiting id, box)) :
    (op.isOf name = true ∧ Shadows name rest (s.step op).2 s') ∨
      (op.isOf name = false ∧ (s'.step op).1 = (s.step op).1 ∧
        Shadows name rest (s.step op).2 (s'.step op).2) := by
  have hnodup := hfresh.1
  rw [List.flatMap_cons, List.nodup_append] at hnodup
  have hs' := accounted_step hs hfresh.head
  by_cases hop : op.isOf name = true
  · refine Or.inl ⟨hop, ?_⟩
    rcases h with ⟨rfl, hnone⟩ | ⟨hnew, g, ho, h⟩
    · by_cases hcomes : name ∈ op.opens
      · -- The receiver comes, and from now on it is the one that is left out.
        have hlast : name ∉ rest.flatMap MailboxOp.opens := fun hlater =>
          hnodup.2.2 name hcomes name hlater rfl
        cases op with
        | pop name' test timeout =>
            rw [← List.mem_singleton.mp hcomes] at hwaits ⊢
            rcases hwaits test timeout rfl with ⟨id, box, hpop⟩
            exact Or.inr ⟨hlast, _, hides_come hs hnone hpop timeout⟩
        | _ => exact absurd hcomes List.not_mem_nil
      · rw [idle_step hnone hop hcomes]
        exact Or.inl ⟨rfl, hnone⟩
    · -- It is there, so this is a look or its end.
      rw [List.flatMap_cons, List.mem_append, not_or] at hnew
      exact Or.inr ⟨hnew.2, g, owns_step ho hnew.1, hides_own h ho hop hnew.1⟩
  · rw [Bool.not_eq_true] at hop
    refine Or.inr ⟨hop, ?_⟩
    rcases h with ⟨rfl, hnone⟩ | ⟨hnew, g, ho, h⟩
    · -- It has not come yet, and somebody else's operation does not bring it.
      refine ⟨rfl, Or.inl ⟨rfl, absent_step hnone fun hcomes => ?_⟩⟩
      cases op with
      | pop name' test timeout =>
          exact of_decide_eq_false hop (List.mem_singleton.mp hcomes).symm
      | _ => exact absurd hcomes List.not_mem_nil
    · rw [List.flatMap_cons, List.mem_append, not_or] at hnew
      have ho' := owns_step ho hnew.1
      rcases hides_step h ho hop (unanswered_of_owns ho' hs' hun) with ⟨hanswer, hnext⟩
      exact ⟨hanswer, Or.inr ⟨hnew.2, g, ho', hnext⟩⟩

/-- Over a whole history the others get the answers they get without the receiver, and in the end
    one mailbox is the other without it. -/
theorem shadows_run {ops : List (MailboxOp μ)} (h : Shadows name ops s s') (hs : s.Accounted)
    (hfresh : s.Fresh ops)
    (hun : ∀ before after r, ops = before ++ after → ¬ (s.run before).2.Answered name r)
    (hwaits : ∀ before test timeout after, ops = before ++ .pop name test timeout :: after →
      ∃ id box, (s.run before).2.box.pop test = (.waiting id, box)) :
    s.collect (answersBut name) ops = (s'.run (without name ops)).1 ∧
      Shadows name [] (s.run ops).2 (s'.run (without name ops)).2 := by
  induction ops generalizing s s' with
  | nil => exact ⟨rfl, h⟩
  | cons op rest ih =>
      -- The induction hypothesis, with its conditions met for the rest whichever state the other
      -- side is in.
      have hlater := fun s'' (hnext : Shadows name rest (s.step op).2 s'') =>
        ih hnext (accounted_step hs hfresh.head) hfresh.tail
          (fun before after r hsplit => hun (op :: before) after r (by rw [hsplit]; rfl))
          fun before test timeout after hsplit =>
            hwaits (op :: before) test timeout after (by rw [hsplit]; rfl)
      have hstep := shadows_step h hs hfresh (fun r => hun [op] rest r rfl)
        fun test timeout hop => hwaits [] test timeout rest (by rw [hop]; rfl)
      rw [collect, answersBut, without]
      rcases hstep with ⟨hop, hnext⟩ | ⟨hop, hanswer, hnext⟩
      · rw [if_pos hop, List.filter_cons_of_neg (by simp [hop])]
        exact hlater _ hnext
      · rw [hop, List.filter_cons_of_pos (by simp [hop])]
        rcases hlater _ hnext with ⟨hanswers, hrest⟩
        refine ⟨?_, hrest⟩
        change [(s.step op).1] ++ _ = (s'.step op).1 :: ((s'.step op).2.run (without name rest)).1
        rw [hanswers, hanswer]
        rfl

/-! ## A receiver that leaves with empty hands -/

/-- In a step the receiver of a name leaves with empty hands: it learns that its
    time is up, or gives up while it is one of those who wait. -/
def LeavesEmpty (s : TimedMailbox μ) (name : String) (op : MailboxOp μ) : Prop :=
  (op.Asks name ∧ (s.step op).1 = .result (.error .timeout)) ∨
    (op = .drop name ∧ ∃ p, s.pops.get? name = some p ∧ ∃ c ∈ s.box.consumers, c.id = p.id)

/-- It is gone then, has no answer, and has come under this name. -/
theorem leavesEmpty_step (hs : s.Accounted) {op : MailboxOp μ}
    (hfresh : ∀ name ∈ op.opens, s.pops.get? name = none) (h : s.LeavesEmpty name op) :
    (s.step op).2.pops.get? name = none ∧ (∀ r, ¬ s.Answered name r) ∧
      (name ∈ op.opens ∨ s.pops.get? name ≠ none) := by
  rcases h with ⟨hasks, hanswer⟩ | ⟨rfl, p, hp, c, hc, hid⟩
  · exact (timeout_step hs hfresh hasks hanswer).2.2
  · refine ⟨absent_drop s name, ?_, Or.inr (by simp [hp])⟩
    rintro r ⟨p', hp', hr⟩
    rw [hp, Option.some.injEq] at hp'
    rw [← hp'] at hr
    -- Nobody both waits and has an answer.
    exact (List.nodup_append.mp hs.numbered.apart).2.2 c.id (List.mem_map_of_mem hc) p.id
      (List.mem_map_of_mem hr) hid

/-- A receiver whose time is up when it comes was not served at once. -/
theorem waits_of_leavesEmpty_pop {test : Matcher μ} {timeout : Option Nat}
    (h : s.LeavesEmpty name (.pop name test timeout)) :
    ∃ id box, s.box.pop test = (.waiting id, box) := by
  rcases h with ⟨-, hanswer⟩ | ⟨heq, -⟩
  · -- Served at once it would have been told something else.
    rcases pop_cases s.box test with ⟨reason, -, hp⟩ | ⟨-, m, others, -, hp⟩ | ⟨-, text, -, hp⟩ |
      ⟨-, -, hp⟩
    · exact absurd hanswer (by simp [step, hp])
    · exact absurd hanswer (by simp [step, hp])
    · exact absurd hanswer (by simp [step, hp])
    · exact ⟨_, _, hp⟩
  · exact absurd heq (by simp)

/-- A receiver that comes joins those who wait, or is gone at once. -/
theorem waits_or_absent (hnone : s.pops.get? name = none) (test : Matcher μ)
    (timeout : Option Nat) : (∃ id box, s.box.pop test = (.waiting id, box)) ∨
      (s.step (.pop name test timeout)).2.pops.get? name = none := by
  rcases hpop : s.box.pop test with ⟨result, box⟩
  cases result with
  | waiting id => exact Or.inl ⟨id, box, rfl⟩
  | _ =>
      right
      simp only [step, hpop]
      exact hnone

/-- When it came it had to wait. -/
theorem waits_of_leavesEmpty (hs : s.Accounted) {before after : List (MailboxOp μ)}
    {op : MailboxOp μ} (hfresh : s.Fresh (before ++ op :: after))
    (h : (s.run before).2.LeavesEmpty name op) {earlier later : List (MailboxOp μ)}
    {test : Matcher μ} {timeout : Option Nat}
    (hsplit : before ++ op :: after = earlier ++ .pop name test timeout :: later) :
    ∃ id box, (s.run earlier).2.box.pop test = (.waiting id, box) := by
  have hknown := (leavesEmpty_step (accounted_run hs hfresh.left) hfresh.right.head h).2.2
  rcases List.append_eq_append_iff.mp hsplit with ⟨mid, rfl, hmid⟩ | ⟨mid, rfl, hmid⟩
  · rcases List.cons_eq_append_iff.mp hmid with ⟨rfl, heq⟩ | ⟨mid', rfl, rfl⟩
    · rw [List.cons.injEq] at heq
      rw [List.append_nil]
      exact waits_of_leavesEmpty_pop (heq.1 ▸ h)
    · refine absurd ?_ (hfresh.right.not_reopened hknown)
      rw [List.flatMap_append, List.flatMap_cons]
      exact List.mem_append_right _ (List.mem_append_left _ List.mem_cons_self)
  · rcases List.cons_eq_append_iff.mp hmid with ⟨rfl, heq⟩ | ⟨mid', rfl, rfl⟩
    · rw [List.cons.injEq] at heq
      rw [List.append_nil] at h
      exact waits_of_leavesEmpty_pop (heq.1 ▸ h)
    · rw [List.append_assoc, List.cons_append] at hfresh
      have hlast := hfresh.right.not_reopened (Or.inl List.mem_cons_self)
      rw [List.flatMap_append, List.flatMap_cons, List.mem_append, List.mem_append, not_or,
        not_or] at hlast
      have hpending := hknown.resolve_left hlast.2.1
      rw [run_append] at hpending
      -- Had it not joined those who wait, it would not have been there to leave.
      rcases waits_or_absent (hfresh.right.head name List.mem_cons_self) test timeout with
        hwaits | hgone
      · exact hwaits
      · exact absurd (absent_run hgone hlast.1) hpending

/-- Nobody notices the receiver of a name. -/
structure Invisible (name : String) (ops : List (MailboxOp μ)) : Prop where
  /-- Whatever is answered to the others is answered to them without it. -/
  answers : (empty : TimedMailbox μ).collect (answersBut name) ops =
    ((empty : TimedMailbox μ).run (without name ops)).1
  /-- At every time the mailbox without it has the same buffer, and the others
      wait in it in the same order. -/
  mailbox : ∀ before after, ops = before ++ after → ∃ g,
    (∀ p, ((empty : TimedMailbox μ).run before).2.pops.get? name = some p → p.id = g) ∧
      Hides name g ((empty : TimedMailbox μ).run before).2
        ((empty : TimedMailbox μ).run (without name before)).2

/-- In the end the number of the receiver is known, or it never came and any number will do. -/
theorem Shadows.hides (h : Shadows name [] s s') (hs : s.Accounted) :
    ∃ g, (∀ p, s.pops.get? name = some p → p.id = g) ∧ Hides name g s s' := by
  rcases h with ⟨rfl, hnone⟩ | ⟨-, g, ho, h⟩
  · refine ⟨s'.box.nextId, fun p hp => ?_, hides_before hs hnone⟩
    exact absurd (hnone.symm.trans hp) (by simp)
  · exact ⟨g, ho.mine, h⟩

/-- Where every receiver has a name of its own, nobody notices one that leaves
    with empty hands. -/
theorem invisible_run {before after : List (MailboxOp μ)} {op : MailboxOp μ} {name : String}
    (hopens : ((before ++ op :: after).flatMap MailboxOp.opens).Nodup)
    (h : ((empty : TimedMailbox μ).run before).2.LeavesEmpty name op) :
    Invisible name (before ++ op :: after) := by
  have hfresh : (empty : TimedMailbox μ).Fresh (before ++ op :: after) :=
    ⟨hopens, fun name _ => Dict.get?_empty name⟩
  rcases leavesEmpty_step (accounted_run accounted_empty hfresh.left) hfresh.right.head h with
    ⟨hgone, hempty, hknown⟩
  -- The same for every first part of the history, so that the states in between correspond too.
  have hrun : ∀ earlier later, before ++ op :: after = earlier ++ later →
      (empty : TimedMailbox μ).collect (answersBut name) earlier =
          ((empty : TimedMailbox μ).run (without name earlier)).1 ∧
        Shadows name [] ((empty : TimedMailbox μ).run earlier).2
          ((empty : TimedMailbox μ).run (without name earlier)).2 := by
    intro earlier later hsplit
    refine shadows_run (Or.inl ⟨rfl, Dict.get?_empty name⟩) accounted_empty
      (hsplit ▸ hfresh).left (fun first second r hfirst => ?_)
      fun first test timeout second hfirst => ?_
    · -- It leaves with empty hands in the end, so it never had an answer on the way.
      rw [hfirst, List.append_assoc] at hsplit
      exact never_answered accounted_empty hfresh hgone hempty hknown hsplit r
    · rw [hfirst, List.append_assoc] at hsplit
      exact waits_of_leavesEmpty accounted_empty hfresh h hsplit
  refine ⟨(hrun _ [] (List.append_nil _).symm).1, fun earlier later hsplit => ?_⟩
  exact (hrun earlier later hsplit).2.hides (accounted_run accounted_empty (hsplit ▸ hfresh).left)

/-- A receiver whose test breaks down waits ahead of another one, and its time
    passes. -/
def passing : List (MailboxOp Nat) :=
  [.push 1, .pop "early" (fun m => if m = 1 then .reject else .panic "no") (some 5),
    .pop "late" (fun m => .ofBool (m = 3)) none, .push 2, .advance 5, .push 3, .poll "late"]

/-- It learns that its time is up, and somebody takes what is left. -/
def passed : List (MailboxOp Nat) := passing ++ .poll "early" :: [.tryPop fun _ => .accept]

/-- The message that makes the test break down is buffered behind its back, as if nobody waited. -/
theorem invisible_passed :
    (passed.flatMap MailboxOp.opens).Nodup ∧
      ((empty : TimedMailbox Nat).run passing).2.LeavesEmpty "early" (.poll "early") ∧
      without "early" passed = [.push 1, .pop "late" (fun m => .ofBool (m = 3)) none, .push 2,
        .advance 5, .push 3, .poll "late", .tryPop fun _ => .accept] ∧
      Invisible "early" passed :=
  ⟨by decide, Or.inl ⟨rfl, rfl⟩, rfl, invisible_run (by decide) (Or.inl ⟨rfl, rfl⟩)⟩

end TimedMailbox

end Actors
