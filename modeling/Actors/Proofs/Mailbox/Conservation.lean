import Mathlib.Data.List.Pairwise
import Actors.Proofs.Mailbox.Balance

/-!
# No Message Is Lost or Doubled

A message that came into a mailbox is buffered, or lies ready for one receiver
that has not looked yet, or some receiver has it, or it is gone; and it is gone
only because the mailbox was closed.

The balance of a history says that what was taken in is spread over these four
places. What it does not say is that a message that lies ready is of use to
anybody: the number it lies under must belong to a receiver that can still
look. `Owned` says so, and `answered_step` that nothing takes the message from
there but the receiver itself.

## Main definitions

* `TimedMailbox.Owned`: Every number belongs to a pending receiver.
* `TimedMailbox.Answered`: An answer lies ready for a receiver.
* `TimedMailbox.Holds`: A message lies ready for a receiver.
* `TimedMailbox.places`: The messages of a history, by the place where they are.
* `TimedMailbox.Conserves`: What becomes of the messages of a history.

## Theorems

* `accounted_step`, `accounted_run`: What one step and a history keep.
* `present_of_waiting`: Whoever waits is still there.
* `nextId_run_le`, `words_apart`: How far the numbers of receivers get.
* `answered_step`, `answered_run`: An answer lies ready until its receiver looks
  or gives up.
* `never_answered`: Who leaves without an answer never had one.
* `conserves_run`: Every message that was taken in is in exactly one place.
-/

namespace Actors

variable {μ : Type}

namespace MailboxOp

/-- The name under which an operation brings a receiver. -/
def opens : MailboxOp μ → List String
  | .pop name _ _ => [name]
  | _ => []

/-- In this operation the receiver of a name arrives or looks. -/
def Asks (name : String) : MailboxOp μ → Prop
  | .pop name' _ _ => name' = name
  | .poll name' => name' = name
  | _ => False

end MailboxOp

namespace Mailbox

/-- An answer that lies ready is the one its receiver finds, since no number stands twice among the
    answers. -/
theorem lookup_of_mem_resolved {b : Mailbox μ} (hb : b.Numbered) {id : Nat} {r : Resolution μ}
    (h : (id, r) ∈ b.resolved) : b.resolved.lookup id = some r := by
  have hnodup := hb.apart
  rw [numbers, List.nodup_append] at hnodup
  exact (Dict.mem_entries_iff (d := ⟨b.resolved, hnodup.2.1⟩)).mp h

/-- A message lies ready if it is the answer to somebody. The other answers carry no message. -/
theorem mem_ready_iff {b : Mailbox μ} {m : μ} :
    m ∈ b.ready ↔ ∃ id, (id, Resolution.message m) ∈ b.resolved := by
  rw [ready, List.mem_filterMap]
  constructor
  · rintro ⟨⟨id, r⟩, hr, hm⟩
    cases r with
    | message m' =>
        have heq : m' = m := Option.some.inj hm
        exact ⟨id, heq ▸ hr⟩
    | closed reason => exact absurd hm (by simp [Resolution.message?])
  · rintro ⟨id, h⟩
    exact ⟨(id, .message m), h, rfl⟩

/-- A message that stands once among those that lie ready lies ready for one receiver. -/
theorem eq_of_ready_nodup {b : Mailbox μ} (h : b.ready.Nodup) {id id' : Nat} {m : μ}
    (hid : (id, Resolution.message m) ∈ b.resolved)
    (hid' : (id', Resolution.message m) ∈ b.resolved) : id = id' := by
  -- Two answers with the message would be two places in the list of those that lie ready.
  have hpairs := List.pairwise_filterMap.mp h
  refine Classical.byContradiction fun hne => ?_
  have hsymm : Std.Symm fun x y : Nat × Resolution μ =>
      ∀ a, x.2.message? = some a → ∀ a', y.2.message? = some a' → a ≠ a' :=
    ⟨fun x y hxy a ha a' ha' heq => hxy a' ha' a ha heq.symm⟩
  have hpair : (id, Resolution.message m) ≠ (id', Resolution.message m) :=
    fun heq => hne (congrArg Prod.fst heq)
  exact hpairs.forall hid hid' hpair m rfl m rfl rfl

/-! ## Answers stay where they are -/

/-- A message that arrives takes no answer away. -/
theorem resolved_deliver_subset (b : Mailbox μ) (m : μ) (buffer : List μ → List μ) :
    b.resolved ⊆ (b.deliver m buffer).resolved := by
  intro x hx
  rcases deliver_cases b m buffer with ⟨reason, -, hd⟩ | ⟨-, before, c, after, -, -, -, hd⟩ |
    ⟨-, -, hd⟩ <;> rw [hd]
  · exact hx
  · exact List.mem_append_left _ hx
  · exact hx

/-- A receiver that arrives gets its message at once or waits for it. In both cases the answers of
    the others stay as they are. -/
@[simp] theorem resolved_pop (b : Mailbox μ) (test : Matcher μ) :
    (b.pop test).2.resolved = b.resolved := by
  rcases pop_cases b test with ⟨reason, -, hp⟩ | ⟨-, m, others, -, hp⟩ | ⟨-, text, -, hp⟩ |
    ⟨-, -, hp⟩ <;> rw [hp]

/-- So does one that does not wait. -/
@[simp] theorem resolved_tryPop (b : Mailbox μ) (test : Matcher μ) :
    (b.tryPop test).2.resolved = b.resolved := by
  rcases tryPop_cases b test with ⟨m, others, -, hp⟩ | hp | ⟨text, hp⟩ <;> rw [hp]

/-- Whoever sees an answer takes away his own only. -/
theorem mem_resolved_observe {b : Mailbox μ} {id : Nat} {x : Nat × Resolution μ}
    (hx : x ∈ b.resolved) (hne : x.1 ≠ id) : x ∈ (b.observe id).resolved :=
  List.mem_filter.mpr ⟨hx, decide_eq_true hne⟩

/-- Whoever gives up takes away his own answer only. The message in it may become the answer of
    somebody else. -/
theorem mem_resolved_cancel {b : Mailbox μ} {id : Nat} {x : Nat × Resolution μ}
    (hx : x ∈ b.resolved) (hne : x.1 ≠ id) : x ∈ (b.cancel id).resolved := by
  rcases cancel_cases b id with ⟨-, hc⟩ | ⟨m, -, hc⟩ | ⟨reason, -, hc⟩ <;> rw [hc]
  · exact hx
  · exact resolved_deliver_subset _ m _ (mem_resolved_observe hx hne)
  · exact mem_resolved_observe hx hne

/-- Only to close a mailbox makes it a closed one. -/
theorem closed_pop (b : Mailbox μ) (test : Matcher μ) : (b.pop test).2.closed = b.closed := by
  rcases pop_cases b test with ⟨reason, -, hp⟩ | ⟨-, m, others, -, hp⟩ | ⟨-, text, -, hp⟩ |
    ⟨-, -, hp⟩ <;> rw [hp]

/-- Nor does an attempt that does not wait. -/
theorem closed_tryPop (b : Mailbox μ) (test : Matcher μ) :
    (b.tryPop test).2.closed = b.closed := by
  rcases tryPop_cases b test with ⟨m, others, -, hp⟩ | hp | ⟨text, hp⟩ <;> rw [hp]

/-- Nor does a receiver that looks. -/
theorem closed_poll (b : Mailbox μ) (id : Nat) (expired : Bool) :
    (b.poll id expired).2.closed = b.closed := by
  rcases poll_cases b id expired with ⟨r, -, hp⟩ | ⟨-, hp⟩ | ⟨-, hp⟩ <;> rw [hp] <;> rfl

/-- Nor does one that gives up, whatever it hands back. -/
theorem closed_cancel (b : Mailbox μ) (id : Nat) : (b.cancel id).closed = b.closed := by
  rcases cancel_cases b id with ⟨-, hc⟩ | ⟨m, -, hc⟩ | ⟨reason, -, hc⟩ <;> rw [hc]
  · rfl
  · exact closed_deliver (b.observe id) m _
  · rfl

end Mailbox

namespace TimedMailbox

open Mailbox

/-! ## Names -/

/-- A name that nobody has is taken only by a receiver that arrives. -/
theorem absent_step {s : TimedMailbox μ} {name : String} (h : s.pops.get? name = none)
    {op : MailboxOp μ} (hname : name ∉ op.opens) : (s.step op).2.pops.get? name = none := by
  -- A look can only take a name away, whoever looks.
  have hpoll : ∀ (s : TimedMailbox μ) name' p, s.pops.get? name = none →
      (s.pollPending name' p).2.pops.get? name = none := by
    intro s name' p h
    rcases pollPending_cases s name' p with ⟨r, -, hp⟩ | ⟨-, hp⟩ | ⟨-, hp⟩ <;> rw [hp]
    · rw [Dict.get?_erase, h, ite_self]
    · rw [Dict.get?_erase, h, ite_self]
    · exact h
  cases op with
  | push m => exact h
  | clear reason => exact h
  | advance ms => exact h
  | pop name' test timeout =>
      have hne : name ≠ name' := fun heq => hname (List.mem_singleton.mpr heq)
      rw [step]
      split
      next => exact h
      next => exact h
      next =>
        refine hpoll _ name' _ ?_
        exact (Dict.get?_insert_of_ne s.pops _ hne).trans h
  | poll name' =>
      rw [step]
      split
      next => exact h
      next p _ => exact hpoll s name' p h
  | drop name' =>
      rw [step]
      split
      next => exact h
      next p _ => exact (Dict.get?_erase s.pops name' name).trans (by rw [h, ite_self])
  | tryPop test =>
      rw [step]
      split <;> exact h

/-- Who gives up is gone. -/
theorem absent_drop (s : TimedMailbox μ) (name : String) :
    (s.step (.drop name)).2.pops.get? name = none := by
  rw [step]
  split
  next h => exact h
  next p _ => exact Dict.get?_erase_self s.pops name

/-- A name under which no receiver arrives stays without one. -/
theorem absent_run {s : TimedMailbox μ} {name : String} (h : s.pops.get? name = none)
    {ops : List (MailboxOp μ)} (hname : name ∉ ops.flatMap MailboxOp.opens) :
    (s.run ops).2.pops.get? name = none := by
  induction ops generalizing s with
  | nil => exact h
  | cons op rest ih =>
      rw [List.flatMap_cons, List.mem_append, not_or] at hname
      exact ih (absent_step h hname.1) hname.2

/-! ## Every number has its receiver -/

/-- Every receiver that waits or has an answer is pending under some name. -/
def Owned (s : TimedMailbox μ) : Prop :=
  ∀ id ∈ s.box.numbers, ∃ name p, s.pops.get? name = some p ∧ p.id = id

/-- Whoever is pending stays so while the clock goes on and numbers only disappear. -/
theorem Owned.change {s : TimedMailbox μ} (h : s.Owned) (now : Nat) (box : Mailbox μ)
    (hnumbers : box.numbers ⊆ s.box.numbers) : Owned { s with box, now } :=
  fun id hid => h id (hnumbers hid)

/-- A receiver that leaves must take its number with it. -/
theorem Owned.leave {s : TimedMailbox μ} (h : s.Owned) {name : String} {p : PendingPop}
    (hp : s.pops.get? name = some p) (box : Mailbox μ) (hnumbers : box.numbers ⊆ s.box.numbers)
    (hgone : p.id ∉ box.numbers) : Owned { s with box, pops := s.pops.erase name } := by
  intro id hid
  rcases h id (hnumbers hid) with ⟨name', p', hp', hid'⟩
  have hne : name' ≠ name := by
    intro heq
    rw [heq, hp, Option.some.injEq] at hp'
    rw [← hid', ← hp'] at hid
    exact hgone hid
  exact ⟨name', p', (Dict.get?_erase_of_ne s.pops hne).trans hp', hid'⟩

/-- A receiver that looks keeps its name, or leaves with its number. -/
theorem owned_pollPending {s : TimedMailbox μ} (h : s.Owned) (hn : s.box.Numbered) {name : String}
    {p : PendingPop} (hp : s.pops.get? name = some p) : (s.pollPending name p).2.Owned := by
  rcases pollPending_cases s name p with ⟨r, hr, hq⟩ | ⟨hr, hq⟩ | ⟨-, hq⟩ <;> rw [hq]
  · exact h.leave hp _ (numbers_observe s.box p.id).subset (not_mem_numbers_observe hn hr)
  · exact h.leave hp _ (numbers_withdraw s.box p.id).subset (not_mem_numbers_withdraw hr)
  · exact h

/-- A receiver that gives up leaves with its number. The message that it hands back goes to somebody
    who had a number before. -/
theorem owned_drop {s : TimedMailbox μ} (h : s.Owned) (hn : s.box.Numbered) {name : String}
    {p : PendingPop} (hp : s.pops.get? name = some p) :
    Owned { s with box := s.box.cancel p.id, pops := s.pops.erase name } := by
  have hobserve := (numbers_observe s.box p.id).subset
  rcases cancel_cases s.box p.id with ⟨hr, hc⟩ | ⟨m, hr, hc⟩ | ⟨reason, hr, hc⟩ <;> rw [hc]
  · exact h.leave hp _ (numbers_withdraw s.box p.id).subset (not_mem_numbers_withdraw hr)
  · -- Whoever takes the message that comes back had a number before.
    have hback := numbers_deliver (s.box.observe p.id) m (m :: ·)
    refine h.leave hp _ (fun id hid => hobserve (hback.subset hid)) fun hid => ?_
    exact not_mem_numbers_observe hn hr (hback.subset hid)
  · exact h.leave hp _ hobserve (not_mem_numbers_observe hn hr)

/-- What a mailbox and the receivers pending on it know of each other. -/
structure Accounted (s : TimedMailbox μ) : Prop where
  numbered : s.box.Numbered
  attended : s.Attended
  owned : s.Owned

/-- At first there is nobody to account for. -/
theorem accounted_empty : (empty : TimedMailbox μ).Accounted :=
  ⟨⟨List.nodup_nil, fun _ hid => absurd hid List.not_mem_nil⟩, attended_empty,
    fun _ hid => absurd hid List.not_mem_nil⟩

/-- Every operation keeps each number with some name. Only an arrival brings a new number, and it
    brings the name along. -/
theorem owned_step {s : TimedMailbox μ} (h : s.Accounted) {op : MailboxOp μ}
    (hfresh : ∀ name ∈ op.opens, s.pops.get? name = none) : (s.step op).2.Owned := by
  cases op with
  | push m => exact h.owned.change _ _ (numbers_deliver s.box m _).subset
  | clear reason => exact h.owned.change _ _ (numbers_clear s.box reason).subset
  | advance ms => exact h.owned.change _ _ fun _ hid => hid
  | pop name test timeout =>
      -- Of the four ways a receiver can arrive only the last one leaves it in the mailbox.
      have hnumbered := numbered_pop h.numbered test
      rcases pop_cases s.box test with ⟨reason, -, hp⟩ | ⟨-, m, others, -, hp⟩ | ⟨-, text, -, hp⟩ |
        ⟨-, -, hp⟩ <;> rw [hp] at hnumbered <;> simp only [step, hp]
      · exact h.owned.change _ _ fun _ hid => hid
      · exact h.owned.change _ _ fun _ hid => hid
      · exact h.owned.change _ _ fun _ hid => hid
      · refine owned_pollPending (fun id hid => ?_) hnumbered ((Dict.get?_insert _ _ _ _).trans
          (if_pos rfl))
        rcases List.mem_cons.mp ((numbers_arrive s.box test).mem_iff.mp hid) with rfl | hold
        · exact ⟨name, _, (Dict.get?_insert _ _ _ _).trans (if_pos rfl), rfl⟩
        · rcases h.owned id hold with ⟨name', p', hp', hid'⟩
          -- The newcomer displaces nobody, since its name was free.
          have hne : name' ≠ name := by
            intro heq
            rw [heq, hfresh name List.mem_cons_self] at hp'
            exact absurd hp' (by simp)
          exact ⟨name', p', (Dict.get?_insert_of_ne s.pops _ hne).trans hp', hid'⟩
  | poll name =>
      rw [step]
      split
      next => exact h.owned
      next p hp => exact owned_pollPending h.owned h.numbered hp
  | drop name =>
      rw [step]
      split
      next => exact h.owned
      next p hp => exact owned_drop h.owned h.numbered hp
  | tryPop test =>
      rcases tryPop_cases s.box test with ⟨m, others, -, hp⟩ | hp | ⟨text, hp⟩ <;>
        simp only [step, hp]
      · exact h.owned.change _ _ fun _ hid => hid
      · exact h.owned
      · exact h.owned

/-- What mailbox and receivers know of each other survives every operation that takes no name
    twice. -/
theorem accounted_step {s : TimedMailbox μ} (h : s.Accounted) {op : MailboxOp μ}
    (hfresh : ∀ name ∈ op.opens, s.pops.get? name = none) : (s.step op).2.Accounted :=
  ⟨numbered_step h.numbered op, attended_step h.attended op, owned_step h hfresh⟩

/-- The names under which receivers arrive are new ones, each used once. -/
def Fresh (s : TimedMailbox μ) (ops : List (MailboxOp μ)) : Prop :=
  (ops.flatMap MailboxOp.opens).Nodup ∧
    ∀ name ∈ ops.flatMap MailboxOp.opens, s.pops.get? name = none

/-- The first name is free when its receiver arrives. -/
theorem Fresh.head {s : TimedMailbox μ} {op : MailboxOp μ} {rest : List (MailboxOp μ)}
    (h : s.Fresh (op :: rest)) : ∀ name ∈ op.opens, s.pops.get? name = none :=
  fun name hname => h.2 name (by rw [List.flatMap_cons]; exact List.mem_append_left _ hname)

/-- The other names are still free after the first operation, because it took none of them. -/
theorem Fresh.tail {s : TimedMailbox μ} {op : MailboxOp μ} {rest : List (MailboxOp μ)}
    (h : s.Fresh (op :: rest)) : (s.step op).2.Fresh rest := by
  rcases h with ⟨hnodup, hfresh⟩
  rw [List.flatMap_cons, List.nodup_append] at hnodup
  refine ⟨hnodup.2.1, fun name hname => ?_⟩
  have hold := hfresh name (by rw [List.flatMap_cons]; exact List.mem_append_right _ hname)
  exact absent_step hold fun hop => hnodup.2.2 name hop name hname rfl

/-- Fewer operations take fewer names. -/
theorem Fresh.left {s : TimedMailbox μ} {ops ops' : List (MailboxOp μ)}
    (h : s.Fresh (ops ++ ops')) : s.Fresh ops := by
  rcases h with ⟨hnodup, hfresh⟩
  rw [List.flatMap_append] at hnodup hfresh
  exact ⟨(List.nodup_append.mp hnodup).1, fun name hname =>
    hfresh name (List.mem_append_left _ hname)⟩

/-- The names of the later operations are still free after the earlier ones. -/
theorem Fresh.right {s : TimedMailbox μ} {ops ops' : List (MailboxOp μ)}
    (h : s.Fresh (ops ++ ops')) : (s.run ops).2.Fresh ops' := by
  induction ops generalizing s with
  | nil => exact h
  | cons op rest ih => exact ih h.tail

/-- A name is not taken again by somebody else. -/
theorem Fresh.not_reopened {s : TimedMailbox μ} {op : MailboxOp μ} {rest : List (MailboxOp μ)}
    (h : s.Fresh (op :: rest)) {name : String}
    (hknown : name ∈ op.opens ∨ s.pops.get? name ≠ none) :
    name ∉ rest.flatMap MailboxOp.opens := by
  intro hmem
  rcases hknown with hop | hpending
  · -- Taken just now: then it stands in the list already.
    have hnodup := h.1
    rw [List.flatMap_cons, List.nodup_append] at hnodup
    exact hnodup.2.2 name hop name hmem rfl
  · -- In use before: then it was not free at the start.
    refine hpending (h.2 name ?_)
    rw [List.flatMap_cons]
    exact List.mem_append_right _ hmem

/-- Along a history that takes no name twice, mailbox and receivers know of each other. -/
theorem accounted_run {s : TimedMailbox μ} (h : s.Accounted) {ops : List (MailboxOp μ)}
    (hfresh : s.Fresh ops) : (s.run ops).2.Accounted := by
  induction ops generalizing s with
  | nil => exact h
  | cons op rest ih => exact ih (accounted_step h hfresh.head) hfresh.tail

/-- Whoever stands among those who wait is still there to take a message, for a receiver
    that goes away leaves them first. So a message that finds a receiver always arrives. -/
theorem present_of_waiting {ops : List (MailboxOp μ)}
    (hopens : (ops.flatMap MailboxOp.opens).Nodup) {c : Consumer μ}
    (hc : c ∈ ((empty : TimedMailbox μ).run ops).2.box.consumers) :
    ∃ name p, (empty.run ops).2.pops.get? name = some p ∧ p.id = c.id := by
  have hs := accounted_run accounted_empty ⟨hopens, fun name _ => Dict.get?_empty name⟩
  exact hs.owned c.id (List.mem_append_left _ (List.mem_map_of_mem hc))

/-! ## Numbers that fit into a word -/

/-- Only a receiver that arrives can use up a number, and it uses up one at most. -/
theorem nextId_step_le (s : TimedMailbox μ) (op : MailboxOp μ) :
    (s.step op).2.box.nextId ≤ s.box.nextId + op.opens.length := by
  have hpoll : ∀ (s : TimedMailbox μ) name p, (s.pollPending name p).2.box.nextId = s.box.nextId :=
    fun s name p => by rw [box_pollPending, nextId_poll]
  cases op with
  | push m => exact Nat.le_of_eq (nextId_deliver s.box m _)
  | clear reason => exact Nat.le_refl _
  | advance ms => exact Nat.le_refl _
  | pop name test timeout =>
      have hpop := nextId_pop_le s.box test
      rw [step]
      split
      next hp => rwa [hp] at hpop
      next hp => rwa [hp] at hpop
      next hp =>
        rw [hp] at hpop
        -- The receiver is polled at once, which uses up no further number.
        rw [hpoll]
        exact hpop
  | poll name =>
      rw [step]
      split
      next => exact Nat.le_refl _
      next p _ => exact Nat.le_of_eq (hpoll s name p)
  | drop name =>
      rw [step]
      split
      next => exact Nat.le_refl _
      next p _ => exact Nat.le_of_eq (nextId_cancel s.box p.id)
  | tryPop test =>
      have hnext := nextId_tryPop s.box test
      rw [step]
      split
      next hp => rw [hp] at hnext; exact Nat.le_of_eq hnext
      next hp => rw [hp] at hnext; exact Nat.le_of_eq hnext
      next hp => rw [hp] at hnext; exact Nat.le_of_eq hnext

/-- A history uses up no more numbers than receivers arrive in it. -/
theorem nextId_run_le (s : TimedMailbox μ) (ops : List (MailboxOp μ)) :
    (s.run ops).2.box.nextId ≤ s.box.nextId + (ops.flatMap MailboxOp.opens).length := by
  induction ops generalizing s with
  | nil => exact Nat.le_refl _
  | cons op rest ih =>
      have hstep := nextId_step_le s op
      have hrest := ih (s.step op).2
      rw [List.flatMap_cons, List.length_append]
      change ((s.step op).2.run rest).2.box.nextId ≤ _
      omega

/-- As long as fewer receivers arrived than a word has values, the counter has not come
    around, and the numbers in use are told apart by their words. -/
theorem words_apart {ops : List (MailboxOp μ)}
    (h : (ops.flatMap MailboxOp.opens).length < UInt64.size) :
    let b := ((empty : TimedMailbox μ).run ops).2.box
    b.nextId.toUInt64.toNat = b.nextId ∧ (b.numbers.map Nat.toUInt64).Nodup := by
  intro b
  have hnumbered : b.Numbered := numbered_run accounted_empty.numbered ops
  have hnext : b.nextId < UInt64.size :=
    Nat.lt_of_le_of_lt (nextId_run_le empty ops) (by rwa [show empty.box.nextId = 0 from rfl,
      Nat.zero_add])
  have hword : ∀ n, n < UInt64.size → n.toUInt64.toNat = n :=
    fun n hn => UInt64.toNat_ofNat_of_lt' hn
  refine ⟨hword b.nextId hnext, List.pairwise_map.mpr ?_⟩
  refine hnumbered.apart.imp_of_mem fun {i j} hi hj hne hij => hne ?_
  -- A number in use was given out, so it is as small as the counter.
  have hi' := hword i (Nat.lt_trans (hnumbered.below i hi) hnext)
  have hj' := hword j (Nat.lt_trans (hnumbered.below j hj) hnext)
  rw [← hi', ← hj', hij]

/-! ## An answer that lies ready -/

/-- An answer lies ready for a receiver that has not looked yet. -/
def Answered (s : TimedMailbox μ) (name : String) (r : Resolution μ) : Prop :=
  ∃ p, s.pops.get? name = some p ∧ (p.id, r) ∈ s.box.resolved

/-- An answer that lies ready goes on lying ready as long as no answers are taken away. -/
theorem Answered.change {s : TimedMailbox μ} {name : String} {r : Resolution μ}
    (h : s.Answered name r) (now : Nat) (box : Mailbox μ)
    (hresolved : s.box.resolved ⊆ box.resolved) : Answered { s with box, now } name r := by
  rcases h with ⟨p, hp, hr⟩
  exact ⟨p, hp, hresolved hr⟩

/-- A name in use is not a new one. -/
theorem Answered.not_opened {s : TimedMailbox μ} {name : String} {r : Resolution μ}
    (h : s.Answered name r) {ops : List (MailboxOp μ)} (hfresh : s.Fresh ops) :
    name ∉ ops.flatMap MailboxOp.opens := by
  intro hmem
  rcases h with ⟨p, hp, -⟩
  rw [hfresh.2 name hmem] at hp
  exact absurd hp (by simp)

/-- Another receiver that leaves takes nothing that is not its own. -/
theorem Answered.leave {s : TimedMailbox μ} {name : String} {r : Resolution μ}
    (h : s.Answered name r) (ha : s.Attended) {name' : String} (hne : name ≠ name')
    {p' : PendingPop} (hp' : s.pops.get? name' = some p') (box : Mailbox μ)
    (hresolved : ∀ x ∈ s.box.resolved, x.1 ≠ p'.id → x ∈ box.resolved) :
    Answered { s with box, pops := s.pops.erase name' } name r := by
  rcases h with ⟨p, hp, hr⟩
  have hid : p.id ≠ p'.id := fun heq => hne (ha.apart name name' p p' hp hp' heq)
  exact ⟨p, (Dict.get?_erase_of_ne s.pops hne).trans hp, hresolved _ hr hid⟩

/-- Another receiver that looks leaves this answer where it is. -/
theorem answered_pollPending {s : TimedMailbox μ} {name : String} {r : Resolution μ}
    (h : s.Answered name r) (ha : s.Attended) {name' : String} (hne : name ≠ name')
    {p' : PendingPop} (hp' : s.pops.get? name' = some p') :
    (s.pollPending name' p').2.Answered name r := by
  rcases pollPending_cases s name' p' with ⟨r', -, hq⟩ | ⟨-, hq⟩ | ⟨-, hq⟩ <;> rw [hq]
  · exact h.leave ha hne hp' _ fun x hx hid => mem_resolved_observe hx hid
  · exact h.leave ha hne hp' _ fun x hx _ => hx
  · exact h

/-- A receiver that arrives takes neither the name nor the number of another one, so the answer
    of the other one stays where it is. -/
theorem answered_arrive {s : TimedMailbox μ} {name : String} {r : Resolution μ}
    (h : s.Answered name r) (ha : s.Attended) {name' : String} (hne : name ≠ name')
    (test : Matcher μ) (timeout : Option Nat) :
    (s.step (.pop name' test timeout)).2.Answered name r := by
  have hresolved := resolved_pop s.box test
  rw [step]
  split
  next box hp => exact h.change _ box fun x hx => by rw [hp] at hresolved; rwa [hresolved]
  next box hp => exact h.change _ box fun x hx => by rw [hp] at hresolved; rwa [hresolved]
  next id box hp =>
    rw [hp] at hresolved
    -- The newcomer waits, and looks for an answer of its own right away.
    refine answered_pollPending ?_ (attended_arrive ha hp _) hne
      ((Dict.get?_insert _ _ _ _).trans (if_pos rfl))
    rcases h with ⟨p, hget, hr⟩
    refine ⟨p, (Dict.get?_insert_of_ne s.pops _ hne).trans hget, ?_⟩
    rwa [← hresolved] at hr

/-- The answer that lies ready is the one a receiver sees, and having seen it the receiver is
    gone. There is no second answer under its number that it could see in its place. -/
theorem poll_of_answered {s : TimedMailbox μ} {name : String} {r : Resolution μ}
    (h : s.Answered name r) (hn : s.box.Numbered) :
    (s.step (.poll name)).1 = .result r.result ∧
      (s.step (.poll name)).2.pops.get? name = none := by
  rcases h with ⟨p, hget, hr⟩
  have hlookup := lookup_of_mem_resolved hn hr
  have hstep : s.step (.poll name) = (.result r.result,
      { s with box := s.box.observe p.id, pops := s.pops.erase name }) := by
    rcases pollPending_cases s name p with ⟨r', hr', hq⟩ | ⟨hr', -⟩ | ⟨hr', -⟩
    · rw [hlookup, Option.some.injEq] at hr'
      simp only [step, hget, hq, ← hr']
    · exact absurd (hlookup.symm.trans hr') (by simp)
    · exact absurd (hlookup.symm.trans hr') (by simp)
  rw [hstep]
  exact ⟨rfl, Dict.get?_erase_self _ _⟩

/-- An answer lies ready until its receiver looks and gets it, or gives up. -/
theorem answered_step {s : TimedMailbox μ} {name : String} {r : Resolution μ}
    (h : s.Answered name r) (hn : s.box.Numbered) (ha : s.Attended) {op : MailboxOp μ}
    (hname : name ∉ op.opens) :
    (op ≠ .poll name ∧ (s.step op).2.Answered name r) ∨
    (op = .poll name ∧ (s.step op).1 = .result r.result ∧
      (s.step op).2.pops.get? name = none) ∨
    (op = .drop name ∧ (s.step op).2.pops.get? name = none) := by
  -- For most operations the first of the three cases holds. It is stated once, so that each of them
  -- only has to say why the answer still lies ready.
  have hstays : ∀ {op'}, op' = op → op' ≠ .poll name → (s.step op').2.Answered name r →
      (op ≠ .poll name ∧ (s.step op).2.Answered name r) := by
    rintro op' rfl hne hold
    exact ⟨hne, hold⟩
  cases op with
  | push m' =>
      exact Or.inl (hstays rfl (by simp) (h.change _ _ (resolved_deliver_subset s.box m' _)))
  | clear reason =>
      exact Or.inl (hstays rfl (by simp) (h.change _ _ (List.subset_append_left _ _)))
  | advance ms => exact Or.inl (hstays rfl (by simp) (h.change _ _ fun _ hx => hx))
  | pop name' test timeout =>
      have hne : name ≠ name' := fun heq => hname (List.mem_singleton.mpr heq)
      exact Or.inl (hstays rfl (by simp) (answered_arrive h ha hne test timeout))
  | poll name' =>
      by_cases hne : name = name'
      · rw [← hne]
        exact Or.inr (Or.inl ⟨rfl, poll_of_answered h hn⟩)
      · refine Or.inl (hstays rfl (fun heq => hne (MailboxOp.poll.inj heq).symm) ?_)
        rw [step]
        split
        next => exact h
        next p' hp' => exact answered_pollPending h ha hne hp'
  | drop name' =>
      by_cases hne : name = name'
      · exact Or.inr (Or.inr ⟨by rw [hne], hne ▸ absent_drop s name⟩)
      · refine Or.inl (hstays rfl (by simp) ?_)
        rw [step]
        split
        next => exact h
        next p' hp' =>
          exact h.leave ha hne hp' _ fun x hx hid => mem_resolved_cancel hx hid
  | tryPop test =>
      have hresolved := resolved_tryPop s.box test
      refine Or.inl (hstays rfl (by simp) ?_)
      rw [step]
      split
      next box hp => exact h.change _ box fun x hx => by rw [hp] at hresolved; rwa [hresolved]
      next box hp => exact h.change _ box fun x hx => by rw [hp] at hresolved; rwa [hresolved]
      next box hp => exact h.change _ box fun x hx => by rw [hp] at hresolved; rwa [hresolved]

/-- Over a history an answer lies ready and its receiver does not look, or the receiver is gone in
    the end. Having looked or given up it does not come back, as its name is not taken again. -/
theorem answered_run {s : TimedMailbox μ} {name : String} {r : Resolution μ}
    (h : s.Answered name r) (hs : s.Accounted) {ops : List (MailboxOp μ)} (hfresh : s.Fresh ops) :
    ((∀ op ∈ ops, op ≠ .poll name) ∧ (s.run ops).2.Answered name r) ∨
      (s.run ops).2.pops.get? name = none := by
  induction ops generalizing s with
  | nil => exact Or.inl ⟨fun op hop => absurd hop List.not_mem_nil, h⟩
  | cons op rest ih =>
      have htaken := h.not_opened hfresh
      rw [List.flatMap_cons, List.mem_append, not_or] at htaken
      -- Once the name is without a receiver it remains so for the rest.
      have hgone : (s.step op).2.pops.get? name = none →
          ((s.step op).2.run rest).2.pops.get? name = none := fun hnone => absent_run hnone htaken.2
      rcases answered_step h hs.numbered hs.attended htaken.1 with ⟨hop, hstays⟩ | ⟨-, -, hnone⟩ |
        ⟨-, hnone⟩
      · refine (ih hstays (accounted_step hs hfresh.head) hfresh.tail).imp (fun hrest => ?_) id
        refine ⟨?_, hrest.2⟩
        rw [List.forall_mem_cons]
        exact ⟨hop, hrest.1⟩
      · exact Or.inr (hgone hnone)
      · exact Or.inr (hgone hnone)

/-- A receiver that is gone after a step at which it had no answer never had one. -/
theorem never_answered {s : TimedMailbox μ} (hs : s.Accounted) {name : String}
    {before after : List (MailboxOp μ)} {op : MailboxOp μ}
    (hfresh : s.Fresh (before ++ op :: after))
    (hgone : ((s.run before).2.step op).2.pops.get? name = none)
    (hempty : ∀ r, ¬ (s.run before).2.Answered name r)
    (hknown : name ∈ op.opens ∨ (s.run before).2.pops.get? name ≠ none)
    {earlier later : List (MailboxOp μ)} (hsplit : before ++ op :: after = earlier ++ later)
    (r : Resolution μ) : ¬ (s.run earlier).2.Answered name r := by
  intro hr
  rcases List.append_eq_append_iff.mp hsplit with ⟨mid, rfl, hmid⟩ | ⟨mid, rfl, -⟩
  · rcases List.cons_eq_append_iff.mp hmid with ⟨rfl, -⟩ | ⟨mid', rfl, rfl⟩
    · rw [List.append_nil] at hr
      exact hempty r hr
    · -- It left for good, since its name is not used again.
      have hnew := hfresh.right.not_reopened hknown
      rw [List.flatMap_append, List.mem_append, not_or] at hnew
      have hnone : (s.run (before ++ op :: mid')).2.pops.get? name = none := by
        rw [run_append]
        exact absent_run hgone hnew.1
      rcases hr with ⟨p, hp, -⟩
      exact absurd (hnone.symm.trans hp) (by simp)
  · rw [List.append_assoc] at hfresh
    have hthen := hfresh.right
    rw [run_append] at hempty hknown
    rcases answered_run hr (accounted_run hs hfresh.left) hthen.left with ⟨-, hstill⟩ | hnone
    · exact hempty r hstill
    · -- Who left before this step could not ask in it.
      rcases hknown with hop | hpending
      · refine hr.not_opened hthen ?_
        rw [List.flatMap_append, List.flatMap_cons]
        exact List.mem_append_right _ (List.mem_append_left _ hop)
      · exact hpending hnone

/-! ## A message that lies ready -/

/-- A message lies ready for a receiver that has not looked yet. -/
def Holds (s : TimedMailbox μ) (name : String) (m : μ) : Prop :=
  ∃ p, s.pops.get? name = some p ∧ (p.id, .message m) ∈ s.box.resolved

/-- To hold a message is to have it for an answer. -/
theorem holds_iff {s : TimedMailbox μ} {name : String} {m : μ} :
    s.Holds name m ↔ s.Answered name (.message m) := Iff.rfl

/-- A message lies ready until its receiver looks and gets it, or gives up. -/
theorem holds_step {s : TimedMailbox μ} {name : String} {m : μ} (h : s.Holds name m)
    (hs : s.Accounted) {op : MailboxOp μ} (hname : name ∉ op.opens) :
    (op ≠ .poll name ∧ (s.step op).2.Holds name m) ∨
    (op = .poll name ∧ (s.step op).1 = .result (.ok m) ∧
      (s.step op).2.pops.get? name = none) ∨
    (op = .drop name ∧ (s.step op).2.pops.get? name = none) :=
  answered_step (holds_iff.mp h) hs.numbered hs.attended hname

/-- What holds of answers over a history holds of messages. -/
theorem holds_run {s : TimedMailbox μ} {name : String} {m : μ} (h : s.Holds name m)
    (hs : s.Accounted) {ops : List (MailboxOp μ)} (hfresh : s.Fresh ops) :
    ((∀ op ∈ ops, op ≠ .poll name) ∧ (s.run ops).2.Holds name m) ∨
      (s.run ops).2.pops.get? name = none :=
  answered_run (holds_iff.mp h) hs hfresh

/-- Every message that lies ready does so for a pending receiver. -/
theorem holds_of_mem_ready {s : TimedMailbox μ} (hs : s.Accounted) {m : μ} (h : m ∈ s.box.ready) :
    ∃ name, s.Holds name m := by
  rcases mem_ready_iff.mp h with ⟨id, hm⟩
  have hid : id ∈ s.box.numbers := List.mem_append_right _ (List.mem_map_of_mem hm)
  rcases hs.owned id hid with ⟨name, p, hp, rfl⟩
  exact ⟨name, p, hp, hm⟩

/-! ## Where messages go to -/

/-- What is collected along a history comes from one of its operations, in the state before it. -/
theorem mem_collect {α : Type} {f : TimedMailbox μ → MailboxOp μ → List α} {s : TimedMailbox μ}
    {ops : List (MailboxOp μ)} {x : α} (h : x ∈ s.collect f ops) :
    ∃ before op after, ops = before ++ op :: after ∧ x ∈ f (s.run before).2 op := by
  induction ops generalizing s with
  | nil => exact absurd h List.not_mem_nil
  | cons op rest ih =>
      rcases List.mem_append.mp h with hnow | hlater
      · exact ⟨[], op, rest, rfl, hnow⟩
      · rcases ih hlater with ⟨before, op', after, rfl, hx⟩
        exact ⟨op :: before, op', after, rfl, hx⟩

/-- A mailbox takes in what is sent, except what is sent after it was closed. -/
theorem takesIn_sublist (s : TimedMailbox μ) (ops : List (MailboxOp μ)) :
    (s.collect takesIn ops).Sublist (ops.flatMap MailboxOp.sends) := by
  induction ops generalizing s with
  | nil => exact List.Sublist.refl _
  | cons op rest ih =>
      rw [List.flatMap_cons]
      refine List.Sublist.append ?_ (ih (s.step op).2)
      cases op with
      | push m =>
          rw [takesIn]
          split
          · exact List.nil_sublist _
          · exact List.Sublist.refl _
      | _ => exact List.Sublist.refl _

/-- Whatever the operation, only a clearing closes a mailbox and none opens it. -/
theorem closed_step (s : TimedMailbox μ) (op : MailboxOp μ) :
    (∃ reason, op = .clear reason) ∨ (s.step op).2.box.closed = s.box.closed := by
  -- An arrival and a look both end in a poll, so that is settled first.
  have hpoll : ∀ (s : TimedMailbox μ) name p,
      (s.pollPending name p).2.box.closed = s.box.closed := by
    intro s name p
    rw [box_pollPending]
    exact closed_poll s.box p.id _
  cases op with
  | push m => exact Or.inr (closed_deliver s.box m _)
  | clear reason => exact Or.inl ⟨reason, rfl⟩
  | advance ms => exact Or.inr rfl
  | pop name test timeout =>
      have hpop := closed_pop s.box test
      refine Or.inr ?_
      rw [step]
      split
      next box hp => rwa [hp] at hpop
      next box hp => rwa [hp] at hpop
      next id box hp =>
        rw [hp] at hpop
        exact (hpoll _ name _).trans hpop
  | poll name =>
      refine Or.inr ?_
      rw [step]
      split
      next => rfl
      next p _ => exact hpoll s name p
  | drop name =>
      refine Or.inr ?_
      rw [step]
      split
      next => rfl
      next p _ => exact closed_cancel s.box p.id
  | tryPop test =>
      have hpop := closed_tryPop s.box test
      refine Or.inr ?_
      rw [step]
      split
      next box hp => rwa [hp] at hpop
      next box hp => rwa [hp] at hpop
      next box hp => rwa [hp] at hpop

/-- A mailbox that was open and is closed was cleared in between. -/
theorem exists_clear_of_closed {s : TimedMailbox μ} (hopen : s.box.closed = none)
    {ops : List (MailboxOp μ)} (h : (s.run ops).2.box.closed ≠ none) :
    ∃ reason, MailboxOp.clear reason ∈ ops := by
  induction ops generalizing s with
  | nil => exact absurd hopen h
  | cons op rest ih =>
      rcases closed_step s op with ⟨reason, rfl⟩ | hsame
      · exact ⟨reason, List.mem_cons_self⟩
      · rcases ih (hsame.trans hopen) h with ⟨reason, hmem⟩
        exact ⟨reason, List.mem_cons_of_mem op hmem⟩

/-- A message comes back from a receiver that gives up with the message lying ready. -/
theorem holds_of_mem_regains {s : TimedMailbox μ} {op : MailboxOp μ} {m : μ}
    (h : m ∈ s.regains op) : ∃ name, op = .drop name ∧ s.Holds name m := by
  cases op with
  | drop name =>
      refine ⟨name, rfl, ?_⟩
      rw [regains] at h
      split at h
      next => exact absurd h List.not_mem_nil
      next p hp =>
        rw [Option.mem_toList, Option.bind_eq_some_iff] at h
        rcases h with ⟨r, hr, hm⟩
        cases r with
        | message m' =>
            have heq : m' = m := Option.some.inj hm
            exact ⟨p, hp, mem_resolved_of_lookup (heq ▸ hr)⟩
        | closed reason => exact absurd hm (by simp [Resolution.message?])
  | _ => exact absurd h List.not_mem_nil

/-- A message is discarded when it is buffered at a closing, or when a receiver
    has nobody to give it back to. -/
theorem mem_discards {s : TimedMailbox μ} {op : MailboxOp μ} {m : μ} (h : m ∈ s.discards op) :
    (∃ reason, op = .clear reason ∧ m ∈ s.box.messages) ∨
      ∃ name, op = .drop name ∧ s.Holds name m ∧ s.box.closed ≠ none := by
  cases op with
  | clear reason => exact Or.inl ⟨reason, rfl, h⟩
  | drop name =>
      rw [discards] at h
      split at h
      next hclosed =>
        rcases holds_of_mem_regains h with ⟨name', heq, hm⟩
        rw [← MailboxOp.drop.inj heq] at hm
        exact Or.inr ⟨name, rfl, hm, Option.isSome_iff_ne_none.mp hclosed⟩
      next => exact absurd h List.not_mem_nil
  | _ => exact absurd h List.not_mem_nil

/-! ## A receiver whose time is up -/

/-- A receiver that is told its time is up had no answer and leaves empty-handed, and nothing else
    happens. -/
theorem pollPending_timeout {s : TimedMailbox μ} {name : String} {p : PendingPop}
    (h : (s.pollPending name p).1 = .result (.error .timeout)) :
    s.box.resolved.lookup p.id = none ∧ (s.pollPending name p).2 =
      { s with box := s.box.withdraw p.id, pops := s.pops.erase name } := by
  rcases pollPending_cases s name p with ⟨r, -, hp⟩ | ⟨hr, hp⟩ | ⟨-, hp⟩ <;> rw [hp] at h ⊢
  · cases r <;> exact absurd h (by simp [Resolution.result])
  · exact ⟨hr, rfl⟩
  · exact absurd h (by simp)

/-- A receiver whose time is up had no answer and takes no message. -/
theorem timeout_step {s : TimedMailbox μ} (hs : s.Accounted) {name : String} {op : MailboxOp μ}
    (hfresh : ∀ name ∈ op.opens, s.pops.get? name = none) (hasks : op.Asks name)
    (h : (s.step op).1 = .result (.error .timeout)) :
    (s.step op).2.box.messages = s.box.messages ∧ (s.step op).2.box.ready = s.box.ready ∧
      (s.step op).2.pops.get? name = none ∧ (∀ r, ¬ s.Answered name r) ∧
      (name ∈ op.opens ∨ s.pops.get? name ≠ none) := by
  cases op with
  | pop name' test timeout =>
      have heq : name' = name := hasks
      rw [heq] at h hfresh ⊢
      -- It arrived just now, so there was no pending receiver of this name that could have had an
      -- answer.
      have hnone := hfresh name List.mem_cons_self
      have hempty : ∀ r, ¬ s.Answered name r := by
        rintro r ⟨p, hp, -⟩
        exact absurd (hnone.symm.trans hp) (by simp)
      rcases pop_cases s.box test with ⟨reason, -, hp⟩ | ⟨-, m, others, -, hp⟩ | ⟨-, text, -, hp⟩ |
        ⟨-, -, hp⟩ <;> simp only [step, hp] at h ⊢
      · exact absurd h (by simp)
      · exact absurd h (by simp)
      · exact absurd h (by simp)
      · rw [(pollPending_timeout h).2]
        exact ⟨rfl, rfl, Dict.get?_erase_self _ _, hempty,
          Or.inl List.mem_cons_self⟩
  | poll name' =>
      have heq : name' = name := hasks
      rw [heq] at h ⊢
      rw [step] at h ⊢
      split at h
      next => exact absurd h (by simp)
      next p hp =>
        rcases pollPending_timeout h with ⟨hlookup, hafter⟩
        rw [hafter]
        refine ⟨rfl, rfl, Dict.get?_erase_self _ _, ?_, Or.inr (by simp [hp])⟩
        -- An answer that lay ready would have been found by the look.
        rintro r ⟨p', hp', hr⟩
        rw [hp, Option.some.injEq] at hp'
        rw [← hp'] at hr
        exact absurd ((lookup_of_mem_resolved hs.numbered hr).symm.trans hlookup) (by simp)
  | _ => exact absurd hasks id

/-- A receiver that reports that its time is up never had a message. -/
theorem never_holds_of_timeout {s : TimedMailbox μ} (hs : s.Accounted) {name : String}
    {before after : List (MailboxOp μ)} {op : MailboxOp μ}
    (hfresh : s.Fresh (before ++ op :: after))
    (hasks : op.Asks name) (h : ((s.run before).2.step op).1 = .result (.error .timeout))
    {earlier later : List (MailboxOp μ)} (hsplit : before ++ op :: after = earlier ++ later)
    (m : μ) : ¬ (s.run earlier).2.Holds name m := by
  rcases timeout_step (accounted_run hs hfresh.left) hfresh.right.head hasks h with
    ⟨-, -, hgone, hempty, hknown⟩
  exact never_answered hs hfresh hgone hempty hknown hsplit (.message m)

/-! ## The law -/

/-- The messages of a history, by the place where they are after it: the buffer,
    the answers that lie ready, the answers that were given, and nowhere. -/
def places (ops : List (MailboxOp μ)) : List μ :=
  let (answers, s) := (empty : TimedMailbox μ).run ops
  s.box.messages ++ s.box.ready ++ answers.flatMap MailboxAnswer.messages ++
    empty.collect discards ops

/-- What becomes of the messages of a history. -/
structure Conserves (ops : List (MailboxOp μ)) : Prop where
  /-- What was taken in is spread over the places. -/
  placed : (places ops).Perm (empty.collect takesIn ops)
  /-- Nothing is in two places, or twice in one. -/
  once : (places ops).Nodup
  /-- What lies ready does so for one receiver, which has not looked since and
      gets it when it looks. -/
  held : ∀ m ∈ ((empty : TimedMailbox μ).run ops).2.box.ready, ∃ name,
    (∀ name', (empty.run ops).2.Holds name' m ↔ name' = name) ∧
    (∀ before after, ops = before ++ after → (empty.run before).2.Holds name m →
      ∀ op ∈ after, op ≠ .poll name) ∧
    ((empty.run ops).2.step (.poll name)).1 = .result (.ok m)
  /-- What is gone was buffered when the mailbox was closed, or its receiver gave
      up after that. -/
  discarded : ∀ m ∈ (empty : TimedMailbox μ).collect discards ops, ∃ before op after,
    ops = before ++ op :: after ∧
    ((∃ reason, op = .clear reason ∧ m ∈ (empty.run before).2.box.messages) ∨
      ∃ name reason, op = .drop name ∧ (empty.run before).2.Holds name m ∧
        MailboxOp.clear reason ∈ before)
  /-- A receiver that reports that its time is up takes nothing, and at no time
      had a message. -/
  timeout : ∀ before op after name, ops = before ++ op :: after → op.Asks name →
    (((empty : TimedMailbox μ).run before).2.step op).1 = .result (.error .timeout) →
    ((empty.run before).2.step op).2.box.messages = (empty.run before).2.box.messages ∧
    ((empty.run before).2.step op).2.box.ready = (empty.run before).2.box.ready ∧
    ∀ earlier later m, ops = earlier ++ later → ¬ (empty.run earlier).2.Holds name m

/-- Where every message that is sent is another one and every receiver has a
    name of its own, no message that was taken in is lost or doubled. -/
theorem conserves_run {ops : List (MailboxOp μ)} (hsends : (ops.flatMap MailboxOp.sends).Nodup)
    (hopens : (ops.flatMap MailboxOp.opens).Nodup) : Conserves ops := by
  have hfresh : (empty : TimedMailbox μ).Fresh ops := ⟨hopens, fun name _ => Dict.get?_empty name⟩
  have hs := accounted_run accounted_empty hfresh
  -- The balance of a history says where everything is; that nothing is there twice follows since
  -- nothing was sent twice.
  have hplaced : (places ops).Perm (empty.collect takesIn ops) :=
    accounts_run accounted_empty.numbered ops
  have honce : (places ops).Nodup :=
    hplaced.nodup_iff.mpr (hsends.sublist (takesIn_sublist empty ops))
  -- There remain the messages that lie ready, those that were discarded, and the receivers whose
  -- time is up.
  refine ⟨hplaced, honce, fun m hm => ?_, fun m hm => ?_, ?_⟩
  · rcases holds_of_mem_ready hs hm with ⟨name, hholds⟩
    have hready : ((empty : TimedMailbox μ).run ops).2.box.ready.Nodup := by
      have hleft := (List.nodup_append.mp (List.nodup_append.mp honce).1).1
      exact (List.nodup_append.mp hleft).2.1
    refine ⟨name, fun name' => ⟨?_, fun heq => heq ▸ hholds⟩, ?_, ?_⟩
    · rintro ⟨p', hp', hm'⟩
      rcases hholds with ⟨p, hp, hmem⟩
      exact hs.attended.apart name' name p' p hp' hp (eq_of_ready_nodup hready hm' hmem)
    · rintro before after rfl hearlier
      rw [run_append] at hholds
      rcases holds_run hearlier (accounted_run accounted_empty hfresh.left) hfresh.right with
        ⟨hpolled, -⟩ | hnone
      · exact hpolled
      · rcases hholds with ⟨p, hp, -⟩
        exact absurd (hnone.symm.trans hp) (by simp)
    · have hlook : name ∉ (MailboxOp.poll name : MailboxOp μ).opens := List.not_mem_nil
      rcases holds_step hholds hs hlook with ⟨hne, -⟩ | ⟨-, hanswer, -⟩ | ⟨hdrop, -⟩
      · exact absurd rfl hne
      · exact hanswer
      · exact absurd hdrop (by simp)
  · rcases mem_collect hm with ⟨before, op, after, rfl, hm'⟩
    refine ⟨before, op, after, rfl, (mem_discards hm').imp id ?_⟩
    rintro ⟨name, hop, hholds, hclosed⟩
    rcases exists_clear_of_closed (s := empty) rfl hclosed with ⟨reason, hclear⟩
    exact ⟨name, reason, hop, hholds, hclear⟩
  · rintro before op after name rfl hasks hanswer
    have hbefore := accounted_run accounted_empty hfresh.left
    rcases timeout_step hbefore hfresh.right.head hasks hanswer with ⟨hmessages, hready, -⟩
    exact ⟨hmessages, hready, fun earlier later m hsplit =>
      never_holds_of_timeout accounted_empty hfresh hasks hanswer hsplit m⟩

/-- The mailbox is closed while one message is buffered and another lies ready
    for a receiver, which then gives up. -/
def closing : List (MailboxOp Nat) :=
  [.push 1, .pop "late" (fun m => .ofBool (m = 2)) none, .push 2, .push 3,
    .pop "hasty" (fun _ => .panic "no") none, .pop "idle" (fun _ => .reject) (some 5),
    .tryPop (fun _ => .accept), .advance 5, .poll "idle", .clear .nil, .drop "late"]

/-- One message goes down with the buffer, the other one with the receiver that had it. -/
theorem conserves_closing :
    (closing.flatMap MailboxOp.sends).Nodup ∧ (closing.flatMap MailboxOp.opens).Nodup ∧
      places closing = [1, 3, 2] ∧ Conserves closing :=
  ⟨by decide, by decide, by decide, conserves_run (by decide) (by decide)⟩

end TimedMailbox

end Actors
