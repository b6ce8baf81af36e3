import Actors.Proofs.Mailbox.Conservation
import Actors.Proofs.Process

/-!
# Messages That Come Back

Several receivers have been handed a message each, and then they all give up
before they look. What they had comes back to the buffer, where a message that
comes back goes to the head.

One message that comes back to the head is where it was, in front of everything
younger. With several it is the last one to come back that stands first, so
they stand in the reverse of the order in which their receivers gave up. That
is the order of sending only if the receiver of the youngest message gave up
first. What had been buffered all along stands behind them as it stood.

One receiver that gives up touches neither the answers of the others nor those
who wait, which is what the induction over the receivers rests on.

## Main definitions

* `TimedMailbox.Handed`: Some receivers have a message each that nobody else wants.
* `TimedMailbox.giveUps`: They give up, one after the other.

## Theorems

* `drop_of_holds`: One receiver gives up.
* `Handed.drop`: The others still have theirs.
* `put_back_run`: Where the messages stand when all have given up.
* `out_of_order`: They need not stand in the order of sending.
-/

namespace Actors

namespace TimedMailbox

open Mailbox

variable {μ : Type}

/-- Some receivers have been handed a message each and have not looked, and
    nobody who waits accepts any of these messages. -/
structure Handed (s : TimedMailbox μ) (back : List (String × μ)) : Prop where
  /-- They are different receivers. -/
  names : (back.map Prod.fst).Nodup
  /-- Each has its message. -/
  holds : ∀ x ∈ back, s.Holds x.1 x.2
  /-- Nobody else wants it. -/
  refused : ∀ x ∈ back, ∀ c ∈ s.box.consumers, (c.matcher x.2).accepts = false

/-- It does not matter in which order they are named. -/
theorem Handed.perm {s : TimedMailbox μ} {back back' : List (String × μ)} (h : s.Handed back)
    (hperm : back.Perm back') : s.Handed back' where
  names := (hperm.map Prod.fst).nodup_iff.mp h.names
  holds x hx := h.holds x (hperm.mem_iff.mpr hx)
  refused x hx := h.refused x (hperm.mem_iff.mpr hx)

/-- Some receivers give up, one after the other. -/
def giveUps (back : List (String × μ)) : List (MailboxOp μ) := back.map fun x => .drop x.1

/-- A receiver that gives up with a message nobody else wants leaves the message
    at the head of the buffer, unless the mailbox is closed. -/
theorem drop_of_holds {s : TimedMailbox μ} (hn : s.box.Numbered) {name : String} {m : μ}
    (h : s.Holds name m) (hrefused : ∀ c ∈ s.box.consumers, (c.matcher m).accepts = false) :
    (s.step (.drop name)).2.box.messages =
        (if s.box.isClosed then [] else [m]) ++ s.box.messages ∧
      (s.step (.drop name)).2.box.consumers = s.box.consumers ∧
      (s.step (.drop name)).2.box.isClosed = s.box.isClosed := by
  rcases h with ⟨p, hp, hm⟩
  have hcancel : s.box.cancel p.id = (s.box.observe p.id).restore m := by
    rw [cancel, lookup_of_mem_resolved hn hm]
  simp only [step, hp, hcancel, restore]
  -- Whether the mailbox has been closed decides where the message goes.
  rcases hclosed : s.box.closed with _ | reason
  · rw [deliver_of_refused (b := s.box.observe p.id) hclosed hrefused, isClosed, hclosed]
    exact ⟨rfl, rfl, hclosed ▸ rfl⟩
  · rw [deliver_of_closed (b := s.box.observe p.id) hclosed, isClosed, hclosed]
    exact ⟨rfl, rfl, hclosed ▸ rfl⟩

/-- When one of them has given up, the others still have their messages. -/
theorem Handed.drop {s : TimedMailbox μ} (hs : s.Accounted) {x : String × μ}
    {rest : List (String × μ)} (h : s.Handed (x :: rest)) :
    (s.step (.drop x.1)).2.Handed rest := by
  have hnames := List.nodup_cons.mp h.names
  have hconsumers := (drop_of_holds hs.numbered (h.holds x List.mem_cons_self)
    (h.refused x List.mem_cons_self)).2.1
  refine ⟨hnames.2, fun y hy => ?_, fun y hy => ?_⟩
  · have hne : x.1 ≠ y.1 := fun heq => hnames.1 (heq ▸ List.mem_map_of_mem hy)
    have hy' := h.holds y (List.mem_cons_of_mem x hy)
    have hnot : y.1 ∉ (MailboxOp.drop x.1 : MailboxOp μ).opens := List.not_mem_nil
    rcases holds_step hy' hs hnot with ⟨-, hstill⟩ | ⟨heq, -⟩ | ⟨heq, -⟩
    · exact hstill
    · exact absurd heq (by simp)
    · exact absurd (MailboxOp.drop.inj heq) hne
  · rw [hconsumers]
    exact h.refused y (List.mem_cons_of_mem x hy)

/-- Who gives up does not arrive. -/
theorem opens_giveUps (back : List (String × μ)) :
    (giveUps back).flatMap MailboxOp.opens = [] :=
  List.flatMap_eq_nil_iff.mpr fun op hop => by
    rcases List.mem_map.mp hop with ⟨x, -, rfl⟩
    rfl

/-- What is in the buffer, and who waits, when some receivers have given up that
    had been handed a message each. -/
theorem put_back {s : TimedMailbox μ} (hs : s.Accounted) {back : List (String × μ)}
    (h : s.Handed back) :
    (s.run (giveUps back)).2.box.messages =
        (if s.box.isClosed then [] else (back.map Prod.snd).reverse) ++ s.box.messages ∧
      (s.run (giveUps back)).2.box.consumers = s.box.consumers ∧
      ∀ x ∈ back, (s.run (giveUps back)).2.pops.get? x.1 = none := by
  induction back generalizing s with
  | nil => exact ⟨by simp [giveUps, run], rfl, fun x hx => absurd hx List.not_mem_nil⟩
  | cons x rest ih =>
      have hx := h.holds x List.mem_cons_self
      rcases drop_of_holds hs.numbered hx (h.refused x List.mem_cons_self) with
        ⟨hmessages, hconsumers, hclosed⟩
      have hs' : (s.step (.drop x.1)).2.Accounted :=
        accounted_step hs fun _ hname => absurd hname List.not_mem_nil
      rcases ih hs' (h.drop hs) with ⟨hrest, hwait, hgone⟩
      refine ⟨?_, hwait.trans hconsumers, ?_⟩
      · -- What comes back now stands behind what comes back later.
        refine hrest.trans ?_
        rw [hmessages, hclosed, List.map_cons, List.reverse_cons]
        split
        · rfl
        · rw [List.append_assoc]
      · have hrun : (s.run (giveUps (x :: rest))).2.pops.get? x.1 = none :=
          absent_run (absent_drop s x.1) (opens_giveUps rest ▸ List.not_mem_nil)
        exact List.forall_mem_cons.mpr ⟨hrun, hgone⟩

/-- Where some receivers have been handed a message each that nobody else wants,
    and they all give up before they look, in whatever order, the messages stand
    at the head of the buffer in the reverse of that order, in front of what was
    buffered before. Where the mailbox has been closed they are gone. -/
theorem put_back_run {ops : List (MailboxOp μ)} (hopens : (ops.flatMap MailboxOp.opens).Nodup)
    {back : List (String × μ)} (h : ((empty : TimedMailbox μ).run ops).2.Handed back) :
    ((empty : TimedMailbox μ).run (ops ++ giveUps back)).2.box.messages =
        (if ((empty : TimedMailbox μ).run ops).2.box.isClosed then []
          else (back.map Prod.snd).reverse) ++ ((empty : TimedMailbox μ).run ops).2.box.messages ∧
      ((empty : TimedMailbox μ).run (ops ++ giveUps back)).2.box.consumers =
        ((empty : TimedMailbox μ).run ops).2.box.consumers ∧
      ∀ x ∈ back, ((empty : TimedMailbox μ).run (ops ++ giveUps back)).2.pops.get? x.1 = none := by
  have hfresh : (empty : TimedMailbox μ).Fresh ops := ⟨hopens, fun name _ => Dict.get?_empty name⟩
  rw [run_append]
  exact put_back (accounted_run accounted_empty hfresh) h

/-- Two receivers are handed the messages 2 and 3, in this order, while 1 is
    buffered and a third receiver waits for 9. -/
def twoHanded : List (MailboxOp Nat) :=
  [.push 1, .pop "a" (fun m => .ofBool (m = 2)) none, .pop "b" (fun m => .ofBool (m = 3)) none,
    .pop "c" (fun m => .ofBool (m = 9)) none, .push 2, .push 3]

/-- Both have a message that the third one does not want. -/
theorem handed_twoHanded :
    ((empty : TimedMailbox Nat).run twoHanded).2.Handed [("b", 3), ("a", 2)] where
  names := by decide
  holds := by
    rw [List.forall_mem_cons, List.forall_mem_cons]
    exact ⟨⟨⟨1, none⟩, rfl, by decide⟩, ⟨⟨0, none⟩, rfl, by decide⟩, by simp⟩
  refused := by decide

/-- The receiver of the younger message gives up first, and the order is kept. -/
theorem put_back_twoHanded :
    (twoHanded.flatMap MailboxOp.opens).Nodup ∧
      ((empty : TimedMailbox Nat).run twoHanded).2.Handed [("b", 3), ("a", 2)] ∧
      ((empty : TimedMailbox Nat).run
        (twoHanded ++ giveUps [("b", 3), ("a", 2)])).2.box.messages = [2, 3, 1] :=
  ⟨by decide, handed_twoHanded, (put_back_run (by decide) handed_twoHanded).1⟩

/-- The receiver of the older message gives up first, and the message that was
    sent last stands in front. -/
theorem out_of_order :
    ((empty : TimedMailbox Nat).run twoHanded).2.Handed [("a", 2), ("b", 3)] ∧
      [2, 3].Sublist (twoHanded.flatMap MailboxOp.sends) ∧
      ((empty : TimedMailbox Nat).run
        (twoHanded ++ giveUps [("a", 2), ("b", 3)])).2.box.messages = [3, 2, 1] ∧
      ¬ [2, 3].Sublist [3, 2, 1] :=
  ⟨handed_twoHanded.perm (by decide), by decide, rfl, by decide⟩

end TimedMailbox

end Actors
