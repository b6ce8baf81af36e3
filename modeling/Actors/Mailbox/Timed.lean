import Actors.Dict
import Actors.Mailbox

/-!
# Mailboxes and Time

A mailbox together with a clock and the receivers that are waiting on it, each
under a name of its own. The clock moves only when it is told to. A receiver
may set a limit to its patience; when the limit has passed it still counts as
waiting, and gets whatever message comes, until it looks at its answer.

Everything that can happen is an operation, so a history is a list of
operations and a law about all histories is an induction over such a list.

## Main definitions

* `TimedMailbox`: A mailbox, a clock, and the waiting receivers by name.
* `MailboxOp`: Something that happens.
* `MailboxAnswer`: What is answered.
* `TimedMailbox.step`: Lets one thing happen.
* `TimedMailbox.run`: Lets some things happen, one after the other.
-/

namespace Actors

/-- A receiver that is waiting. -/
structure PendingPop where
  /-- Its number in the mailbox. -/
  id : Nat
  /-- The time at which its patience ends, if it does. -/
  deadline : Option Nat
deriving DecidableEq, Inhabited, Repr

/-- Whether a deadline has passed. -/
def deadlinePassed (deadline : Option Nat) (now : Nat) : Bool :=
  match deadline with
  | none => false
  | some d => d ≤ now

/-- A mailbox, a clock, and the waiting receivers by name. -/
structure TimedMailbox (μ : Type) where
  /-- The mailbox. -/
  box : Mailbox μ
  /-- The time, in milliseconds. -/
  now : Nat
  /-- The receivers that have not seen their answer, by name. -/
  pops : Dict String PendingPop

/-- Something that happens to a mailbox. -/
inductive MailboxOp (μ : Type) where
  /-- A message arrives. -/
  | push (m : μ)
  /-- The mailbox is closed. -/
  | clear (reason : Term)
  /-- Time passes. -/
  | advance (ms : Nat)
  /-- A receiver arrives, perhaps with a limit to its patience. -/
  | pop (name : String) (test : Matcher μ) (timeout : Option Nat)
  /-- A waiting receiver looks for its answer. -/
  | poll (name : String)
  /-- A waiting receiver gives up. -/
  | drop (name : String)
  /-- A receiver that does not wait. -/
  | tryPop (test : Matcher μ)

/-- What is answered. -/
inductive MailboxAnswer (μ : Type) where
  /-- Nothing. -/
  | none
  /-- The receiver is waiting. -/
  | pending
  /-- There is no such receiver. -/
  | unknown
  /-- The receiver is done. -/
  | result (r : Except ReceiveError μ)
  /-- A test broke down. -/
  | panic (text : String)
  /-- Whether there was a receiver to give up. -/
  | dropped (held : Bool)
  /-- What a receiver that does not wait found. -/
  | found (message : Option μ)

namespace TimedMailbox

variable {μ : Type}

/-- An open, empty mailbox at time zero. -/
def empty : TimedMailbox μ := ⟨.empty, 0, ∅⟩

instance : Inhabited (TimedMailbox μ) := ⟨empty⟩

/-- Lets a waiting receiver look for its answer. -/
def pollPending (s : TimedMailbox μ) (name : String) (p : PendingPop) :
    MailboxAnswer μ × TimedMailbox μ :=
  match s.box.poll p.id (deadlinePassed p.deadline s.now) with
  | (some result, box) => (.result result, { s with box, pops := s.pops.erase name })
  | (none, box) => (.pending, { s with box })

/-- Lets one thing happen. A receiver that has to wait looks for its answer
    once right away, so one without any patience leaves at once. -/
def step (s : TimedMailbox μ) : MailboxOp μ → MailboxAnswer μ × TimedMailbox μ
  | .push m => (.none, { s with box := s.box.push m })
  | .clear reason => (.none, { s with box := s.box.clear reason })
  | .advance ms => (.none, { s with now := s.now + ms })
  | .pop name test timeout =>
      match s.box.pop test with
      | (.done result, box) => (.result result, { s with box })
      | (.panic text, box) => (.panic text, { s with box })
      | (.waiting id, box) =>
          -- The number is kept under the name from here on, for the looks that follow.
          let p : PendingPop := ⟨id, timeout.map (s.now + ·)⟩
          pollPending { s with box, pops := s.pops.insert name p } name p
  | .poll name =>
      match s.pops.get? name with
      | none => (.unknown, s)
      | some p => s.pollPending name p
  | .drop name =>
      match s.pops.get? name with
      | none => (.dropped false, s)
      | some p => (.dropped true, { s with box := s.box.cancel p.id, pops := s.pops.erase name })
  | .tryPop test =>
      match s.box.tryPop test with
      | (.nothing, box) => (.found none, { s with box })
      | (.message m, box) => (.found (some m), { s with box })
      | (.panic text, box) => (.panic text, { s with box })

/-- Lets some things happen, one after the other, and collects the answers. -/
def run (s : TimedMailbox μ) : List (MailboxOp μ) → List (MailboxAnswer μ) × TimedMailbox μ
  | [] => ([], s)
  | op :: rest =>
      let (answer, s') := s.step op
      let (answers, s'') := run s' rest
      (answer :: answers, s'')

end TimedMailbox

end Actors
