import Actors.Failure
import Actors.Verdict

/-!
# Mailboxes

A mailbox holds the messages nobody has asked for yet, oldest first, and the
receivers that are waiting for a message they like, the longest waiting first.
A message that arrives goes to the first waiting receiver that accepts it, or
to the end of the buffer. A receiver that arrives takes the first buffered
message it accepts, or joins the waiting ones. Messages that a receiver passes
over stay where they are.

A receiver that was waiting does not learn at once that it got a message: the
answer lies ready until the receiver looks. Until then the receiver can give
up. A receiver that gives up before it got an answer just leaves; one that
gives up after it got a message returns the message, which is offered to the
others and otherwise goes to the head of the buffer.

Closing a mailbox discards the buffer, answers every waiting receiver with the
reason, and is final: whatever comes later is dropped or refused.

The kind of message is left open. The laws of a mailbox are about which message
goes where, and hold whatever the messages are.

## Main definitions

* `Mailbox`: Buffered messages, waiting receivers, and answers that lie ready.
* `Mailbox.offer`: The first waiting receiver that accepts a message.
* `Mailbox.push`: A message arrives.
* `Mailbox.restore`: A message comes back.
* `Mailbox.scan`: The first buffered message that a test accepts.
* `Mailbox.tryPop`: A receiver that does not wait.
* `Mailbox.pop`: A receiver arrives.
* `Mailbox.poll`: A waiting receiver looks for its answer.
* `Mailbox.cancel`: A waiting receiver gives up.
* `Mailbox.clear`: The mailbox is closed.
-/

namespace Actors

/-- Why a receiver got no message. -/
inductive ReceiveError where
  /-- No message came in time. -/
  | timeout
  /-- The mailbox was closed. -/
  | closed (reason : Term)
deriving DecidableEq, Inhabited, Repr

namespace ReceiveError

/-- The text of an error. -/
def message : ReceiveError → String
  | .timeout => "receive timed out"
  | .closed reason => String.ofList ("mailbox closed: ".toList ++ reason.render)

/-- The error as a failure: closing passes on its reason. -/
def toFailure : ReceiveError → Failure
  | .timeout => .timeout
  | .closed reason => ⟨reason⟩

end ReceiveError

/-- The answer to a waiting receiver. -/
inductive Resolution (μ : Type) where
  /-- Here is a message. -/
  | message (m : μ)
  /-- There will be none. -/
  | closed (reason : Term)
deriving DecidableEq, Inhabited, Repr

/-- The answer as the receiver sees it. -/
def Resolution.result {μ : Type} : Resolution μ → Except ReceiveError μ
  | .message m => .ok m
  | .closed reason => .error (.closed reason)

/-- A waiting receiver. -/
structure Consumer (μ : Type) where
  /-- Tells the receiver from all others of the mailbox. The program counts receivers in
      a word of 64 bits; the number of those that arrived bounds the counter, so below
      2⁶⁴ of them the word and the number say the same. -/
  id : Nat
  /-- Which messages it wants. -/
  matcher : Matcher μ

/-- Messages and the receivers waiting for them. -/
structure Mailbox (μ : Type) where
  /-- The messages nobody has asked for, oldest first. -/
  messages : List μ
  /-- The receivers without an answer, the longest waiting first. -/
  consumers : List (Consumer μ)
  /-- The answers that lie ready, by the receiver they are for. -/
  resolved : List (Nat × Resolution μ)
  /-- The number of the next receiver, which is at most how many have arrived. -/
  nextId : Nat
  /-- Why the mailbox was closed, if it was. -/
  closed : Option Term

namespace Mailbox

variable {μ : Type}

/-- An open mailbox without messages or receivers. -/
def empty : Mailbox μ := ⟨[], [], [], 0, none⟩

instance : Inhabited (Mailbox μ) := ⟨empty⟩

/-- How many messages are buffered. -/
def size (b : Mailbox μ) : Nat := b.messages.length

/-- How many receivers are waiting without an answer. -/
def waiting (b : Mailbox μ) : Nat := b.consumers.length

/-- Whether the mailbox was closed. -/
def isClosed (b : Mailbox μ) : Bool := b.closed.isSome

/-! ## Messages -/

/-- The first of some waiting receivers that accepts a message, and the others.
    A receiver whose test breaks down is passed over.

    Whoever is found takes the message, for it is still there: a receiver that goes away,
    at its deadline or because it is dropped, first leaves those who wait (`withdraw`,
    `cancel`), and only then can nobody hear it any more. -/
def offer (m : μ) : List (Consumer μ) → Option (Nat × List (Consumer μ))
  | [] => none
  | c :: rest =>
      if (c.matcher m).accepts then some (c.id, rest)
      else (offer m rest).map fun (id, others) => (id, c :: others)

/-- Gives a message to the first waiting receiver that accepts it, or puts it
    into the buffer by the given rule. A closed mailbox drops it. -/
def deliver (b : Mailbox μ) (m : μ) (buffer : List μ → List μ) : Mailbox μ :=
  if b.isClosed then b
  else
    match offer m b.consumers with
    | some (id, others) =>
        { b with consumers := others, resolved := b.resolved ++ [(id, .message m)] }
    | none => { b with messages := buffer b.messages }

/-- A message arrives. If nobody takes it, it goes to the end of the buffer. -/
def push (b : Mailbox μ) (m : μ) : Mailbox μ := b.deliver m (· ++ [m])

/-- A message comes back from a receiver that gave up. If nobody else takes it,
    it goes to the head of the buffer. -/
def restore (b : Mailbox μ) (m : μ) : Mailbox μ := b.deliver m (m :: ·)

/-! ## Receivers -/

/-- What a test finds in the buffer. -/
inductive Found (μ : Type) where
  /-- No message is accepted. -/
  | nothing
  /-- The first message that is accepted, and all the others. -/
  | message (m : μ) (others : List μ)
  /-- The test broke down before it accepted a message. -/
  | panic (text : String)

/-- The first of some messages that a test accepts. -/
def scan (test : Matcher μ) : List μ → Found μ
  | [] => .nothing
  | m :: rest =>
      match test m with
      | .accept => .message m rest
      | .panic text => .panic text
      | .reject =>
          -- A test that breaks down later gives nothing, also if it passed over messages before.
          match scan test rest with
          | .message m' others => .message m' (m :: others)
          | other => other

/-- The answer to a receiver that does not wait. -/
inductive TryPop (μ : Type) where
  | nothing
  | message (m : μ)
  | panic (text : String)
deriving DecidableEq, Repr

/-- Takes the first buffered message that a test accepts, without waiting. -/
def tryPop (b : Mailbox μ) (test : Matcher μ) : TryPop μ × Mailbox μ :=
  match scan test b.messages with
  | .nothing => (.nothing, b)
  | .message m others => (.message m, { b with messages := others })
  | .panic text => (.panic text, b)

/-- The answer to a receiver that arrives. -/
inductive Pop (μ : Type) where
  /-- It got a message at once, or learned that there will be none. -/
  | done (result : Except ReceiveError μ)
  /-- Its test broke down; it is not waiting. -/
  | panic (text : String)
  /-- It waits under this number. -/
  | waiting (id : Nat)

/-- A receiver arrives. -/
def pop (b : Mailbox μ) (test : Matcher μ) : Pop μ × Mailbox μ :=
  -- The reason comes before the buffer, which is empty by then.
  match b.closed with
  | some reason => (.done (.error (.closed reason)), b)
  | none =>
      match scan test b.messages with
      | .message m others => (.done (.ok m), { b with messages := others })
      | .panic text => (.panic text, b)
      | .nothing =>
          (.waiting b.nextId,
            { b with consumers := b.consumers ++ [⟨b.nextId, test⟩], nextId := b.nextId + 1 })

/-- Whether an answer lies ready for a receiver. -/
def isResolved (b : Mailbox μ) (id : Nat) : Bool := (b.resolved.lookup id).isSome

/-- Removes a waiting receiver that has no answer. -/
def withdraw (b : Mailbox μ) (id : Nat) : Mailbox μ :=
  { b with consumers := b.consumers.filter fun c => c.id ≠ id }

/-- Takes away the answer that lies ready for a receiver. -/
def observe (b : Mailbox μ) (id : Nat) : Mailbox μ :=
  { b with resolved := b.resolved.filter fun r => r.1 ≠ id }

/-- A waiting receiver looks for its answer. An answer that lies ready wins
    over a deadline that has passed; without one, the receiver leaves at its
    deadline and otherwise goes on waiting. -/
def poll (b : Mailbox μ) (id : Nat) (expired : Bool) : Option (Except ReceiveError μ) × Mailbox μ :=
  match b.resolved.lookup id with
  | some resolution => (some resolution.result, b.observe id)
  | none => if expired then (some (.error .timeout), b.withdraw id) else (none, b)

/-- A waiting receiver gives up. If it had got a message, the message comes back. -/
def cancel (b : Mailbox μ) (id : Nat) : Mailbox μ :=
  match b.resolved.lookup id with
  | none => b.withdraw id
  -- The answer goes first, so the message cannot come back to the receiver that returns it.
  | some (.message m) => (b.observe id).restore m
  | some (.closed _) => b.observe id

/-- The mailbox is closed: the buffer is discarded and every receiver without
    an answer learns the reason. -/
def clear (b : Mailbox μ) (reason : Term) : Mailbox μ :=
  { b with
    messages := []
    consumers := []
    resolved := b.resolved ++ b.consumers.map fun c => (c.id, .closed reason)
    closed := some reason }

/-! ## Text -/

/-- The text of a truth value. -/
def flagText (b : Bool) : List Char := (if b then "true" else "false").toList

/-- The characters of a summary of a mailbox. -/
def render (b : Mailbox μ) : List Char :=
  "MessageBox \x7b messages: ".toList ++ Nat.toDigits 10 b.size ++
    ", consumers: ".toList ++ Nat.toDigits 10 b.waiting ++
    ", closed: ".toList ++ flagText b.isClosed ++ " \x7d".toList

/-- A summary of a mailbox. -/
def debug (b : Mailbox μ) : String := String.ofList b.render

end Mailbox

end Actors
