import Actors.Process
import Actors.Proofs.Mailbox.Basic

/-!
# The State of One Process

What holds of a process at every moment, whatever happened to it. A living
process has an open mailbox and has announced nothing. A process that ended
keeps nothing but the reason: it has no partner, watches nobody and is watched
by nobody, and its mailbox is closed with the very reason it reports, which is
never `kill`.

A process changes in three ways: its own receivers come and go, it handles
signals, and it ends. Each of the three keeps this.

A closed mailbox stays as it is, except for the answers that lie ready. This
is why a receiver that gives up after the end of its process does not bring
its message back.

## Main definitions

* `Receive`: What a receiver does.
* `Mailbox.Shut`: The mailbox was closed for a reason and holds nothing.
* `Process.Ended`: What is left of a process that ended.
* `Process.Sound`: A process is either alive and open, or ended.

## Theorems

* `shut_serve`: Receivers change nothing about a closed mailbox.
* `sound_serve`, `sound_die`: A process stays sound.
* `reactAlive_become`, `reactAlive_exit_become`, `reactAlive_die`: What a reaction does to
  a process.
-/

namespace Actors

/-! ## Receivers of a mailbox -/

/-- What a receiver does. -/
inductive Receive (μ : Type) where
  /-- It arrives. -/
  | arrive (test : Matcher μ)
  /-- It looks for its answer, perhaps after its deadline. -/
  | look (id : Nat) (expired : Bool)
  /-- It gives up. -/
  | leave (id : Nat)
  /-- It looks into the buffer once and does not wait. -/
  | glance (test : Matcher μ)

namespace Mailbox

variable {μ : Type}

/-- The mailbox after a receiver did something. -/
def serve (b : Mailbox μ) : Receive μ → Mailbox μ
  | .arrive test => (b.pop test).2
  | .look id expired => (b.poll id expired).2
  | .leave id => b.cancel id
  | .glance test => (b.tryPop test).2

/-- The mailbox was closed for a reason and holds nothing. -/
structure Shut (b : Mailbox μ) (reason : Term) : Prop where
  messages : b.messages = []
  consumers : b.consumers = []
  closed : b.closed = some reason

/-- A mailbox that is cleared is shut. -/
theorem shut_clear (b : Mailbox μ) (reason : Term) : (b.clear reason).Shut reason :=
  ⟨rfl, rfl, rfl⟩

/-- A closed mailbox drops what is delivered to it. -/
theorem deliver_of_closed {b : Mailbox μ} {reason : Term} (h : b.closed = some reason) (m : μ)
    (buffer : List μ → List μ) : b.deliver m buffer = b := by
  rw [deliver, if_pos]
  rw [isClosed, h]
  rfl

/-- Nobody waits at a shut mailbox, so nobody can withdraw. -/
theorem shut_withdraw {b : Mailbox μ} {reason : Term} (h : b.Shut reason) (id : Nat) :
    (b.withdraw id).Shut reason := by
  refine ⟨h.messages, ?_, h.closed⟩
  simp only [withdraw, h.consumers, List.filter_nil]

/-- Answers may still be taken. -/
theorem shut_observe {b : Mailbox μ} {reason : Term} (h : b.Shut reason) (id : Nat) :
    (b.observe id).Shut reason := ⟨h.messages, h.consumers, h.closed⟩

/-- Whatever receivers do, a shut mailbox stays so. -/
theorem shut_serve {b : Mailbox μ} {reason : Term} (h : b.Shut reason) (r : Receive μ) :
    (b.serve r).Shut reason := by
  cases r with
  | arrive test =>
      simp only [serve, pop, h.closed]
      exact h
  | look id expired =>
      rw [serve, poll]
      split
      · exact shut_observe h id
      · split
        · exact shut_withdraw h id
        · exact h
  | leave id =>
      rw [serve, cancel]
      split
      next => exact shut_withdraw h id
      next m _ =>
        -- A closed mailbox takes nothing back.
        have ho := shut_observe h id
        rw [restore, deliver_of_closed ho.closed]
        exact ho
      next => exact shut_observe h id
  | glance test =>
      simp only [serve, tryPop, h.messages, scan]
      exact h

/-- Receivers neither close a mailbox nor open it. -/
@[simp] theorem closed_serve (b : Mailbox μ) (r : Receive μ) : (b.serve r).closed = b.closed := by
  cases r with
  | arrive test =>
      -- In none of the four cases.
      rcases pop_cases b test with ⟨reason, -, hp⟩ | ⟨-, m, others, -, hp⟩ | ⟨-, text, -, hp⟩ |
        ⟨-, -, hp⟩ <;> rw [serve, hp]
  | look id expired =>
      rw [serve, poll]
      split
      · rfl
      · split <;> rfl
  | leave id =>
      rw [serve, cancel]
      split
      next => rfl
      next m _ => exact closed_deliver (b.observe id) m _
      next => rfl
  | glance test =>
      rw [serve, tryPop]
      split <;> rfl

/-- A message does not open a mailbox. -/
@[simp] theorem closed_push (b : Mailbox μ) (m : μ) : (b.push m).closed = b.closed :=
  closed_deliver b m _

end Mailbox

/-! ## Processes -/

namespace Process

/-- What is left of a process that ended for a reason. -/
structure Ended (c : Process) (reason : Term) : Prop where
  links : c.links = ∅
  monitors : c.monitors = ∅
  monitoredBy : c.monitoredBy = ∅
  shut : c.mailbox.Shut reason
  notice : c.exitNotice = some reason
  not_kill : reason ≠ Reason.kill

/-- A process is alive and open, or it ended. -/
structure Sound (c : Process) : Prop where
  alive : c.life = .alive → c.mailbox.closed = none ∧ c.exitNotice = none
  ended : ∀ reason, c.life = .dead reason → c.Ended reason

/-- To be alive is one of the two states of life. -/
theorem isAlive_iff {c : Process} : c.isAlive = true ↔ c.life = .alive := by
  rw [isAlive, decide_eq_true_iff]

/-- Who is not alive ended for some reason. -/
theorem life_of_not_alive {c : Process} (h : c.isAlive = false) :
    ∃ reason, c.life = .dead reason := by
  rcases hl : c.life with _ | reason
  · rw [isAlive_iff.mpr hl] at h
    exact absurd h (by simp)
  · exact ⟨reason, rfl⟩

/-- A new process is alive and open. -/
theorem sound_fresh : fresh.Sound := ⟨fun _ => ⟨rfl, rfl⟩, fun _ h => absurd h (by simp [fresh])⟩

/-- A change that leaves a process alive with an open mailbox keeps it sound. -/
theorem sound_of_alive {c : Process} (ha : c.life = .alive) (hc : c.mailbox.closed = none)
    (hn : c.exitNotice = none) : c.Sound :=
  ⟨fun _ => ⟨hc, hn⟩, fun _ h => absurd (ha.symm.trans h) (by simp)⟩

/-- A process that ends leaves everything behind, and its reason is on record. -/
theorem sound_die (c : Process) (reason : Term) : (c.die (Reason.recorded reason)).Sound := by
  refine ⟨fun h => absurd h (by simp [die]), fun r h => ?_⟩
  rw [die, Life.dead.injEq] at h
  rw [← h]
  exact ⟨rfl, rfl, rfl, Mailbox.shut_clear _ _, rfl, Reason.recorded_ne_kill reason⟩

/-! ## What a process does itself -/

/-- A receiver of the process does something. -/
def serve (c : Process) (r : Receive Term) : Process := { c with mailbox := c.mailbox.serve r }

/-- A receiver may change the mailbox of a process, but opens and closes nothing. -/
theorem sound_serve {c : Process} (h : c.Sound) (r : Receive Term) : (c.serve r).Sound := by
  refine ⟨fun ha => ?_, fun reason hd => ?_⟩
  · rw [serve, Mailbox.closed_serve]
    exact h.alive ha
  · have he := h.ended reason hd
    exact ⟨he.links, he.monitors, he.monitoredBy, Mailbox.shut_serve he.shut r, he.notice,
      he.not_kill⟩

/-- A flag has no bearing on life. -/
theorem sound_setFlag {c : Process} (h : c.Sound) (f : ProcessFlag) (value : Bool) :
    (c.setFlag f value).Sound := by
  cases f
  refine ⟨h.alive, fun reason hd => ?_⟩
  have he := h.ended reason hd
  exact ⟨he.links, he.monitors, he.monitoredBy, he.shut, he.notice, he.not_kill⟩

/-- Nor has the number of handles. -/
theorem sound_handles {c : Process} (h : c.Sound) (k : Nat) :
    ({ c with handles := k } : Process).Sound := by
  refine ⟨h.alive, fun reason hd => ?_⟩
  have he := h.ended reason hd
  exact ⟨he.links, he.monitors, he.monitoredBy, he.shut, he.notice, he.not_kill⟩

/-- A monitor is remembered by the living only. -/
theorem sound_trackMonitor {c : Process} (h : c.Sound) (ref : Ref) (watchee : Pid) :
    (c.trackMonitor ref watchee).Sound := by
  rw [trackMonitor]
  split
  next ha =>
    have ho := h.alive (isAlive_iff.mp ha)
    exact sound_of_alive (isAlive_iff.mp ha) ho.1 ho.2
  next => exact h

/-- A process that ended watches nobody, so it has no monitor to forget. -/
theorem sound_forgetMonitor {c : Process} (h : c.Sound) (ref : Ref) :
    ({ c with monitors := c.monitors.erase ref } : Process).Sound := by
  refine ⟨h.alive, fun reason hd => ?_⟩
  have he := h.ended reason hd
  refine ⟨he.links, ?_, he.monitoredBy, he.shut, he.notice, he.not_kill⟩
  change c.monitors.erase ref = ∅
  rw [he.monitors]
  rfl

/-! ## Reactions -/

/-- A living process outlives an exit signal only if it traps it. It forgets its link with
    the sender and gets a message. -/
theorem reactAlive_exit_become {c c' : Process} {sender : Pid} {reason : Term}
    (h : c.reactAlive sender (.exit reason) = .become c') :
    c.traps reason = true ∧
      c' = { c with links := c.links.erase sender }.receive (exitMessage sender reason) := by
  simp only [reactAlive] at h
  split at h
  next ht =>
    rw [Reaction.become.injEq] at h
    exact ⟨ht, h.symm⟩
  next => exact absurd h (by simp)

/-- A living process that goes on after a signal is alive, has as many handles
    as before, and is still open. -/
theorem reactAlive_become {c c' : Process} {sender : Pid} {s : Signal}
    (h : c.reactAlive sender s = .become c') :
    c'.life = c.life ∧ c'.handles = c.handles ∧ c'.exitNotice = c.exitNotice ∧
      c'.mailbox.closed = c.mailbox.closed := by
  cases s with
  | relay message =>
      rw [reactAlive, Reaction.become.injEq] at h
      rw [← h]
      exact ⟨rfl, rfl, rfl, Mailbox.closed_push _ _⟩
  | exit reason =>
      rw [(reactAlive_exit_become h).2]
      exact ⟨rfl, rfl, rfl, Mailbox.closed_push _ _⟩
  | down ref reason =>
      rw [reactAlive, Reaction.become.injEq] at h
      rw [← h]
      exact ⟨rfl, rfl, rfl, Mailbox.closed_push _ _⟩
  -- All other signals change the relations, and neither life nor mailbox.
  | _ =>
      rw [reactAlive, Reaction.become.injEq] at h
      rw [← h]
      exact ⟨rfl, rfl, rfl, rfl⟩

/-- A living process ends only by an exit signal that it does not trap. It
    first forgets its link with the sender. -/
theorem reactAlive_die {c c' : Process} {sender : Pid} {s : Signal} {reason : Term}
    (h : c.reactAlive sender s = .die c' reason) :
    s = .exit reason ∧ c' = { c with links := c.links.erase sender } ∧
      c.traps reason = false := by
  cases s with
  | exit r =>
      simp only [reactAlive] at h
      split at h
      next => exact absurd h (by simp)
      next ht =>
        rw [Reaction.die.injEq] at h
        rw [← h.1, ← h.2]
        exact ⟨rfl, rfl, Bool.not_eq_true _ ▸ ht⟩
  | _ => exact absurd h (by simp [reactAlive])

/-- A living process does not send answers. -/
theorem reactAlive_ne_answer (c : Process) (sender : Pid) (s s' : Signal) :
    c.reactAlive sender s ≠ .answer s' := by
  cases s with
  | exit r =>
      simp only [reactAlive]
      split <;> simp
  | _ => simp [reactAlive]

/-- Only a living process ends, and only by an exit signal that it does not trap. -/
theorem react_die {c c' : Process} {sender : Pid} {s : Signal} {reason : Term}
    (h : c.react sender s = .die c' reason) :
    c.isAlive = true ∧ s = .exit reason ∧ c' = { c with links := c.links.erase sender } ∧
      c.traps reason = false := by
  rw [react] at h
  split at h
  next ha => exact ⟨ha, reactAlive_die h⟩
  next => cases s <;> exact absurd h (by simp [reactDead])

/-- What a dead process answers. -/
def answerTo : Signal → Option Signal
  | .link => some (.exit Reason.noproc)
  | .monitor ref => some (.down ref Reason.noproc)
  | _ => none

/-- A dead process answers some signals, and lets the others pass without a trace. -/
theorem reactDead_eq (c : Process) (s : Signal) :
    c.reactDead s = match answerTo s with
      | some answer => .answer answer
      | none => .become c := by
  cases s <;> rfl

end Process

end Actors
