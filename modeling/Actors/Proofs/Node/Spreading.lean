import Actors.Proofs.Node.Ageing
import Actors.Proofs.Node.Drain
import Actors.Proofs.Node.Farewells
import Actors.Proofs.Node.Orderly

/-!
# While Exits Spread

What holds from the death of a process until the exits it causes have spread,
at every moment between. The dead are those that were reached so far, and the
queue holds the frontier: an exit signal from a dead process to a process that
was its partner. A process that is still alive has been told of each death in
its neighbourhood once, or will be told by exactly one signal in the queue.
`Spreading` says so about the state before the death and a state since.

A process that dies has by then forgotten the links whose partners told it of
their deaths. It has only one such partner, since it dies when the first one
tells it, and that one need not be told any more.

## Main definitions

* `Node.Doomed`: The processes that die together.
* `Node.Told`: What became of a process that is still alive.
* `Node.Spreading`: What is true while exits spread.
* `Node.Absorbs`: A living process takes a signal as a message.

## Theorems

* `spreading_start`, `spreading_fall`: The first death, and every other one.
* `Spreading.congr`: What has nothing to do with the exits.
* `Told.fall`, `Told.absorb`: What one death and one message do to the account
  of a process.
* `spreading_handle`: A signal is handled.
* `spreading_step`, `spreading_run`: Dispatch keeps `Spreading`.
-/

namespace Actors

open Process (exitMessage downMessage)

namespace Node

/-- The processes that die with a process: itself, and the living partners of
    each of them that do not trap exits. -/
inductive Doomed (n : Node) (p : Pid) : Pid → Prop
  | first : Doomed n p p
  | next {d q : Pid} (hd : Doomed n p d) (hlink : q ∈ n.linksOf d) (hlive : n.lives q = true)
      (htrap : n.trapsExits q = false) : Doomed n p q

/-! ## While the exits spread -/

/-- Whether a process that was alive is dead by now. -/
def fallen (n x : Node) (p : Pid) : Bool := n.lives p && !x.lives p

/-- What became of a process that is still alive, after some messages. -/
structure Told (n x : Node) (reason : Term) (q : Pid) (c c' : Process) (pushed : List Term) :
    Prop where
  trapExit : c'.trapExit = c.trapExit
  mailbox : c'.mailbox = pushed.foldl .push c.mailbox
  /-- It has lost the links with those whose end it was told. -/
  links : ∀ y, y ∈ c'.links ↔ y ∈ c.links ∧ exitMessage y reason ∉ pushed
  /-- It is told of ends only if it traps them. -/
  traps : ∀ y r, exitMessage y r ∈ pushed → r = reason ∧ c.trapExit = true
  /-- It was told once, or will be told by one signal, of each partner that is dead. -/
  count : ∀ y, pushed.count (exitMessage y reason) + x.queue.signals.countP (tells y q) =
    if fallen n x y = true ∧ q ∈ n.linksOf y then 1 else 0

/-- What is true while the exits spread that the death of a process has caused. -/
structure Spreading (n : Node) (p : Pid) (reason : Term) (x : Node) : Prop where
  coherent : x.Coherent
  gone : ∀ q, n.process? q = none → x.process? q = none
  kept : ∀ q c, n.process? q = some c → ∃ c', x.process? q = some c' ∧ c'.handles ≠ 0 ∧
    (c.isAlive = false → c'.life = c.life) ∧
    (c.isAlive = true → c'.isAlive = false → c'.life = .dead reason ∧ n.Doomed p q) ∧
    (c.isAlive = true → c'.isAlive = true → ∃ pushed, Told n x reason q c c' pushed)
  /-- The queue holds exit signals to partners of the dead, and signals that end nobody. -/
  queue : ∀ d ∈ x.queue.signals,
    (d.signal = .exit reason ∧ fallen n x d.sender = true ∧ d.target ∈ n.linksOf d.sender) ∨
    (∃ ref r, d.signal = .down ref r) ∨ ∃ e : Routed, d.signal = .relay e.toTerm

variable {n x x' : Node} {p : Pid} {reason : Term}

theorem fallen_iff {q : Pid} : fallen n x q = true ↔ n.lives q = true ∧ x.lives q = false := by
  rw [fallen, Bool.and_eq_true, Bool.not_eq_true']

/-- A process that is there was there from the start. -/
theorem Spreading.origin (h : Spreading n p reason x) {q : Pid} {c' : Process}
    (hc' : x.process? q = some c') : ∃ c, n.process? q = some c := by
  rcases hc : n.process? q with _ | c
  · rw [h.gone q hc] at hc'
    exact absurd hc' (by simp)
  · exact ⟨c, rfl⟩

/-- Who is alive was alive from the start, and was told of what happened since. -/
theorem Spreading.told (h : Spreading n p reason x) {q : Pid} {c' : Process}
    (hc' : x.process? q = some c') (ha : c'.isAlive = true) :
    ∃ c pushed, n.process? q = some c ∧ c.isAlive = true ∧ Told n x reason q c c' pushed := by
  rcases h.origin hc' with ⟨c, hc⟩
  rcases h.kept q c hc with ⟨c₁, hc₁, -, hdead, -, htold⟩
  rw [hc', Option.some.injEq] at hc₁
  subst hc₁
  -- Nobody comes back to life.
  have halive : c.isAlive = true := by
    by_cases halive : c.isAlive = true
    · exact halive
    · have hlife := hdead (Bool.not_eq_true _ ▸ halive)
      rw [Process.isAlive, hlife, ← Process.isAlive] at ha
      exact ha
  rcases htold halive ha with ⟨pushed, htold⟩
  exact ⟨c, pushed, hc, halive, htold⟩

/-- Who fell was doomed. -/
theorem Spreading.doomed (h : Spreading n p reason x) {q : Pid} (hq : fallen n x q = true) :
    n.Doomed p q := by
  rw [fallen_iff] at hq
  rcases lives_iff.mp hq.1 with ⟨c, hc, ha⟩
  rcases h.kept q c hc with ⟨c', hc', -, -, hdoomed, -⟩
  refine (hdoomed ha ?_).2
  have hnot := hq.2
  rw [lives_of_process? hc'] at hnot
  exact hnot

/-- A quiet node that holds on to all its processes is at the start. -/
theorem spreading_start (hn : n.Coherent) (hheld : n.Held) (hq : n.queue.signals = []) (p : Pid)
    (reason : Term) : Spreading n p reason n := by
  refine ⟨hn, fun _ h => h, ?_, ?_⟩
  · intro q c hc
    have hhandles : c.handles ≠ 0 := by
      rcases hheld q c hc id with hpos | ht
      · exact hpos
      · rcases targets_iff.mp ht with ⟨d, hd, -⟩
        rw [hq] at hd
        exact absurd hd List.not_mem_nil
    refine ⟨c, hc, hhandles, fun _ => rfl, fun ha hd => ?_, fun _ _ => ⟨[], rfl, rfl, ?_, ?_, ?_⟩⟩
    · rw [ha] at hd
      exact absurd hd (by simp)
    · intro y
      simp only [List.not_mem_nil, not_false_eq_true, and_true]
    · exact fun _ _ h => absurd h List.not_mem_nil
    · intro y
      -- Nobody has fallen yet, and nothing is queued.
      have hnot : fallen n n y = false := by rw [fallen, Bool.and_not_self]
      rw [hq, hnot]
      simp only [List.count_nil, List.countP_nil, Bool.false_eq_true, false_and, if_false]
  · intro d hd
    rw [hq] at hd
    exact absurd hd List.not_mem_nil

/-! ## A process falls -/

/-- The one that falls has fallen, if it was alive at the start. -/
theorem fallen_fall (n x : Node) (q y : Pid) (c : Process) (reason : Term) :
    fallen n (x.fall q c reason) y = if y = q then n.lives y else fallen n x y := by
  rw [fallen, lives_fall]
  split
  · rw [Bool.not_false, Bool.and_true]
  · rfl

/-- The one that falls now owes one signal to each living partner. Nobody else
    owes more than before. -/
theorem Told.fall {y q : Pid} {c₀ c₁ c : Process} {pushed : List Term}
    (ht : Told n x reason y c₀ c₁ pushed) (hx : x.Coherent) (hy : x.lives y = true)
    (hstart : n.lives q = true) (hnow : x.lives q = true)
    (hiff : y ∈ c.links ↔ y ∈ n.linksOf q) : Told n (x.fall q c reason) reason y c₀ c₁ pushed := by
  refine ⟨ht.trapExit, ht.mailbox, ht.links, ht.traps, fun z => ?_⟩
  have hcount := ht.count z
  rw [signals_fall, List.countP_append, fallen_fall]
  by_cases hz : z = q
  · subst hz
    have hnot : fallen n x z = false := by rw [fallen, hnow, Bool.not_true, Bool.and_false]
    rw [hnot] at hcount
    rw [if_pos rfl, hstart, count_farewellsOf hx hy]
    simp only [Bool.false_eq_true, false_and, if_false, true_and] at hcount ⊢
    simp only [hiff]
    omega
  · -- The farewells of another one name that one as their sender.
    have hnone : (x.farewellsOf q c reason).countP (tells z y) = 0 := by
      refine countP_tells_of_sender fun d hd => ?_
      rw [sender_of_farewellsOf hd]
      exact Ne.symm hz
    rw [if_neg hz, hnone, Nat.add_zero]
    exact hcount

/-- A doomed process falls. Its links are what they were at the start, as far as
    living partners go. -/
theorem spreading_fall (h : Spreading n p reason x) (hreason : Reason.recorded reason = reason)
    {q : Pid} {c' c : Process} (hc' : x.process? q = some c') (ha : c'.isAlive = true)
    (hd : n.Doomed p q) (hhandles : c.handles = c'.handles)
    (hsub : ∀ y ∈ c.links, y ∈ n.linksOf q)
    (hlinks : ∀ y, x.lives y = true → y ∈ n.linksOf q → y ∈ c.links) :
    Spreading n p reason (x.fall q c reason) := by
  have hstart : n.lives q = true := by
    rcases h.told hc' ha with ⟨c₀, -, hc₀, ha₀, -⟩
    exact lives_of hc₀ ha₀
  refine ⟨?_, fun y hy => ?_, fun y c₀ hc₀ => ?_, fun d hd' => ?_⟩
  · have hcoh := h.coherent.fall hc' c reason
    rwa [hreason] at hcoh
  · rw [process?_fall, h.gone y hy]
    split <;> rfl
  · -- What is true of each process: the one that falls is dead for the reason, and the others are
    -- owed one signal more if it listed them.
    rcases h.kept y c₀ hc₀ with ⟨c₁, hc₁, hpos, hstay, hdie, htold⟩
    by_cases heq : y = q
    · subst heq
      rw [hc', Option.some.injEq] at hc₁
      refine ⟨c.die reason, ?_, ?_, fun hnot => ?_, fun _ _ => ⟨rfl, hd⟩, fun _ hcon => ?_⟩
      · rw [process?_fall, if_pos rfl, hc']
        rfl
      · change c.handles ≠ 0
        rwa [hhandles, hc₁]
      · rw [lives_of_process? hc₀, hnot] at hstart
        exact absurd hstart (by simp)
      · exact absurd hcon (by simp [Process.die, Process.isAlive])
    · refine ⟨c₁, by rw [process?_fall, if_neg heq, hc₁], hpos, hstay, hdie, fun ha₀ ha₁ => ?_⟩
      rcases htold ha₀ ha₁ with ⟨pushed, ht⟩
      have hlive := lives_of hc₁ ha₁
      exact ⟨pushed, ht.fall h.coherent hlive hstart (lives_of hc' ha) ⟨hsub y, hlinks y hlive⟩⟩
  · rw [signals_fall, List.mem_append] at hd'
    rcases hd' with hd' | hd'
    · -- What was queued before. Its sender fell before, or falls now.
      rcases h.queue d hd' with ⟨hs, hf, hl⟩ | hother
      · refine Or.inl ⟨hs, ?_, hl⟩
        rw [fallen_fall]
        split
        · exact (fallen_iff.mp hf).1
        · exact hf
      · exact Or.inr hother
    · -- What it queues itself, to those it listed at the start.
      rcases signal_of_farewellsOf hd' with ⟨hs, hl⟩ | hother
      · rw [sender_of_farewellsOf hd']
        refine Or.inl ⟨hs, ?_, hsub _ hl⟩
        rw [fallen_fall, if_pos rfl, hstart]
      · exact Or.inr hother

/-! ## What has nothing to do with the exits -/

/-- A process is the same in all that counts while the exits spread. -/
structure Unmoved (c c' : Process) : Prop where
  life : c'.life = c.life
  handles : c'.handles = c.handles
  trapExit : c'.trapExit = c.trapExit
  mailbox : c'.mailbox = c.mailbox
  links : ∀ y, y ∈ c'.links ↔ y ∈ c.links

theorem Unmoved.refl (c : Process) : Unmoved c c := ⟨rfl, rfl, rfl, rfl, fun _ => Iff.rfl⟩

/-- Who has fallen is read off who is alive. -/
theorem fallen_congr (h : ∀ q, x'.lives q = x.lives q) (q : Pid) :
    fallen n x' q = fallen n x q := by
  rw [fallen, fallen, h]

/-- A process that changes only in ways that do not count was told of the same ends. -/
theorem Told.congr {q : Pid} {c c₁ c₂ : Process} {pushed : List Term}
    (ht : Told n x reason q c c₁ pushed) (hsame : Unmoved c₁ c₂)
    (hlives : ∀ q, x'.lives q = x.lives q)
    (hcount : ∀ y, x'.queue.signals.countP (tells y q) = x.queue.signals.countP (tells y q)) :
    Told n x' reason q c c₂ pushed := by
  refine ⟨hsame.trapExit.trans ht.trapExit, hsame.mailbox.trans ht.mailbox,
    fun y => (hsame.links y).trans (ht.links y), ht.traps, fun y => ?_⟩
  rw [hcount, fallen_congr hlives]
  exact ht.count y

/-- All processes are the same, and only signals that tell no living process of
    an end left the queue. -/
theorem Spreading.congr (h : Spreading n p reason x) (hcoh : x'.Coherent)
    (hgone : ∀ q, x.process? q = none → x'.process? q = none)
    (hproc : ∀ q c, x.process? q = some c → ∃ c', x'.process? q = some c' ∧ Unmoved c c')
    (hsub : ∀ d ∈ x'.queue.signals, d ∈ x.queue.signals)
    (hcount : ∀ q y, x.lives q = true →
      x'.queue.signals.countP (tells y q) = x.queue.signals.countP (tells y q)) :
    Spreading n p reason x' := by
  have hlives : ∀ q, x'.lives q = x.lives q := by
    intro q
    rcases hc : x.process? q with _ | c
    · rw [Node.lives, Node.lives, hgone q hc, hc]
    · rcases hproc q c hc with ⟨c', hc', hsame⟩
      rw [lives_of_process? hc, lives_of_process? hc', Process.isAlive, hsame.life,
        ← Process.isAlive]
  refine ⟨hcoh, fun q hq => hgone q (h.gone q hq), fun q c hc => ?_, fun d hd => ?_⟩
  · rcases h.kept q c hc with ⟨c₁, hc₁, hpos, hstay, hdie, htold⟩
    rcases hproc q c₁ hc₁ with ⟨c₂, hc₂, hsame⟩
    -- Life and handles are among the things that stay.
    have halive : c₂.isAlive = c₁.isAlive := by
      rw [Process.isAlive, hsame.life, ← Process.isAlive]
    refine ⟨c₂, hc₂, by rwa [hsame.handles], ?_⟩
    rw [hsame.life, halive]
    refine ⟨hstay, hdie, fun ha ha' => ?_⟩
    rcases htold ha ha' with ⟨pushed, ht⟩
    exact ⟨pushed, ht.congr hsame hlives fun y => hcount q y (lives_of hc₁ ha')⟩
  · rw [fallen_congr hlives]
    exact h.queue d (hsub d hd)

/-- A signal for a dead process is passed over. -/
theorem spreading_skip (h : Spreading n p reason x) {d : Delivery}
    (hs : x.queue.signals = d :: x'.queue.signals) (hdead : x.lives d.target = false)
    (hproc : ∀ q, x'.process? q = x.process? q) (hcoh : x'.Coherent) : Spreading n p reason x' := by
  refine h.congr hcoh (fun q hq => (hproc q).trans hq)
    (fun q c hc => ⟨c, (hproc q).trans hc, .refl c⟩) (fun e he => ?_) fun q y hq => ?_
  · rw [hs]
    exact List.mem_cons_of_mem d he
  · have hne : d.target ≠ q := by
      rintro rfl
      rw [hq] at hdead
      exact absurd hdead (by simp)
    rw [hs, List.countP_cons_of_neg (by rw [tells_false_of_target hne]; simp)]

/-- A process changes in ways that have nothing to do with the exits. -/
theorem spreading_update (h : Spreading n p reason x) {q : Pid} {f : Process → Process}
    (hf : ∀ c, Unmoved c (f c)) (hcoh : (x.update q f).Coherent) :
    Spreading n p reason (x.update q f) := by
  refine h.congr hcoh (fun y hy => ?_) (fun y c hc => ?_) (fun _ hd => hd) fun _ _ _ => rfl
  · rw [process?_update, hy]
    split <;> rfl
  · rw [process?_update, hc]
    split
    · exact ⟨f c, rfl, hf c⟩
    · exact ⟨c, rfl, .refl c⟩

/-- Cutting the queue into batches changes nothing. -/
theorem spreading_beginTurn (h : Spreading n p reason x) : Spreading n p reason x.beginTurn := by
  refine h.congr (coherent_step h.coherent .beginTurn) (fun _ hq => hq)
    (fun q c hc => ⟨c, hc, .refl c⟩) (fun d hd => ?_) fun q y _ => ?_
  · rwa [signals_beginTurn] at hd
  · rw [signals_beginTurn]

/-! ## A signal is handled -/

theorem exitMessage_inj {y z : Pid} {r s : Term} :
    exitMessage y r = exitMessage z s ↔ y = z ∧ r = s := by
  simp [exitMessage]

theorem downMessage_ne_exitMessage (ref : Ref) (y z : Pid) (r s : Term) :
    downMessage ref y r ≠ exitMessage z s := by
  simp [exitMessage, downMessage]

theorem toTerm_ne_exitMessage (e : Routed) (y : Pid) (r : Term) :
    e.toTerm ≠ exitMessage y r := by
  simp [exitMessage, Routed.toTerm]

/-- A living process took a signal as a message. The message tells it of an end
    exactly if the signal does. -/
structure Absorbs (reason : Term) (d : Delivery) (c c' : Process) (m : Term) : Prop where
  life : c'.life = c.life
  handles : c'.handles = c.handles
  trapExit : c'.trapExit = c.trapExit
  mailbox : c'.mailbox = c.mailbox.push m
  links : ∀ y, y ∈ c'.links ↔ y ∈ c.links ∧ m ≠ exitMessage y reason
  traps : ∀ y r, m = exitMessage y r → r = reason ∧ c.trapExit = true
  tells : ∀ y, tells y d.target d = true ↔ m = exitMessage y reason

/-- A message that is not about an end, from a signal that is not, is put into
    the mailbox. Which monitors the process has is of no account. -/
theorem absorbs_push (c : Process) (monitors : Dict Ref Pid) {d : Delivery} {m : Term}
    (hs : ∀ r, d.signal ≠ .exit r) (hm : ∀ y r, m ≠ exitMessage y r) :
    Absorbs reason d c { c with monitors, mailbox := c.mailbox.push m } m where
  life := rfl
  handles := rfl
  trapExit := rfl
  mailbox := rfl
  links y := (and_iff_left (hm y reason)).symm
  traps y r heq := absurd heq (hm y r)
  tells y := by
    -- Neither the signal nor the message is about an end.
    constructor
    · intro ht
      rcases (tells_iff.mp ht).1 with ⟨r, hr⟩
      exact absurd hr (hs r)
    · exact fun heq => absurd heq (hm y reason)

/-- An end that is trapped becomes a message, and the link with the dead one is lost. -/
theorem absorbs_exit (c : Process) {d : Delivery} (hs : d.signal = .exit reason)
    (ht : c.trapExit = true) :
    Absorbs reason d c
      { c with
        links := c.links.erase d.sender
        mailbox := c.mailbox.push (exitMessage d.sender reason) }
      (exitMessage d.sender reason) where
  life := rfl
  handles := rfl
  trapExit := rfl
  mailbox := rfl
  links y := by
    rw [ne_eq, exitMessage_inj]
    change y ∈ c.links.erase d.sender ↔ _
    rw [PidSet.mem_erase]
    simp only [and_true, ne_comm (a := y), ne_eq]
  traps y r heq := ⟨(exitMessage_inj.mp heq).2.symm, ht⟩
  tells y := by
    rw [tells_iff, exitMessage_inj]
    constructor
    · exact fun ht => ⟨ht.2.1, rfl⟩
    · exact fun ht => ⟨⟨reason, hs⟩, ht.1, rfl⟩

/-- The message is one more that the process was told, and the signal is one
    less that it will be told by. -/
theorem Told.absorb {d : Delivery} {c c₁ c₂ : Process} {m : Term} {pushed : List Term}
    (ht : Told n x reason d.target c c₁ pushed) (habs : Absorbs reason d c₁ c₂ m)
    (hs : x.queue.signals = d :: x'.queue.signals) (hlives : ∀ q, x'.lives q = x.lives q) :
    Told n x' reason d.target c c₂ (pushed ++ [m]) := by
  refine ⟨habs.trapExit.trans ht.trapExit, ?_, fun y => ?_, fun y r hy => ?_, fun y => ?_⟩
  · rw [List.foldl_append, ← ht.mailbox, habs.mailbox]
    rfl
  · rw [habs.links, ht.links, List.mem_append, List.mem_singleton, not_or, and_assoc]
    exact and_congr_right fun _ => and_congr_right fun _ => ne_comm
  · rw [List.mem_append, List.mem_singleton] at hy
    rcases hy with hy | hy
    · exact ht.traps y r hy
    · rw [← ht.trapExit]
      exact habs.traps y r hy.symm
  · have hcount := ht.count y
    rw [hs, List.countP_cons] at hcount
    rw [fallen_congr hlives, List.count_append, List.count_singleton, ← hcount]
    by_cases hy : m = exitMessage y reason
    · -- One signal less, one message more.
      rw [if_pos ((habs.tells y).mpr hy), if_pos (beq_iff_eq.mpr hy)]
      omega
    · have hnot : ¬ tells y d.target d = true := fun ht' => hy ((habs.tells y).mp ht')
      rw [if_neg hnot, if_neg fun hb => hy (beq_iff_eq.mp hb)]
      omega

/-- A signal is handled by a living process that goes on. What it is told of moves from the queue
    into its mailbox. -/
theorem spreading_absorb (h : Spreading n p reason x) {d : Delivery} {c₁ c₂ : Process} {m : Term}
    (hs : x.queue.signals = d :: x'.queue.signals) (hc₁ : x.process? d.target = some c₁)
    (ha₁ : c₁.isAlive = true)
    (hproc : ∀ q, x'.process? q = if q = d.target then some c₂ else x.process? q)
    (hcoh : x'.Coherent) (habs : Absorbs reason d c₁ c₂ m) : Spreading n p reason x' := by
  have ha₂ : c₂.isAlive = true := by rw [Process.isAlive, habs.life, ← Process.isAlive, ha₁]
  have hlives : ∀ q, x'.lives q = x.lives q := by
    intro q
    rw [Node.lives, hproc]
    split
    next heq => rw [heq, Option.any_some, ha₂, lives_of hc₁ ha₁]
    next => rfl
  refine ⟨hcoh, fun q hq => ?_, fun q c hc => ?_, fun e he => ?_⟩
  · have hnone := h.gone q hq
    rw [hproc, if_neg, hnone]
    intro heq
    rw [heq, hc₁] at hnone
    exact absurd hnone (by simp)
  · rcases h.kept q c hc with ⟨c', hc', hpos, hstay, hdie, htold⟩
    by_cases heq : q = d.target
    · rw [heq, hc₁, Option.some.injEq] at hc'
      subst hc' heq
      refine ⟨c₂, by rw [hproc, if_pos rfl], by rwa [habs.handles], fun hnot => ?_,
        fun _ hnot => ?_, fun ha _ => ?_⟩
      · rw [habs.life]
        exact hstay hnot
      · rw [ha₂] at hnot
        exact absurd hnot (by simp)
      · rcases htold ha ha₁ with ⟨pushed, ht⟩
        exact ⟨pushed ++ [m], ht.absorb habs hs hlives⟩
    · refine ⟨c', by rw [hproc, if_neg heq, hc'], hpos, hstay, hdie, fun ha ha' => ?_⟩
      rcases htold ha ha' with ⟨pushed, ht⟩
      -- The signal that left the queue was for somebody else.
      refine ⟨pushed, ht.congr (.refl c') hlives fun y => ?_⟩
      rw [hs, List.countP_cons_of_neg (by rw [tells_false_of_target (Ne.symm heq)]; simp)]
  · rw [fallen_congr hlives]
    exact h.queue e (by rw [hs]; exact List.mem_cons_of_mem d he)

/-- Nobody loses his last handle while the exits spread. -/
theorem Spreading.reclaim (h : Spreading n p reason x) (q : Pid) : x.reclaim q = x := by
  rcases reclaim_cases x q with ⟨hr, -⟩ | ⟨c', hc', hzero, -⟩
  · exact hr
  · rcases h.origin hc' with ⟨c, hc⟩
    rcases h.kept q c hc with ⟨c₁, hc₁, hpos, -⟩
    rw [hc', Option.some.injEq] at hc₁
    rw [hc₁] at hzero
    exact absurd hzero hpos

/-- No signal in the queue asks for an answer. -/
theorem Spreading.answers (h : Spreading n p reason x) {d : Delivery}
    (hd : d ∈ x.queue.signals) (y : Node) : y.answers d = [] := by
  rw [Node.answers]
  rcases h.queue d hd with ⟨hs, -, -⟩ | ⟨ref, r, hs⟩ | ⟨e, hs⟩ <;> rw [hs] <;> rfl

/-- A living process is told of an end that it does not trap. It loses the link
    with the dead one, and falls. -/
theorem spreading_exit (h : Spreading n p reason x) (hreason : Reason.recorded reason = reason)
    {d : Delivery} {q : Dispatcher} {c₁ : Process} (hs : x.queue.signals = d :: q.signals)
    (hc₁ : x.process? d.target = some c₁) (ha : c₁.isAlive = true)
    (hf : fallen n x d.sender = true) (hl : d.target ∈ n.linksOf d.sender)
    (htraps : c₁.traps reason = false) :
    Spreading n p reason
      ((x.withQueue q).fall d.target { c₁ with links := c₁.links.erase d.sender } reason) := by
  rcases h.told hc₁ ha with ⟨c, pushed, hc, halive, ht⟩
  have htrap : c₁.trapExit = false := by
    have hkill : Reason.isKill reason = false := by
      rw [Bool.eq_false_iff, ne_eq, Reason.isKill_iff, ← hreason]
      exact Reason.recorded_ne_kill reason
    rwa [Process.traps, hkill, Bool.not_false, Bool.and_true] at htraps
  -- It has been told of nothing so far, since it does not trap ends. So its links are untouched.
  have hnone : ∀ y r, exitMessage y r ∉ pushed := by
    intro y r hy
    rw [ht.trapExit, (ht.traps y r hy).2] at htrap
    exact absurd htrap (by simp)
  have hlinks : ∀ y, y ∈ c₁.links ↔ y ∈ n.linksOf d.target := by
    intro y
    rw [ht.links, linksOf_eq hc, and_iff_left (hnone y reason)]
  have hdoomed : n.Doomed p d.target := by
    refine .next (h.doomed hf) hl (lives_of hc halive) ?_
    rw [trapsExits_eq hc, ← ht.trapExit, htrap]
  have hfall := spreading_fall (c := { c₁ with links := c₁.links.erase d.sender }) h hreason hc₁ ha
    hdoomed rfl ?_ ?_
  · -- The signal itself has no more to say, now that its target is dead.
    refine spreading_skip (d := d) hfall ?_ ?_ (fun _ => rfl) ?_
    · rw [signals_fall, signals_fall, hs]
      rfl
    · rw [lives_fall, if_pos rfl]
    · have hcoh := (h.coherent.next hs).fall hc₁ { c₁ with links := c₁.links.erase d.sender } reason
      rwa [hreason] at hcoh
  · intro y hy
    exact (hlinks y).mp (PidSet.mem_erase.mp hy).1
  · intro y hylive hy
    -- The link it loses is with a dead one.
    refine PidSet.mem_erase.mpr ⟨(hlinks y).mpr hy, fun heq => ?_⟩
    rw [heq, (fallen_iff.mp hf).2] at hylive
    exact absurd hylive (by simp)

/-- What a living process makes of a signal of the queue, if it lives on. -/
theorem Spreading.absorbs (h : Spreading n p reason x) {d : Delivery} (hd : d ∈ x.queue.signals)
    {c₁ c₂ : Process} (hr : c₁.reactAlive d.sender d.signal = .become c₂) :
    ∃ m, Absorbs reason d c₁ c₂ m := by
  -- Exits, notices and envelopes are all that can be in the queue.
  rcases h.queue d hd with ⟨hsig, -, -⟩ | ⟨ref, r, hsig⟩ | ⟨e, hsig⟩ <;> rw [hsig] at hr
  · rcases Process.reactAlive_exit_become hr with ⟨htrap, rfl⟩
    rw [Process.traps, Bool.and_eq_true] at htrap
    exact ⟨_, absorbs_exit c₁ hsig htrap.1⟩
  · rw [Process.reactAlive, Process.Reaction.become.injEq] at hr
    subst hr
    exact ⟨_, absorbs_push c₁ (c₁.monitors.erase ref) (d := d) (by simp [hsig])
      fun y r' => downMessage_ne_exitMessage ref d.sender y r r'⟩
  · rw [Process.reactAlive, Process.Reaction.become.injEq] at hr
    subst hr
    exact ⟨_, absorbs_push c₁ c₁.monitors (d := d) (by simp [hsig]) (toTerm_ne_exitMessage e)⟩

/-- A signal of the queue is handled, by the dead, by one that lives on, or by one that falls. -/
theorem spreading_handle (h : Spreading n p reason x) (hreason : Reason.recorded reason = reason)
    {d : Delivery} {q : Dispatcher} (hs : x.queue.signals = d :: q.signals) :
    Spreading n p reason ((x.withQueue q).handle d) := by
  have hmem : d ∈ x.queue.signals := by
    rw [hs]
    exact List.mem_cons_self
  have hcoh := (h.coherent.next hs).handle d
  rcases Option.isSome_iff_exists.mp (h.coherent.targets d hmem) with ⟨c₁, hc₁⟩
  have hc₁' : (x.withQueue q).process? d.target = some c₁ := hc₁
  rcases handle_cases hc₁' with ⟨hdead, hd⟩ | ⟨ha, c₂, hr, hd⟩ | ⟨ha, r, hsig, htraps, hd⟩ <;>
    rw [hd] at hcoh ⊢
  · -- The dead have nothing to say to what is in the queue.
    rw [h.answers hmem] at hcoh ⊢
    refine spreading_skip h hs ?_ (fun _ => rfl) hcoh
    rw [lives_of_process? hc₁, hdead]
  · rcases h.absorbs hmem hr with ⟨m, habs⟩
    refine spreading_absorb h hs hc₁ ha (fun y => ?_) hcoh habs
    rw [process?_update]
    split
    next heq =>
      rw [heq, hc₁']
      rfl
    next => rfl
  · -- Only exit signals end a process, and all of them carry the one reason.
    rcases h.queue d hmem with ⟨hs', hf, hl⟩ | ⟨ref, r', hs'⟩ | ⟨e, hs'⟩ <;> rw [hsig] at hs'
    · rw [Signal.exit.injEq] at hs'
      subst hs'
      rw [hreason]
      exact spreading_exit h hreason hs hc₁ ha hf hl htraps
    · exact absurd hs' (by simp)
    · exact absurd hs' (by simp)

/-! ## One step -/

/-- Whatever dispatch does next, the exits go on spreading in the same way. -/
theorem spreading_step (h : Spreading n p reason x) (hreason : Reason.recorded reason = reason)
    {op : NodeOp} (hop : op.isDispatch = true) : Spreading n p reason (x.step op) := by
  cases op with
  | beginTurn => exact spreading_beginTurn h
  | handleInHand =>
      rw [Node.step]
      rcases handleInHand_cases x with ⟨-, hi⟩ | ⟨d, q, -, hs, hi⟩ <;> rw [hi]
      · exact h
      · have hhandle := spreading_handle h hreason hs
        rw [hhandle.reclaim]
        exact hhandle
  | reorder q links watchers =>
      refine spreading_update h (fun c => ?_) (coherent_step h.coherent (.reorder q links watchers))
      rcases c.reorder_cases links watchers with hr | ⟨hl, -, hr⟩ <;> rw [hr]
      · exact .refl c
      · exact ⟨rfl, rfl, rfl, rfl, fun y => hl.mem_iff⟩
  | _ => exact absurd hop (by simp [NodeOp.isDispatch])

/-- So they do however long it goes on. -/
theorem spreading_run (h : Spreading n p reason x) (hreason : Reason.recorded reason = reason)
    {ops : List NodeOp} (hops : ∀ op ∈ ops, op.isDispatch = true) :
    Spreading n p reason (x.run ops) := by
  induction ops generalizing x with
  | nil => exact h
  | cons op rest ih =>
      exact ih (spreading_step h hreason (hops op List.mem_cons_self))
        fun op' hop' => hops op' (List.mem_cons_of_mem op hop')

end Node

end Actors
