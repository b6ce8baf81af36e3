import Actors.Proofs.Node.Moves

/-!
# Nobody Comes Back

What can still become of a process whose name was given out. It may be alive
and stay so, it may die, and it may disappear; it never comes back from either,
and the reason it died for never changes. `Ages` says this about two states of
a node of which the second came later.

The relation speaks of spent names only. A name that was not given out yet may
of course get a process.

## Main definitions

* `Node.Ages`: The second state came after the first.
* `Node.Issued`: A name was given out by a node.

## Theorems

* `ages_step`, `ages_run`: Whatever happens, a node ages.
* `Ages.lives`: Who is alive was alive before.
* `Ages.reason`: A reason stays what it was.
* `issued_of_collect`: What a run gave out was given out.
* `life_eq_dead_iff`: The dead are those that the run ended, for the reasons it gave.
-/

namespace Actors

namespace Node

/-- The second state came after the first. -/
structure Ages (n n' : Node) : Prop where
  /-- The incarnation stays. -/
  creation : n'.creation = n.creation
  /-- A name that was given out stays given out. -/
  spent : ∀ id serial, n.table.Spent id serial → n'.table.Spent id serial
  /-- A process was there before, and alive or in the same state of death. -/
  past : ∀ p c', n.table.Spent p.id p.serial → n'.process? p = some c' →
    ∃ c, n.process? p = some c ∧ (c.isAlive = true ∨ c'.life = c.life)

variable {n n' n'' : Node}

theorem Ages.refl (n : Node) : n.Ages n :=
  ⟨rfl, fun _ _ h => h, fun _ c' _ hc => ⟨c', hc, Or.inr rfl⟩⟩

/-- To age twice is to age. A process of the last state was there in the first, because the name was
    given out all the way. -/
theorem Ages.trans (h : n.Ages n') (h' : n'.Ages n'') : n.Ages n'' := by
  refine ⟨h'.creation.trans h.creation, fun i s hs => h'.spent i s (h.spent i s hs), ?_⟩
  intro p c'' hs hc''
  -- The name was given out at first, so it was given out in between.
  rcases h'.past p c'' (h.spent _ _ hs) hc'' with ⟨c', hc', ha' | hl'⟩
  · rcases h.past p c' hs hc' with ⟨c, hc, ha | hl⟩
    · exact ⟨c, hc, Or.inl ha⟩
    · rw [Process.isAlive, hl, ← Process.isAlive] at ha'
      exact ⟨c, hc, Or.inl ha'⟩
  · rcases h.past p c' hs hc' with ⟨c, hc, ha | hl⟩
    · exact ⟨c, hc, Or.inl ha⟩
    · exact ⟨c, hc, Or.inr (hl'.trans hl)⟩

/-- Who is alive was alive before. -/
theorem Ages.lives (h : n.Ages n') {p : Pid} (hs : n.table.Spent p.id p.serial)
    (hl : n'.lives p = true) : n.lives p = true := by
  rcases lives_iff.mp hl with ⟨c', hc', ha'⟩
  rcases h.past p c' hs hc' with ⟨c, hc, ha | hlife⟩
  · exact lives_of hc ha
  · rw [Process.isAlive, hlife, ← Process.isAlive] at ha'
    exact lives_of hc ha'

/-- The reason of a process stays what it was. -/
theorem Ages.reason (h : n.Ages n') (hn : n.Coherent) {p : Pid} {c c' : Process} {reason : Term}
    (hc : n.process? p = some c) (hr : c.life = .dead reason) (hc' : n'.process? p = some c') :
    c'.life = .dead reason := by
  rcases h.past p c' (hn.spent p c hc) hc' with ⟨c₁, hc₁, ha | hlife⟩
  · rw [hc, Option.some.injEq] at hc₁
    rw [Process.isAlive_iff, ← hc₁, hr] at ha
    exact absurd ha (by simp)
  · rw [hc, Option.some.injEq] at hc₁
    rw [hlife, ← hc₁, hr]

/-! ## Whatever happens, a node ages -/

/-- A change that gives out no name and wakes nobody up. -/
theorem ages_of (hcreation : n'.creation = n.creation) (htable : n'.table = n.table)
    (hpast : ∀ p c', n'.process? p = some c' →
      ∃ c, n.process? p = some c ∧ (c.isAlive = true ∨ c'.life = c.life)) : n.Ages n' := by
  refine ⟨hcreation, fun i s hs => ?_, fun p c' _ => hpast p c'⟩
  rwa [htable]

/-- The signals that are in flight are no part of anybody's life. -/
theorem ages_withQueue (n : Node) (q : Dispatcher) : n.Ages (n.withQueue q) :=
  ages_of rfl rfl fun _ c' hc' => ⟨c', hc', Or.inr rfl⟩

/-- A change of one process is no harm if that process was alive, or keeps its state of life. -/
theorem ages_update {p : Pid} {f : Process → Process}
    (hf : ∀ c, n.process? p = some c → c.isAlive = true ∨ (f c).life = c.life) :
    n.Ages (n.update p f) := by
  refine ages_of rfl rfl fun q c' hc' => ?_
  rcases process?_of_update hc' with ⟨c, rfl, hc, rfl⟩ | ⟨-, hold⟩
  · exact ⟨c, hc, hf c hc⟩
  · exact ⟨c', hold, Or.inr rfl⟩

/-- To be held by one less changes no life. -/
theorem ages_loosen (n : Node) (p : Pid) : n.Ages (n.loosen p) :=
  ages_update fun _ _ => Or.inr rfl

/-- A slot that is given back is not a name that was never given out. -/
theorem ages_release (n : Node) (h : n.table.Sound) (p : Pid) : n.Ages (n.release p) := by
  refine ⟨rfl, fun i s hs => ?_, fun q c' _ hc' => ⟨c', hc', Or.inr rfl⟩⟩
  exact (ProcessTable.spent_remove h p.id p.serial i s).mpr hs

/-- Who dies was alive, and nobody else is touched. -/
theorem ages_fall (h : n.table.Sound) {p : Pid} {c₀ : Process} (hp : n.process? p = some c₀)
    (ha : c₀.isAlive = true) (c : Process) (reason : Term) : n.Ages (n.fall p c reason) := by
  have hdie : n.Ages (n.update p fun _ => c.die reason) := by
    refine ages_update fun c₁ hc₁ => Or.inl ?_
    rw [hp, Option.some.injEq] at hc₁
    rwa [← hc₁]
  -- The farewells go to the queue before the slot is freed, and neither is seen here.
  have hqueue : n.Ages ((n.update p fun _ => c.die reason).queueAll (n.farewellsOf p c reason)) :=
    ⟨hdie.creation, hdie.spent, hdie.past⟩
  refine hqueue.trans (ages_release _ ?_ p)
  exact h

/-- A process that nobody holds may disappear, and takes nobody along. -/
theorem ages_reclaim (n : Node) (h : n.table.Sound) (p : Pid) : n.Ages (n.reclaim p) := by
  have hforget : n.Ages (n.forget p) :=
    ages_of rfl rfl fun q c' hc' => ⟨c', (process?_of_forget hc').2, Or.inr rfl⟩
  rcases reclaim_cases n p with ⟨hr, -⟩ | ⟨c, -, -, -, ⟨-, hr⟩ | ⟨-, hr⟩⟩ <;> rw [hr]
  · exact .refl n
  · refine hforget.trans (ages_release _ ?_ p)
    exact h
  · exact hforget

/-- A signal finds its target dead, or alive. A dead target stays as it is, and a living one may
    become anything. -/
theorem ages_handle (n : Node) (h : n.table.Sound) (d : Delivery) : n.Ages (n.handle d) := by
  rcases hc : n.process? d.target with _ | c
  · rw [handle_of_none hc]
    exact .refl n
  · rcases handle_cases hc with ⟨-, hd⟩ | ⟨ha, c', -, hd⟩ | ⟨ha, reason, -, -, hd⟩ <;> rw [hd]
    · exact ages_of rfl rfl fun q c' hc' => ⟨c', hc', Or.inr rfl⟩
    · refine ages_update fun c₁ hc₁ => Or.inl ?_
      rw [hc, Option.some.injEq] at hc₁
      rwa [← hc₁]
    · exact ages_fall h hc ha _ _

/-- One move. Only a birth brings a process that was not there, and it has a new name. -/
theorem ages_move {K : Ref → Prop} (hm : Move K n n') (h : n.Coherent) : n.Ages n' := by
  cases hm with
  | edit p f hf => exact ages_update fun c hc => Or.inr (hf c hc).life
  | mint id serial table hmint =>
      refine ⟨rfl, fun i s hs => ?_, fun q c' _ hc' => ⟨c', hc', Or.inr rfl⟩⟩
      exact ((ProcessTable.issues_mint h.table hmint).1.spent i s).mpr (Or.inl hs)
  | insert id serial table hi =>
      have hissue := (ProcessTable.issues_insert h.table hi).1
      refine ⟨rfl, fun i s hs => (hissue.spent i s).mpr (Or.inl hs), fun q c' hs hc' => ?_⟩
      rcases process?_of_addProcess hc' with ⟨rfl, -⟩ | ⟨-, hold⟩
      · -- The new name was not given out before.
        exact absurd hs hissue.fresh
      · exact ⟨c', hold, Or.inr rfl⟩
  | _ => exact ages_of rfl rfl fun q c' hc' => ⟨c', hc', Or.inr rfl⟩

/-- Any number of moves, by what one does. -/
theorem ages_moves {K : Ref → Prop} (hs : Moves K n n') (h : n.Coherent) : n.Ages n' :=
  hs.induction_coherent h (fun _ _ hm hmove hage => hage.trans (ages_move hmove hm)) (.refl n)

/-- Whatever operation comes next, the node ages. The plain operations are moves; the others are a
    death, a handle that is dropped and a signal that is handled. -/
theorem ages_step (h : n.Coherent) (op : NodeOp) : n.Ages (n.step op) := by
  by_cases hop : op.isPlain = true
  · exact ages_moves (moves_step h hop) h
  · cases op with
    | die p reason =>
        rw [step]
        rcases die_cases n p reason with ⟨hd, -⟩ | ⟨c, hc, ha, hd⟩ <;> rw [hd]
        · exact .refl n
        · exact ages_fall h.table hc ha c _
    | letGo p =>
        refine (ages_loosen n p).trans (ages_reclaim _ ?_ p)
        exact h.table
    | handleInHand =>
        rw [step]
        rcases handleInHand_cases n with ⟨-, hi⟩ | ⟨d, q, -, hs, hi⟩ <;> rw [hi]
        · exact .refl n
        · -- A signal is taken and handled, and then its target is let go.
          have hd := ages_handle (n.withQueue q) h.table d
          have hcoh := (h.next hs).handle d
          exact ((ages_withQueue n q).trans hd).trans (ages_reclaim _ hcoh.table d.target)
    | _ => exact absurd rfl hop

/-- A run ages the node, since each of its operations does. -/
theorem ages_run (h : n.Coherent) (ops : List NodeOp) : n.Ages (n.run ops) := by
  induction ops generalizing n with
  | nil => exact .refl n
  | cons op rest ih => exact (ages_step h op).trans (ih (coherent_step h op))

/-! ## Names that were given out -/

/-- A name was given out by a node. -/
def Issued (n : Node) (p : Pid) : Prop := p.isLocal = true ∧ n.table.Spent p.id p.serial

/-- A process that is made has a name that was given out. -/
theorem issued_makeProcess (h : n.Coherent) {p : Pid} (hm : n.makeProcess = (.ok p, n')) :
    n'.Issued p := by
  rcases makeProcess_ok hm with ⟨id, serial, table, hi, rfl, rfl⟩
  exact ⟨rfl, ((ProcessTable.issues_insert h.table hi).1.spent id serial).mpr (Or.inr ⟨rfl, rfl⟩)⟩

/-- What an operation gives out was given out. -/
theorem issued_of_issues (h : n.Coherent) {op : NodeOp} {p : Pid} (hp : p ∈ n.issues op) :
    (n.step op).Issued p := by
  cases op with
  | makePid =>
      rcases makePid_cases n with he | ⟨id, serial, table, hm, he⟩
      · simp [issues, he, Except.toOption] at hp
      · have heq : p = .ofSlot id serial n.creation := by
          simpa [issues, he, Except.toOption] using hp
        rw [step, he, heq]
        have hissue := (ProcessTable.issues_mint h.table hm).1
        exact ⟨rfl, (hissue.spent id serial).mpr (Or.inr ⟨rfl, rfl⟩)⟩
  | spawn =>
      rcases hm : n.makeProcess with ⟨e | q, n₁⟩
      · simp [issues, spawn, hm, Except.toOption] at hp
      · have heq : p = q := by simpa [issues, spawn, hm, Except.toOption] using hp
        rw [step, spawn, hm, heq]
        exact issued_makeProcess h hm
  | spawnLink linked =>
      rcases spawnLink_cases n linked with he | ⟨q, n₁, hm, he⟩
      · simp [issues, he, Except.toOption] at hp
      · have heq : p = q := by simpa [issues, he, Except.toOption] using hp
        rw [step, he, heq]
        have hissued := issued_makeProcess h hm
        exact hissued
  | spawnMonitor watcher =>
      rcases spawnMonitor_cases n watcher with he | ⟨q, n₁, hm, he⟩
      · simp [issues, he, Except.toOption] at hp
      · have heq : p = q := by simpa [issues, he, Except.toOption] using hp
        rw [step, he, heq]
        have hissued := issued_makeProcess h hm
        rcases track_cases (n₁.countRef.update q fun c =>
          { c with monitoredBy := c.monitoredBy.insert n.nextRef watcher }) watcher n.nextRef q
          with ht | ht <;> rw [ht] <;> exact hissued
  | _ => exact absurd hp List.not_mem_nil

/-- What was given out stays given out. -/
theorem Issued.ages {p : Pid} (hp : n.Issued p) (hage : n.Ages n') : n'.Issued p :=
  ⟨hp.1, hage.spent _ _ hp.2⟩

/-- What a run gave out was given out. -/
theorem issued_of_collect (h : n.Coherent) {ops : List NodeOp} {p : Pid}
    (hp : p ∈ n.collect issues ops) : (n.run ops).Issued p := by
  induction ops generalizing n with
  | nil => exact absurd hp List.not_mem_nil
  | cons op rest ih =>
      rw [collect, List.mem_append] at hp
      rcases hp with hp | hp
      · -- What was given out first stays given out.
        exact (issued_of_issues h hp).ages (ages_run (coherent_step h op) rest)
      · exact ih (coherent_step h op) hp

/-! ## Deaths -/

/-- A signal in hand ends its target, if the target is alive and does not trap it. -/
theorem deaths_handleInHand {d : Delivery} {q : Dispatcher} (hq : n.queue.next? = some (d, q))
    {c : Process} (hc : n.process? d.target = some c) (ha : c.isAlive = true) {reason : Term}
    (hs : d.signal = .exit reason) (ht : c.traps reason = false) :
    n.deaths .handleInHand = [(d.target, Reason.recorded reason)] := by
  simp only [deaths, hq, hc, Process.react, ha, if_true, hs, Process.reactAlive, ht,
    Bool.false_eq_true, if_false]

/-- If the next signal ends somebody, it ends its target, which was alive and did not trap it. -/
theorem deaths_handleInHand_cases {p : Pid} {reason : Term}
    (hd : (p, reason) ∈ n.deaths .handleInHand) :
    ∃ d q c r, n.queue.next? = some (d, q) ∧ p = d.target ∧ n.process? p = some c ∧
      c.isAlive = true ∧ d.signal = .exit r ∧ c.traps r = false ∧ reason = Reason.recorded r := by
  rw [deaths] at hd
  split at hd
  next => exact absurd hd List.not_mem_nil
  next d q hq =>
    split at hd
    next => exact absurd hd List.not_mem_nil
    next c hc =>
      split at hd
      next c' r hreact =>
        rw [List.mem_singleton, Prod.mk.injEq] at hd
        rcases Process.react_die hreact with ⟨ha, hs, -, ht⟩
        exact ⟨d, q, c, r, hq, hd.1, by rw [hd.1, hc], ha, hs, ht, hd.2⟩
      next => exact absurd hd List.not_mem_nil

/-- A request to end ends the process it is about, if that is alive. -/
theorem mem_deaths_die {p q : Pid} {reason r : Term} :
    (p, reason) ∈ n.deaths (.die q r) ↔ n.lives q = true ∧ p = q ∧ reason = Reason.recorded r := by
  rw [deaths]
  split
  next hl => rw [List.mem_singleton, Prod.mk.injEq, and_iff_right hl]
  next hl => exact ⟨fun h => absurd h List.not_mem_nil, fun h => absurd h.1 hl⟩

/-- Only the living die. -/
theorem lives_of_deaths {op : NodeOp} {p : Pid} {reason : Term} (hd : (p, reason) ∈ n.deaths op) :
    n.lives p = true := by
  cases op with
  | die p' reason' =>
      rcases mem_deaths_die.mp hd with ⟨hl, rfl, -⟩
      exact hl
  | handleInHand =>
      rcases deaths_handleInHand_cases hd with ⟨d, q, c, r, -, -, hc, ha, -⟩
      exact lives_of hc ha
  | _ => exact absurd hd List.not_mem_nil

/-- A process that a signal ended reports the reason. -/
theorem life_of_handle {d : Delivery} {q : Dispatcher} (hq : n.queue.next? = some (d, q)) {p : Pid}
    {reason : Term} (hd : (p, reason) ∈ n.deaths .handleInHand) {c : Process}
    (hc : ((n.withQueue q).handle d).process? p = some c) : c.life = .dead reason := by
  rcases deaths_handleInHand_cases hd with ⟨d', q', c₀, r, hq', heq, hc₀, ha, hs, ht, hreason⟩
  rw [hq, Option.some.injEq, Prod.mk.injEq] at hq'
  rcases hq' with ⟨rfl, rfl⟩
  have hc₁ : (n.withQueue q).process? d.target = some c₀ := heq ▸ hc₀
  -- Of the three ways the handling can go, only the one that ends the target fits.
  rcases handle_cases hc₁ with ⟨hdead, -⟩ | ⟨-, c', hr, -⟩ | ⟨-, r', hs', -, hh⟩
  · rw [hdead] at ha
    exact absurd ha (by simp)
  · simp only [hs, Process.reactAlive, ht, Bool.false_eq_true, if_false] at hr
    exact absurd hr (by simp)
  · rw [hs, Signal.exit.injEq] at hs'
    rw [hh, process?_fall, if_pos heq, heq, hc₁, Option.map_some, Option.some.injEq] at hc
    rw [← hc, hreason, hs']
    rfl

/-- A process that an operation ended reports the reason, if it is still there. -/
theorem life_of_deaths {op : NodeOp} {p : Pid} {reason : Term} (hd : (p, reason) ∈ n.deaths op)
    {c : Process} (hc : (n.step op).process? p = some c) : c.life = .dead reason := by
  have hlive := lives_of_deaths hd
  cases op with
  | die p' reason' =>
      rcases mem_deaths_die.mp hd with ⟨-, rfl, rfl⟩
      rw [step] at hc
      rcases lives_iff.mp hlive with ⟨c₀, hc₀, ha₀⟩
      rcases die_cases n p reason' with ⟨-, hdead⟩ | ⟨c₁, hc₁, -, hdie⟩
      · rw [hdead c₀ hc₀] at ha₀
        exact absurd ha₀ (by simp)
      · rw [hdie, process?_fall, if_pos rfl, hc₀, Option.map_some, Option.some.injEq] at hc
        rw [← hc]
        rfl
  | handleInHand =>
      rcases deaths_handleInHand_cases hd with ⟨d, q, -, -, hq, -⟩
      rw [step, handleInHand, hq] at hc
      exact life_of_handle hq hd (process?_of_reclaim hc)
  | _ => exact absurd hd List.not_mem_nil

/-- A process that a run ended reports the reason from then on, if it is still there. -/
theorem life_of_collect_deaths (h : n.Coherent) {ops : List NodeOp} {p : Pid} {reason : Term}
    (hd : (p, reason) ∈ n.collect deaths ops) {c : Process}
    (hc : (n.run ops).process? p = some c) : c.life = .dead reason := by
  induction ops generalizing n with
  | nil => exact absurd hd List.not_mem_nil
  | cons op rest ih =>
      rw [collect, List.mem_append] at hd
      rcases hd with hd | hd
      · -- The first operation ended it. Its name was given out, so the rest of the run finds the
        -- same dead process, or none.
        rcases lives_iff.mp (lives_of_deaths hd) with ⟨c₀, hc₀, -⟩
        have hspent := (ages_step h op).spent _ _ (h.spent p c₀ hc₀)
        rcases (ages_run (coherent_step h op) rest).past p c hspent hc with ⟨c₁, hc₁, -⟩
        exact (ages_run (coherent_step h op) rest).reason (coherent_step h op) hc₁
          (life_of_deaths hd hc₁) hc
      · exact ih (coherent_step h op) hd hc

/-- Whom a run ended is not alive after it. -/
theorem not_lives_of_deaths (h : n.Coherent) {ops : List NodeOp} {p : Pid} {reason : Term}
    (hd : (p, reason) ∈ n.collect deaths ops) : (n.run ops).lives p = false := by
  rw [Bool.eq_false_iff]
  intro hl
  rcases lives_iff.mp hl with ⟨c, hc, ha⟩
  rw [Process.isAlive_iff, life_of_collect_deaths h hd hc] at ha
  exact absurd ha (by simp)

/-- Moves end nobody. -/
theorem life_moves {K : Ref → Prop} (hs : Moves K n n') {p : Pid} {c' : Process}
    (hc' : n'.process? p = some c') :
    c'.isAlive = true ∨ ∃ c, n.process? p = some c ∧ c'.life = c.life := by
  refine hs.induction (P := fun m => ∀ c', m.process? p = some c' →
    c'.isAlive = true ∨ ∃ c, n.process? p = some c ∧ c'.life = c.life) (fun m m' hm h => ?_)
    (fun c' hc' => Or.inr ⟨c', hc', rfl⟩) c' hc'
  cases hm with
  | edit q f hf =>
      intro c' hc'
      rcases process?_of_update hc' with ⟨c, rfl, hc, rfl⟩ | ⟨-, hold⟩
      · rw [Process.isAlive, (hf c hc).life]
        exact h c hc
      · exact h c' hold
  | insert id serial table hi =>
      intro c' hc'
      rcases process?_of_addProcess hc' with ⟨-, rfl⟩ | ⟨-, hold⟩
      · exact Or.inl rfl
      · exact h c' hold
  | _ => exact h

/-- A death gives the reason, and leaves all others as they were. -/
theorem life_fall {p q : Pid} {c c' : Process} {r reason : Term}
    (hc' : (n.fall q c r).process? p = some c') (hd : c'.life = .dead reason) :
    p = q ∧ reason = r ∨ ∃ c, n.process? p = some c ∧ c.life = .dead reason := by
  rcases process?_of_fall hc' with ⟨hq, rfl⟩ | ⟨-, hold⟩
  · exact Or.inl ⟨hq, (Life.dead.inj hd).symm⟩
  · exact Or.inr ⟨c', hold, hd⟩

/-- A process that is dead when a signal was handled was dead before, or was ended by it. -/
theorem mem_deaths_handle_or_dead {d : Delivery} {q : Dispatcher}
    (hq : n.queue.next? = some (d, q)) {p : Pid} {c' : Process} {reason : Term}
    (hc' : ((n.withQueue q).handle d).process? p = some c') (hd : c'.life = .dead reason) :
    (p, reason) ∈ n.deaths .handleInHand ∨ ∃ c, n.process? p = some c ∧ c.life = .dead reason := by
  rcases hc₁ : (n.withQueue q).process? d.target with _ | c₁
  · rw [handle_of_none hc₁] at hc'
    exact Or.inr ⟨c', hc', hd⟩
  · rcases handle_cases hc₁ with ⟨-, hh⟩ | ⟨-, c₂, hr, hh⟩ | ⟨ha, r, hs, ht, hh⟩ <;> rw [hh] at hc'
    · exact Or.inr ⟨c', hc', hd⟩
    · rcases process?_of_update hc' with ⟨c, rfl, hc, rfl⟩ | ⟨-, hold⟩
      · -- Whoever goes on keeps the state of life it was in.
        rw [(Process.reactAlive_become hr).1] at hd
        exact Or.inr ⟨c₁, hc₁, hd⟩
      · exact Or.inr ⟨c', hold, hd⟩
    · rcases life_fall hc' hd with ⟨rfl, rfl⟩ | hold
      · rw [deaths_handleInHand hq hc₁ ha hs ht]
        exact Or.inl (List.mem_singleton.mpr rfl)
      · exact Or.inr hold

/-- A process that is dead after an operation was dead before, or was ended by it. -/
theorem mem_deaths_or_dead (h : n.Coherent) {op : NodeOp} {p : Pid} {c' : Process} {reason : Term}
    (hc' : (n.step op).process? p = some c') (hd : c'.life = .dead reason) :
    (p, reason) ∈ n.deaths op ∨ ∃ c, n.process? p = some c ∧ c.life = .dead reason := by
  by_cases hop : op.isPlain = true
  · rcases life_moves (moves_step h hop) hc' with ha | ⟨c, hc, hlife⟩
    · rw [Process.isAlive_iff, hd] at ha
      exact absurd ha (by simp)
    · exact Or.inr ⟨c, hc, hlife ▸ hd⟩
  · cases op with
    | die q r =>
        rw [step] at hc'
        rcases die_cases n q r with ⟨hdie, -⟩ | ⟨c₁, hc₁, ha, hdie⟩ <;> rw [hdie] at hc'
        · exact Or.inr ⟨c', hc', hd⟩
        · rcases life_fall hc' hd with ⟨rfl, rfl⟩ | hold
          · exact Or.inl (mem_deaths_die.mpr ⟨lives_of hc₁ ha, rfl, rfl⟩)
          · exact Or.inr hold
    | letGo q =>
        rcases process?_of_update (process?_of_reclaim hc') with ⟨c, rfl, hc, rfl⟩ | ⟨-, hold⟩
        · exact Or.inr ⟨c, hc, hd⟩
        · exact Or.inr ⟨c', hold, hd⟩
    | handleInHand =>
        rw [step] at hc'
        rcases handleInHand_cases n with ⟨-, hi⟩ | ⟨d, q, hq, -, hi⟩ <;> rw [hi] at hc'
        · exact Or.inr ⟨c', hc', hd⟩
        · exact mem_deaths_handle_or_dead hq (process?_of_reclaim hc') hd
    | _ => exact absurd rfl hop

/-- The processes that are dead after a run are those that it ended, for the reasons it gave. -/
theorem life_eq_dead_iff {config : NodeConfig} {ops : List NodeOp} {p : Pid} {c : Process}
    (hc : ((new config).run ops).process? p = some c) (reason : Term) :
    c.life = .dead reason ↔ (p, reason) ∈ (new config).collect deaths ops := by
  refine ⟨fun hd => ?_, fun hmem => life_of_collect_deaths (coherent_new config) hmem hc⟩
  -- In a node that need not be new, a dead process may also have been dead from the start.
  have hgen : ∀ (n : Node), n.Coherent → (n.run ops).process? p = some c →
      (p, reason) ∈ n.collect deaths ops ∨ ∃ c, n.process? p = some c ∧ c.life = .dead reason := by
    clear hc
    induction ops with
    | nil => exact fun n _ hc => Or.inr ⟨c, hc, hd⟩
    | cons op rest ih =>
        intro n hn hc
        rw [collect, List.mem_append]
        rcases ih (n.step op) (coherent_step hn op) hc with hmem | ⟨c₁, hc₁, hd₁⟩
        · exact Or.inl (Or.inr hmem)
        · rcases mem_deaths_or_dead hn hc₁ hd₁ with hmem | hold
          · exact Or.inl (Or.inl hmem)
          · exact Or.inr hold
  rcases hgen (new config) (coherent_new config) hc with hmem | ⟨c₁, hc₁, -⟩
  · exact hmem
  · exact absurd hc₁ (by simp [process?, new])

end Node

end Actors
