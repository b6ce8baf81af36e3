import Actors.Proofs.Node.Ties

/-!
# Links Become Mutual

Whether two living processes list each other. While signals wait they need not,
but they will when all is handled: a request to link them or to take the link
back is queued for both at once, a newborn has its side before the other is
told, and nothing else is about their link. What is counted is therefore the
outcome, `tied`, and it is the same on both sides in every state.

The newborn needs care. It starts with no partner but the one it was made
with, so nobody may list it already or be about to. Nobody does, as long as
links are only asked for among processes that were given out.

The handler of exit signals spoils this. It ends the link with the sender in
any case, as is right for the last signal of a process that ended. A process
that asks another to end does not end itself, and if the other one traps the
signal, both live on and only one lists the other: `one_sided_link`.

## Main definitions

* `Node.Mutual`: Two processes will list each other, or neither will.

## Theorems

* `mutual_queueAll`: Both sides are told the same.
* `mutual_addProcess`, `mutual_spawnLink`: A process is made.
* `mutual_step`, `mutual_run`: What keeps links mutual.
* `mutual_links`: When nothing waits, links are mutual.
-/

namespace Actors

namespace Node

/-- Two living processes will list each other, or neither will. A process has
    heard of the other one only if that was given out. -/
structure Mutual (a b : Pid) (n : Node) : Prop where
  known : n.Hears a b → n.Issued b
  known_symm : n.Hears b a → n.Issued a
  even : n.lives a = true → n.lives b = true → n.tied a b = n.tied b a

variable {a b p q x y : Pid} {n n' : Node} {ds : List Delivery}

/-- In a new node there is nobody to be linked. -/
theorem mutual_new (config : NodeConfig) (a b : Pid) : Mutual a b (new config) := by
  have hdeaf : ∀ p q, ¬ (new config).Hears p q := fun p q hh =>
    hh.elim (fun hq => PidSet.not_mem_empty q hq) fun hne => hne rfl
  exact ⟨fun hh => absurd hh (hdeaf a b), fun hh => absurd hh (hdeaf b a),
    fun ha => absurd ha (by simp [lives, process?, new])⟩

/-- What is calm for both directions keeps both sides in step. -/
theorem Mutual.calm (h : Mutual a b n) (hab : Calm a b n n') (hba : Calm b a n n') :
    Mutual a b n' := by
  refine ⟨fun hh => (h.known (hab.hears hh)).ages hab.ages,
    fun hh => (h.known_symm (hba.hears hh)).ages hab.ages, fun ha hb => ?_⟩
  rw [hab.tied ha hb, hba.tied hb ha]
  exact h.even (hab.lives a ha) (hab.lives b hb)

/-! ## Requests -/

/-- A signal says nothing about a link but the one of its target with its sender. -/
theorem filterMap_tie_deliveries_of_ne (h : ¬ (y = p ∧ x = q)) (s : Signal) :
    (n.deliveries x s (.pid y)).filterMap (tieBetween p q) = [] := by
  refine List.filterMap_eq_nil_iff.mpr fun d hd => ?_
  rcases mem_deliveries_pid hd with rfl | ⟨router, rfl⟩
  · exact if_neg h
  · exact tieBetween_eq_none rfl

/-- A signal to a living process says something about its link with the sender,
    and with nobody else. -/
theorem filterMap_tie_deliveries (hn : n.Coherent) (ha : n.lives a = true) (s : Signal) :
    (n.deliveries x s (.pid y)).filterMap (tieBetween a b) =
      if y = a ∧ x = b then s.tie?.toList else [] := by
  split
  next heq =>
    rw [heq.1, heq.2, hn.deliveries_of_lives ha, List.filterMap_cons, tieBetween, if_pos ⟨rfl, rfl⟩]
    rcases s.tie? with _ | v <;> rfl
  next hne => exact filterMap_tie_deliveries_of_ne hne s

/-- Of two signals that go both ways, both sides are told the same. -/
theorem filterMap_tie_both (hn : n.Coherent) (ha : n.lives a = true) (hb : n.lives b = true)
    (s : Signal) :
    (n.deliveries x s (.pid y) ++ n.deliveries y s (.pid x)).filterMap (tieBetween a b) =
      (n.deliveries x s (.pid y) ++ n.deliveries y s (.pid x)).filterMap (tieBetween b a) := by
  rw [List.filterMap_append, List.filterMap_append, filterMap_tie_deliveries hn ha,
    filterMap_tie_deliveries hn ha, filterMap_tie_deliveries hn hb,
    filterMap_tie_deliveries hn hb]
  -- Each of the two signals is for one side, and turned around it is for the other.
  by_cases hfirst : y = a ∧ x = b <;> by_cases hsecond : x = a ∧ y = b
  · rw [if_pos hfirst, if_pos hsecond, if_pos hsecond.symm, if_pos hfirst.symm]
  · rw [if_pos hfirst, if_neg hsecond, if_neg fun h => hsecond h.symm, if_pos hfirst.symm]
    exact List.append_nil _
  · rw [if_neg hfirst, if_pos hsecond, if_pos hsecond.symm, if_neg fun h => hfirst h.symm]
    exact (List.append_nil _).symm
  · rw [if_neg hfirst, if_neg hsecond, if_neg fun h => hsecond h.symm,
      if_neg fun h => hfirst h.symm]

/-- To have heard of somebody after some signals are queued is to have heard of him before, or to
    have one of them coming. -/
theorem hears_queueAll (hh : (n.queueAll ds).Hears p q) :
    n.Hears p q ∨ ∃ d ∈ ds, d.sender = q ∧ d.signal.tie? ≠ none := by
  rcases hh with hlink | hties
  · exact Or.inl (Or.inl hlink)
  · rw [ties_queueAll] at hties
    -- Was something on the way to him before?
    by_cases hold : n.ties p q = []
    · rw [hold, List.nil_append] at hties
      rcases List.exists_mem_of_ne_nil _ hties with ⟨v, hv⟩
      rcases List.mem_filterMap.mp hv with ⟨d, hd, hsaid⟩
      rcases tieBetween_eq_some_iff.mp hsaid with ⟨-, hsender, htie⟩
      exact Or.inr ⟨d, hd, hsender, by rw [htie]; simp⟩
    · exact Or.inl (Or.inr hold)

/-- Both sides are told the same. -/
theorem mutual_queueAll (h : Mutual a b n)
    (hissued : ∀ d ∈ ds, d.signal.tie? ≠ none → n.Issued d.sender)
    (hboth : n.lives a = true → n.lives b = true →
      ds.filterMap (tieBetween a b) = ds.filterMap (tieBetween b a)) :
    Mutual a b (n.queueAll ds) := by
  have hknown : ∀ p q, (n.Hears p q → n.Issued q) → (n.queueAll ds).Hears p q → n.Issued q := by
    intro p q hpq hh
    rcases hears_queueAll hh with hold | ⟨d, hd, hsender, htie⟩
    · exact hpq hold
    · exact hsender ▸ hissued d hd htie
  refine ⟨hknown a b h.known, hknown b a h.known_symm, fun ha hb => ?_⟩
  rw [tied_queueAll, tied_queueAll, hboth ha hb]
  exact congrArg _ (h.even ha hb)

/-- A signal that goes both ways tells both sides the same. -/
theorem mutual_both (hn : n.Coherent) (h : Mutual a b n) (hx : n.Issued x) (hy : n.Issued y)
    (s : Signal) :
    Mutual a b (n.queueAll (n.deliveries x s (.pid y) ++ n.deliveries y s (.pid x))) := by
  refine mutual_queueAll h (fun d hd _ => ?_) fun ha hb => filterMap_tie_both hn ha hb s
  rcases List.mem_append.mp hd with hd | hd
  · exact (mem_deliveries hd).2.1 ▸ hx
  · exact (mem_deliveries hd).2.1 ▸ hy

/-- A link is asked for. If it cannot be, the one who asks is sent an exit signal, which says
    nothing about links. -/
theorem mutual_link (hn : n.Coherent) (h : Mutual a b n) (hx : n.Issued x) (hy : n.Issued y) :
    Mutual a b (n.link x y) := by
  rw [link_eq, linkDeliveries]
  split
  next => exact h
  next =>
    split
    next =>
      refine h.calm ?_ ?_ <;> exact calm_queueAll fun d hd => tie?_of_deliveries rfl hd
    next => exact mutual_both hn h hx hy .link

/-- A link is taken back on both sides. -/
theorem mutual_unlink (hn : n.Coherent) (h : Mutual a b n) (hx : n.Issued x) (hy : n.Issued y) :
    Mutual a b (n.unlink x y) := by
  rw [unlink_eq]
  exact mutual_both hn h hx hy .unlink

/-! ## Births -/

/-- Nothing is on the way to who has not heard of somebody. -/
theorem ties_of_not_hears (h : ¬ n.Hears p q) : n.ties p q = [] :=
  Decidable.of_not_not fun hne => h (Or.inr hne)

/-- Who has not heard of somebody will not list him. -/
theorem tied_of_not_hears (h : ¬ n.Hears p q) : n.tied p q = false := by
  rw [tied, ties_of_not_hears h]
  exact decide_eq_false fun hlink => h (Or.inl hlink)

/-- A birth is no news for anybody else. -/
theorem hears_addProcess {table : ProcessTable} (hne : p ≠ x) :
    (n.addProcess x table).Hears p q ↔ n.Hears p q := by
  rw [Hears, linksOf, process?_addProcess, if_neg hne, ← linksOf]
  rfl

/-- A newborn has heard of nobody. -/
theorem not_hears_addProcess (hn : n.Coherent) {id serial : UInt32} {table : ProcessTable}
    (hi : n.table.insert = (.ok (id, serial), table)) (y : Pid) :
    ¬ (n.addProcess (.ofSlot id serial n.creation) table).Hears
      (.ofSlot id serial n.creation) y := by
  rintro (hlink | hties)
  · rw [linksOf_eq ((process?_addProcess _ _ _ _).trans (if_pos rfl))] at hlink
    exact PidSet.not_mem_empty y hlink
  · refine hties (List.filterMap_eq_nil_iff.mpr fun d hd => if_neg fun htarget => ?_)
    -- Signals wait for processes only, and there was none of that name.
    have hthere := hn.targets d hd
    rw [htarget.1, hn.process?_of_insert hi] at hthere
    exact absurd hthere (by simp)

/-- Whoever a process has heard of was given out, and a newborn has heard of nobody. -/
theorem known_addProcess (hn : n.Coherent) (h : n.Hears p q → n.Issued q) {id serial : UInt32}
    {table : ProcessTable} (hi : n.table.insert = (.ok (id, serial), table))
    (hh : (n.addProcess (.ofSlot id serial n.creation) table).Hears p q) : n.Issued q := by
  by_cases hp : p = .ofSlot id serial n.creation
  · exact absurd (hp ▸ hh) (not_hears_addProcess hn hi q)
  · exact h ((hears_addProcess hp).mp hh)

/-- A newborn has a name that was not given out. -/
theorem not_issued_of_insert (hn : n.Coherent) {id serial : UInt32} {table : ProcessTable}
    (hi : n.table.insert = (.ok (id, serial), table)) :
    ¬ n.Issued (.ofSlot id serial n.creation) := fun hissued =>
  (ProcessTable.issues_insert hn.table hi).1.fresh hissued.2

/-- A birth lets the node age. -/
theorem ages_addProcess (hn : n.Coherent) {id serial : UInt32} {table : ProcessTable}
    (hi : n.table.insert = (.ok (id, serial), table)) :
    n.Ages (n.addProcess (.ofSlot id serial n.creation) table) :=
  ages_move (K := fun _ => False) (.insert id serial table hi) hn

/-- A newborn has heard of nobody, and nobody has heard of it. -/
theorem tied_addProcess (hn : n.Coherent) (h : n.Hears p q → n.Issued q) {id serial : UInt32}
    {table : ProcessTable} (hi : n.table.insert = (.ok (id, serial), table)) :
    (n.addProcess (.ofSlot id serial n.creation) table).tied p q =
      if p = .ofSlot id serial n.creation ∨ q = .ofSlot id serial n.creation then false
      else n.tied p q := by
  split
  next hnew =>
    refine tied_of_not_hears fun hh => ?_
    rcases hnew with rfl | rfl
    · exact not_hears_addProcess hn hi q hh
    · exact not_issued_of_insert hn hi (known_addProcess hn h hi hh)
  next hnew =>
    rw [not_or] at hnew
    rw [tied, linksOf, process?_addProcess, if_neg hnew.1]
    rfl

/-- A newborn is linked with nobody, from whichever side one looks. -/
theorem mutual_addProcess (hn : n.Coherent) (h : Mutual a b n) {id serial : UInt32}
    {table : ProcessTable} (hi : n.table.insert = (.ok (id, serial), table)) :
    Mutual a b (n.addProcess (.ofSlot id serial n.creation) table) := by
  have hage := ages_addProcess hn hi
  refine ⟨fun hh => (known_addProcess hn h.known hi hh).ages hage,
    fun hh => (known_addProcess hn h.known_symm hi hh).ages hage, fun ha hb => ?_⟩
  rw [tied_addProcess hn h.known hi, tied_addProcess hn h.known_symm hi]
  by_cases hnew : a = .ofSlot id serial n.creation ∨ b = .ofSlot id serial n.creation
  · rw [if_pos hnew, if_pos hnew.symm]
  · rw [if_neg hnew, if_neg fun h => hnew h.symm]
    rw [not_or] at hnew
    rw [lives, process?_addProcess, if_neg hnew.1] at ha
    rw [lives, process?_addProcess, if_neg hnew.2] at hb
    exact h.even ha hb

/-- Making a process links nobody. -/
theorem mutual_makeProcess (hn : n.Coherent) (h : Mutual a b n)
    (hm : n.makeProcess = (.ok p, n')) : Mutual a b n' := by
  rcases makeProcess_ok hm with ⟨id, serial, table, hi, rfl, rfl⟩
  exact mutual_addProcess hn h hi

/-- A process that is made in a link tells its partner, and nobody else. -/
theorem filterMap_tie_birth (hn : n.Coherent) {linked : Pid} (hx : n.lives x = true) :
    (n.birthDeliveries p linked).filterMap (tieBetween x y) =
      if linked = x ∧ p = y then [true] else [] := by
  rw [birthDeliveries]
  split
  next e he =>
    -- Who cannot be reached is not alive.
    have hne : linked ≠ x := by
      rintro rfl
      have hone := hn.deliveries_of_lives hx p .link
      rw [deliveries, he] at hone
      exact absurd hone (by simp)
    rw [if_neg fun heq => hne heq.1]
    exact filterMap_tie_eq_nil fun d hd => tie?_of_deliveries rfl hd
  next => exact filterMap_tie_deliveries hn hx .link

/-- A newborn takes its side of a link and tells the other side. -/
theorem tied_birth (hn : n.Coherent) {linked : Pid} (hp : n.process? p = some .fresh)
    (hdeaf : ∀ y, ¬ n.Hears p y) (hx : n.lives x = true) :
    ((n.update p fun c => { c with links := c.links.insert linked }).queueAll
      (n.birthDeliveries p linked)).tied x y =
      if linked = x ∧ p = y ∨ p = x ∧ linked = y then true else n.tied x y := by
  rw [tied_queueAll, filterMap_tie_birth hn hx]
  by_cases htold : linked = x ∧ p = y
  · rw [if_pos htold, if_pos (Or.inl htold)]
    rfl
  · rw [if_neg htold]
    change (n.update p fun c => { c with links := c.links.insert linked }).tied x y = _
    by_cases hself : p = x
    · -- Nothing waits for a newborn, so its own table decides.
      subst hself
      have hmem : y ∈ (∅ : PidSet).insert linked ↔ linked = y := by
        rw [PidSet.mem_insert]
        exact ⟨fun h => (h.resolve_left (PidSet.not_mem_empty y)).symm, fun h => Or.inr h.symm⟩
      rw [tied_of_not_hears (hdeaf y), tied, linksOf_eq (process?_update_self hp _)]
      change (n.ties p y).getLast?.getD (decide (y ∈ (∅ : PidSet).insert linked)) = _
      rw [ties_of_not_hears (hdeaf y)]
      simp only [hmem, htold, false_or, true_and]
      by_cases hy : linked = y
      · rw [if_pos hy]
        exact decide_eq_true hy
      · rw [if_neg hy]
        exact decide_eq_false hy
    · rw [if_neg fun hor => hor.elim htold fun heq => hself heq.1, tied, tied,
        linksOf_update_of_ne (Ne.symm hself)]
      rfl

/-- Only the newborn lists somebody new, and only the partner is about to. -/
theorem known_birth {linked : Pid} (hp : n.process? p = some .fresh) (hissued : n.Issued p)
    (hlinked : x = p → y = linked → n.Issued linked) (h : n.Hears x y → n.Issued y)
    (hh : ((n.update p fun c => { c with links := c.links.insert linked }).queueAll
      (n.birthDeliveries p linked)).Hears x y) : n.Issued y := by
  rcases hears_queueAll hh with (hlink | hties) | ⟨d, hd, hsender, htie⟩
  · -- It lists the other one: as the newborn with its partner, or from before.
    by_cases hx : x = p
    · rw [hx, linksOf_eq (process?_update_self hp _)] at hlink
      rcases PidSet.mem_insert.mp hlink with hnone | hy
      · exact absurd hnone (PidSet.not_mem_empty y)
      · exact hy ▸ hlinked hx hy
    · rw [linksOf_update_of_ne hx] at hlink
      exact h (Or.inl hlink)
  · exact h (Or.inr hties)
  · -- It is about to, by one of the signals of the birth.
    rw [birthDeliveries] at hd
    split at hd
    · exact absurd (tie?_of_deliveries rfl hd) htie
    · rwa [← hsender, (mem_deliveries hd).2.1]

/-- The link of a newborn kills nobody. -/
theorem lives_birth (n : Node) (p linked x : Pid) :
    ((n.update p fun c => { c with links := c.links.insert linked }).queueAll
      (n.birthDeliveries p linked)).lives x = n.lives x :=
  lives_update (n := n) (p := p) (f := fun c => { c with links := c.links.insert linked })
    (fun _ _ => rfl) x

/-- A process that is made in a link lists its partner, and the partner is told. -/
theorem mutual_birth (hn : n.Coherent) (h : Mutual a b n) {linked : Pid}
    (hp : n.process? p = some .fresh) (hdeaf : ∀ y, ¬ n.Hears p y) (hissued : n.Issued p)
    (hlinked : n.Issued linked) :
    Mutual a b ((n.update p fun c => { c with links := c.links.insert linked }).queueAll
      (n.birthDeliveries p linked)) := by
  refine ⟨known_birth hp hissued (fun _ _ => hlinked) h.known,
    known_birth hp hissued (fun _ _ => hlinked) h.known_symm, fun ha hb => ?_⟩
  rw [lives_birth] at ha hb
  -- The condition reads the same from both sides.
  have hboth : linked = a ∧ p = b ∨ p = a ∧ linked = b ↔
      linked = b ∧ p = a ∨ p = b ∧ linked = a :=
    ⟨fun hor => hor.symm.imp And.symm And.symm, fun hor => hor.symm.imp And.symm And.symm⟩
  rw [tied_birth hn hp hdeaf ha, tied_birth hn hp hdeaf hb, h.even ha hb]
  simp only [hboth]

/-- A process is made in a link. It has heard of nobody but its partner. -/
theorem mutual_spawnLink (hn : n.Coherent) (h : Mutual a b n) {linked : Pid}
    (hlinked : n.Issued linked) : Mutual a b (n.spawnLink linked).2 := by
  rcases spawnLink_cases n linked with he | ⟨p, n₁, hm, he⟩ <;> rw [he]
  · exact h
  · rcases move_makeProcess (K := fun _ => False) hm with ⟨hmove, hp⟩
    have hdeaf : ∀ y, ¬ n₁.Hears p y := by
      rcases makeProcess_ok hm with ⟨id, serial, table, hi, rfl, rfl⟩
      exact not_hears_addProcess hn hi
    exact mutual_birth (coherent_move hmove hn) (mutual_makeProcess hn h hm) hp hdeaf
      (issued_makeProcess hn hm) (hlinked.ages (ages_move hmove hn))

/-- Whatever is written down about a monitor is no concern of links. -/
theorem calm_watched (watcher x y : Pid) (ref : Ref) :
    Calm x y n ((n.countRef.update p fun c =>
      { c with monitoredBy := c.monitoredBy.insert ref watcher }).track watcher ref p) := by
  have hcount : Calm x y n n.countRef := calm_same rfl rfl rfl rfl
  have hpreset : Calm x y n.countRef (n.countRef.update p fun c =>
      { c with monitoredBy := c.monitoredBy.insert ref watcher }) :=
    calm_update fun _ _ => ⟨rfl, fun _ => Iff.rfl⟩
  exact (hcount.trans hpreset).trans (calm_track _ watcher ref p)

/-- A process that is made under a watch is made without a link. -/
theorem mutual_spawnMonitor (hn : n.Coherent) (h : Mutual a b n) (watcher : Pid) :
    Mutual a b (n.spawnMonitor watcher).2 := by
  rcases spawnMonitor_cases n watcher with he | ⟨p, n₁, hm, he⟩ <;> rw [he]
  · exact h
  · exact (mutual_makeProcess hn h hm).calm (calm_watched watcher a b n.nextRef)
      (calm_watched watcher b a n.nextRef)

/-! ## Runs -/

/-- One operation. Births and links tell both sides; all else is calm, unless it breaks a link on
    one side. -/
theorem mutual_step (hn : n.Coherent) (h : Mutual a b n) {op : NodeOp} (hraw : op.forges = false)
    (hissued : ∀ p ∈ op.partners, n.Issued p) (hab : (a, b) ∉ n.breaks op)
    (hba : (b, a) ∉ n.breaks op) : Mutual a b (n.step op) := by
  cases op with
  | spawn =>
      rw [step, spawn]
      rcases hm : n.makeProcess with ⟨e | p, n₁⟩
      · rwa [(makeProcess_error hm).2]
      · exact mutual_makeProcess hn h hm
  | spawnLink linked => exact mutual_spawnLink hn h (hissued linked List.mem_cons_self)
  | spawnMonitor watcher => exact mutual_spawnMonitor hn h watcher
  | link x y =>
      exact mutual_link hn h (hissued x (by simp [NodeOp.partners]))
        (hissued y (by simp [NodeOp.partners]))
  | unlink x y =>
      exact mutual_unlink hn h (hissued x (by simp [NodeOp.partners]))
        (hissued y (by simp [NodeOp.partners]))
  | _ => exact h.calm (calm_step hn rfl rfl hraw hab) (calm_step hn rfl rfl hraw hba)

/-- Over a run in which nothing breaks the link on one side, both sides stay in step. -/
theorem mutual_run (hn : n.Coherent) (h : Mutual a b n) {ops : List NodeOp}
    (hraw : ∀ op ∈ ops, op.forges = false)
    (hissued : ∀ i (hi : i < ops.length), ∀ p ∈ ops[i].partners, (n.run (ops.take i)).Issued p)
    (hab : (a, b) ∉ n.collect breaks ops) (hba : (b, a) ∉ n.collect breaks ops) :
    Mutual a b (n.run ops) := by
  induction ops generalizing n with
  | nil => exact h
  | cons op rest ih =>
      rw [collect, List.mem_append, not_or] at hab hba
      have hstep := mutual_step hn h (hraw op List.mem_cons_self)
        (hissued 0 (Nat.succ_pos rest.length)) hab.1 hba.1
      exact ih (coherent_step hn op) hstep (fun op' hop' => hraw op' (List.mem_cons_of_mem op hop'))
        (fun i hi => hissued (i + 1) (Nat.succ_lt_succ hi)) hab.2 hba.2

/-- When no signal waits, two living processes list each other or neither does. Links
    may only be asked for among processes that were given out before, nobody may send
    signals about links directly, and neither of the two may have trapped an exit
    signal of the other while it was linked with it and the other lived on. -/
theorem mutual_links {config : NodeConfig} {ops : List NodeOp}
    (hraw : ∀ op ∈ ops, op.forges = false)
    (hissued : ∀ i (hi : i < ops.length), ∀ p ∈ ops[i].partners,
      p ∈ (new config).collect issues (ops.take i))
    (hab : (a, b) ∉ (new config).collect breaks ops)
    (hba : (b, a) ∉ (new config).collect breaks ops)
    (hquiet : ((new config).run ops).queue.signals = [])
    (ha : ((new config).run ops).lives a = true) (hb : ((new config).run ops).lives b = true) :
    b ∈ ((new config).run ops).linksOf a ↔ a ∈ ((new config).run ops).linksOf b := by
  have hn := coherent_new config
  have hrun := mutual_run hn (mutual_new config a b) hraw
    (fun i hi p hp => issued_of_collect hn (hissued i hi p hp)) hab hba
  have heven := hrun.even ha hb
  -- Nothing waits, so the tables alone decide.
  rw [tied, ties, hquiet, tied, ties, hquiet] at heven
  exact decide_eq_decide.mp heven

/-- The first process is linked with two others, one of which it was made with. These
    two are not linked, so that the exit signal between them, which is trapped, breaks
    nothing. -/
theorem mutual_links_trio :
    let ops : List NodeOp := [.spawn, .spawnLink (.ofSlot 1 0 0), .spawn,
      .link (.ofSlot 1 0 0) (.ofSlot 3 0 0), .setFlag (.ofSlot 3 0 0) .trapExit true,
      .signal (.ofSlot 2 0 0) (.exit Reason.shutdown) (.pid (.ofSlot 3 0 0)), .beginTurn,
      .handleInHand, .handleInHand, .handleInHand, .handleInHand]
    let n := (new .standard).run ops
    n.queue.signals = [] ∧ n.lives (.ofSlot 1 0 0) = true ∧ n.lives (.ofSlot 3 0 0) = true ∧
      (.ofSlot 3 0 0 ∈ n.linksOf (.ofSlot 1 0 0) ↔ .ofSlot 1 0 0 ∈ n.linksOf (.ofSlot 3 0 0)) ∧
      .ofSlot 3 0 0 ∈ n.linksOf (.ofSlot 1 0 0) :=
  ⟨by decide, by decide, by decide, mutual_links (by decide) (by decide) (by decide) (by decide)
    (by decide) (by decide) (by decide), by decide⟩

/-- A process asks its partner to end, and the partner traps the request. Both live,
    nothing waits, and only one of them lists the other. -/
theorem one_sided_link :
    let n := (new .standard).run [.spawn, .spawn, .link (.ofSlot 1 0 0) (.ofSlot 2 0 0), .beginTurn,
      .handleInHand, .handleInHand, .setFlag (.ofSlot 2 0 0) .trapExit true,
      .signal (.ofSlot 1 0 0) (.exit Reason.shutdown) (.pid (.ofSlot 2 0 0)), .beginTurn,
      .handleInHand]
    n.queue.signals = [] ∧ n.lives (.ofSlot 1 0 0) = true ∧ n.lives (.ofSlot 2 0 0) = true ∧
      .ofSlot 2 0 0 ∈ n.linksOf (.ofSlot 1 0 0) ∧ .ofSlot 1 0 0 ∉ n.linksOf (.ofSlot 2 0 0) := by
  decide

end Node

end Actors
