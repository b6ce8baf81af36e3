import Actors.Proofs.Node.Coherence

/-!
# A Dying Process Tells Its Partners

Which signals a death queues for whom. Each partner is told by one exit signal,
if it is alive, however the table of links is ordered and whatever else the
dying process sends. Watchers are told after that, once for each monitor. The
signals of one death are told from those of another by their sender.

## Main definitions

* `Node.linksOf`, `Node.trapsExits`: What a node holds about links and exits.
* `Node.tells`: Whether a signal tells a process of the end of another one.
* `Node.informs`: Whether a signal announces an end to a process.
* `Node.farewellTo`: How one process is told of the end of another.

## Theorems

* `filter_informs_farewellsOf`: What a dying process announces, and in which order.
* `count_farewellsOf`: A dying process tells each living partner once.
* `signal_of_farewellsOf`: What a dying process sends.
-/

namespace Actors

/-- Whether a signal announces an end: it is an exit signal, or a notice to a watcher. -/
def Signal.announces : Signal → Bool
  | .exit _ | .down _ _ => true
  | _ => false

namespace Node

/-- The partners of a process. -/
def linksOf (n : Node) (p : Pid) : PidSet := ((n.process? p).map Process.links).getD ∅

/-- Whether exit signals to a process become messages. -/
def trapsExits (n : Node) (p : Pid) : Bool := (n.process? p).any Process.trapExit

theorem linksOf_eq {n : Node} {p : Pid} {c : Process} (hc : n.process? p = some c) :
    n.linksOf p = c.links := by
  rw [linksOf, hc]
  rfl

theorem trapsExits_eq {n : Node} {p : Pid} {c : Process} (hc : n.process? p = some c) :
    n.trapsExits p = c.trapExit := by
  rw [trapsExits, hc, Option.any_some]

/-! ## Who is told of an end -/

/-- Whether a signal tells a process of the end of another one. -/
def tells (y q : Pid) (d : Delivery) : Bool :=
  match d.signal with
  | .exit _ => d.sender = y && d.target = q
  | _ => false

/-- Whether a signal announces an end to a process. -/
def informs (q : Pid) (d : Delivery) : Bool := d.target = q && d.signal.announces

theorem informs_iff {q : Pid} {d : Delivery} :
    informs q d = true ↔ d.target = q ∧ d.signal.announces = true := by
  rw [informs, Bool.and_eq_true, decide_eq_true_eq]

theorem tells_iff {y q : Pid} {d : Delivery} :
    tells y q d = true ↔ (∃ reason, d.signal = .exit reason) ∧ d.sender = y ∧ d.target = q := by
  rw [tells]
  rcases d.signal with m | _ | _ | ref | ref | reason | ⟨ref, reason⟩ <;>
    simp [Bool.and_eq_true]

theorem tells_false_of_sender {y q : Pid} {d : Delivery} (h : d.sender ≠ y) :
    tells y q d = false := by
  rw [Bool.eq_false_iff]
  exact fun ht => h (tells_iff.mp ht).2.1

theorem tells_false_of_target {y q : Pid} {d : Delivery} (h : d.target ≠ q) :
    tells y q d = false := by
  rw [Bool.eq_false_iff]
  exact fun ht => h (tells_iff.mp ht).2.2

theorem countP_tells_of_sender {y q : Pid} {ds : List Delivery} (h : ∀ d ∈ ds, d.sender ≠ y) :
    ds.countP (tells y q) = 0 :=
  List.countP_eq_zero.mpr fun d hd => Bool.not_eq_true _ ▸ tells_false_of_sender (h d hd)

theorem sender_of_farewellsOf {n : Node} {p : Pid} {c : Process} {reason : Term} {d : Delivery}
    (hd : d ∈ n.farewellsOf p c reason) : d.sender = p := by
  rcases mem_farewellsOf hd with ⟨e, -, hd⟩
  exact (mem_deliveries hd).2.1

/-- The announcement to one process reaches that process, if it is alive, and nobody else. -/
theorem filter_informs_deliveries {n : Node} (h : n.Coherent) {q : Pid} (hq : n.lives q = true)
    (p l : Pid) {s : Signal} (hs : s.announces = true) :
    (n.deliveries p s (.pid l)).filter (informs q) = if l = q then [⟨q, p, s⟩] else [] := by
  split
  next heq =>
    rw [heq, h.deliveries_of_lives hq]
    exact List.filter_cons_of_pos (informs_iff.mpr ⟨rfl, hs⟩)
  next hne =>
    refine List.filter_eq_nil_iff.mpr fun d hd hi => ?_
    -- What reaches somebody else is not to this process, and a letter to a router announces
    -- nothing.
    rcases mem_deliveries_pid hd with rfl | ⟨router, rfl⟩
    · exact hne (informs_iff.mp hi).1
    · exact absurd (informs_iff.mp hi).2 (by simp [Signal.announces])

theorem filter_informs {n : Node} (h : n.Coherent) {q : Pid} (hq : n.lives q = true) (p : Pid)
    {es : List (Pid × Signal)} (hs : ∀ e ∈ es, e.2.announces = true) :
    (es.flatMap fun e => n.deliveries p e.2 (.pid e.1)).filter (informs q) =
      (es.filter fun e => e.1 = q).map fun e => ⟨q, p, e.2⟩ := by
  induction es with
  | nil => rfl
  | cons e rest ih =>
      rw [List.flatMap_cons, List.filter_append,
        filter_informs_deliveries h hq p e.1 (hs e List.mem_cons_self),
        ih fun e' he' => hs e' (List.mem_cons_of_mem e he')]
      by_cases heq : e.1 = q <;> simp [heq]

/-- How one process is told of the end of another: by one exit signal, if the two are
    linked, and after that by one notice for each monitor. -/
def farewellTo (q p : Pid) (c : Process) (reason : Term) : List Delivery :=
  (if q ∈ c.links then [⟨q, p, .exit reason⟩] else []) ++
    (c.monitoredBy.entries.filter fun e => e.2 = q).map fun e => ⟨q, p, .down e.1 reason⟩

theorem filter_informs_farewellsOf {n : Node} (h : n.Coherent) {q : Pid} (hq : n.lives q = true)
    (p : Pid) (c : Process) (reason : Term) :
    (n.farewellsOf p c reason).filter (informs q) = farewellTo q p c reason := by
  -- A farewell is an exit signal or a notice.
  have hall : ∀ e ∈ c.farewells reason, e.2.announces = true := by
    intro e he
    rw [Process.farewells, List.mem_append, List.mem_map, List.mem_map] at he
    rcases he with ⟨l, -, rfl⟩ | ⟨⟨ref, watcher⟩, -, rfl⟩ <;> rfl
  rw [farewellsOf, filter_informs h hq p hall, Process.farewells, farewellTo, List.filter_append,
    List.map_append, List.filter_map, List.map_map, List.filter_map, List.map_map]
  congr 1
  -- Nobody stands twice among the partners.
  change (c.links.toList.filter fun l => l = q).map _ = _
  rw [List.filter_eq, c.links.nodup.count, List.map_replicate]
  change (List.replicate (if q ∈ c.links then 1 else 0) _ : List Delivery) = _
  split <;> rfl

/-- The farewell to a partner is one exit signal. -/
theorem filter_tells_farewellsOf {n : Node} (h : n.Coherent) {p q : Pid} (hq : n.lives q = true)
    (c : Process) (reason : Term) : (n.farewellsOf p c reason).filter (tells p q) =
      if q ∈ c.links then [⟨q, p, .exit reason⟩] else [] := by
  -- Who is told of an end is informed of it, and notices to watchers tell of no exit.
  have htells : ∀ d, (tells p q d && informs q d) = tells p q d := by
    intro d
    rw [Bool.and_eq_left_iff_imp, tells_iff, informs_iff]
    rintro ⟨⟨r, hr⟩, -, htarget⟩
    exact ⟨htarget, by rw [hr]; rfl⟩
  have hdown : ∀ es : List (Ref × Pid),
      (es.map fun e => (⟨q, p, .down e.1 reason⟩ : Delivery)).filter (tells p q) = [] := by
    refine fun es => List.filter_eq_nil_iff.mpr fun d hd => ?_
    rcases List.mem_map.mp hd with ⟨e, -, rfl⟩
    simp [tells]
  have hinformed := congrArg (List.filter (tells p q)) (filter_informs_farewellsOf h hq p c reason)
  rw [List.filter_filter, funext htells, farewellTo, List.filter_append, hdown,
    List.append_nil] at hinformed
  rw [hinformed]
  split
  next => exact List.filter_cons_of_pos (tells_iff.mpr ⟨⟨reason, rfl⟩, rfl, rfl⟩)
  next => rfl

/-- A dying process tells each living partner once. -/
theorem count_farewellsOf {n : Node} (h : n.Coherent) {q : Pid} (hq : n.lives q = true) (p : Pid)
    (c : Process) (reason : Term) :
    (n.farewellsOf p c reason).countP (tells p q) = if q ∈ c.links then 1 else 0 := by
  rw [List.countP_eq_length_filter, filter_tells_farewellsOf h hq]
  split <;> rfl

theorem signal_of_farewellsOf {n : Node} {p : Pid} {c : Process} {reason : Term} {d : Delivery}
    (hd : d ∈ n.farewellsOf p c reason) :
    (d.signal = .exit reason ∧ d.target ∈ c.links) ∨
    (∃ ref r, d.signal = .down ref r) ∨ ∃ e : Routed, d.signal = .relay e.toTerm := by
  rcases mem_farewellsOf hd with ⟨e, he, hd⟩
  -- A farewell goes to its addressee or, in an envelope, to a router.
  rcases mem_deliveries_pid hd with rfl | ⟨router, rfl⟩
  · rw [Process.farewells, List.mem_append, List.mem_map, List.mem_map] at he
    rcases he with ⟨l, hl, rfl⟩ | ⟨⟨ref, watcher⟩, -, rfl⟩
    · exact Or.inl ⟨rfl, hl⟩
    · exact Or.inr (Or.inl ⟨ref, reason, rfl⟩)
  · exact Or.inr (Or.inr ⟨_, rfl⟩)

end Node

end Actors
