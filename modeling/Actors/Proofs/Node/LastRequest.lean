import Actors.Proofs.Node.Births
import Actors.Proofs.Node.Mutual
import Actors.Proofs.Node.Orderly
import Actors.Proofs.Node.Survivors

/-!
# The Last Request Decides

Two processes may be asked any number of times to be linked, and any number of
times not to be, by either of them, and one may have been made in a link with
the other. When nothing waits any more, they are linked if the last of these
requests was one for a link, and both sides know.

A request queues a signal to each side. What counts for a side is the last
signal it has about the link, as long as one waits, and its table when none
does. Both are settled by the request that came last, at the moment it is made,
so that the outcome needs no look at what else waits: `Follows` says that it is
what was asked for last. A process that is made in a link begins with its own
half of it, which is the outcome for its side from then on.

Exit signals end links without a request, and so do signals about links that
are sent directly. A law about requests has to leave them out.

Since only the last request matters, it does not matter how often it was made,
nor by which side. From a state in which nothing waits this is so for the whole
node: `repeated_requests` says which two tables change, and how.

## Main definitions

* `NodeOp.asks`, `Node.requests`: What is asked about a link.
* `Node.forgeries`: Signals about links that are sent directly.
* `Node.Follows`: One side will stand as was asked for last.
* `Node.joined`: Two processes list each other, or neither does.

## Theorems

* `follows_step`, `follows_run`: One side follows the requests.
* `run_turns`: What handling signals about links does to a node.
* `repeated_requests`: The same request, made again or by the other side.
* `last_request_decides`: The law.
-/

namespace Actors

/-- Whether two processes are the two of a pair, in whatever order. -/
def isPair (a b x y : Pid) : Bool := (x = a ∧ y = b) ∨ (x = b ∧ y = a)

theorem isPair_iff {a b x y : Pid} :
    isPair a b x y = true ↔ (x = a ∧ y = b) ∨ (x = b ∧ y = a) := decide_eq_true_iff

theorem isPair_symm (a b x y : Pid) : isPair b a x y = isPair a b x y := by
  rw [Bool.eq_iff_iff, isPair_iff, isPair_iff, or_comm]

/-- What an operation asks of two processes: to be linked, or not to be. -/
def NodeOp.asks (a b : Pid) : NodeOp → Option Bool
  | .link x y => if isPair a b x y then some true else none
  | .unlink x y => if isPair a b x y then some false else none
  | _ => none

namespace PidSet

theorem insert_insert (s : PidSet) (p : Pid) : (s.insert p).insert p = s.insert p :=
  insert_of_mem (mem_insert.mpr (Or.inr rfl))

theorem erase_erase (s : PidSet) (p : Pid) : (s.erase p).erase p = s.erase p := by
  simp only [erase, List.filter_filter, Bool.and_self]

end PidSet

namespace Process

/-- A process that lists another one, or does not. -/
def setLink (c : Process) (q : Pid) (listed : Bool) : Process :=
  { c with links := if listed then c.links.insert q else c.links.erase q }

theorem setLink_setLink (c : Process) (q : Pid) (listed : Bool) :
    (c.setLink q listed).setLink q listed = c.setLink q listed := by
  cases listed
  · simp only [setLink, Bool.false_eq_true, if_false, PidSet.erase_erase]
  · simp only [setLink, if_true, PidSet.insert_insert]

/-- A living process does what a signal about a link says, and it is the same thing to do for both
    kinds. -/
theorem reactAlive_of_tie (c : Process) (sender : Pid) {s : Signal} {v : Bool}
    (hs : s.tie? = some v) : c.reactAlive sender s = .become (c.setLink sender v) := by
  cases s with
  | link | unlink =>
      rw [← Option.some.inj hs]
      rfl
  | _ => exact absurd hs (by simp [Signal.tie?])

end Process

namespace Node

/-- What is asked of two processes by an operation. To make one of them in a link
    with the other asks for the link. -/
def requests (a b : Pid) (n : Node) : NodeOp → List Bool
  | .spawnLink linked =>
      match (n.spawnLink linked).1 with
      | .ok p => if isPair a b p linked then [true] else []
      | .error _ => []
  | op => (op.asks a b).toList

/-- The signals about links that an operation sends directly. -/
def forgeries (n : Node) : NodeOp → List Delivery
  | .signal sender s target => (n.deliveries sender s target).filter fun d => d.signal.tie?.isSome
  | _ => []

/-- One side of a link will stand as was asked for last. Nobody has heard of a
    process before it was given out, and nothing was asked of it. -/
structure Follows (p q : Pid) (n : Node) (asked : List Bool) : Prop where
  known : n.Hears p q → n.Issued q
  issued : asked ≠ [] → n.Issued p ∧ n.Issued q
  tied : n.lives p = true → n.lives q = true → n.tied p q = asked.getLast?.getD false

/-- Two processes list each other, or neither does. -/
def joined (v : Bool) (a b : Pid) (n : Node) : Node :=
  (n.update a (·.setLink b v)).update b (·.setLink a v)

/-- A signal about a link has its effect. -/
def obey (n : Node) (d : Delivery) : Node :=
  match d.signal.tie? with
  | some v => n.update d.target (·.setLink d.sender v)
  | none => n

/-- A process is alive, and there is a handle to it. -/
def Kept (n : Node) (p : Pid) : Prop :=
  ∃ c, n.process? p = some c ∧ c.isAlive = true ∧ c.handles ≠ 0

variable {a b p q x y : Pid} {n n' : Node} {asked vs : List Bool} {ds : List Delivery} {v : Bool}

/-- What is asked of a pair does not depend on whom one names first. -/
theorem requests_symm (a b : Pid) : requests b a = requests a b := by
  funext n op
  cases op with
  | spawnLink linked =>
      rw [requests, requests]
      rcases (n.spawnLink linked).1 with e | p
      · rfl
      · simp only [isPair_symm]
  | _ => simp only [requests, NodeOp.asks, isPair_symm]

theorem issued_of_lives (hn : n.Coherent) (h : n.lives p = true) : n.Issued p := by
  rcases lives_iff.mp h with ⟨c, hc, -⟩
  exact ⟨hn.isLocal hc, hn.spent p c hc⟩

/-! ## One side -/

/-- What is calm about a link leaves it as it was asked for. -/
theorem Follows.calm (h : Follows p q n asked) (hc : Calm p q n n') : Follows p q n' asked where
  known hh := (h.known (hc.hears hh)).ages hc.ages
  issued ha := (h.issued ha).imp (·.ages hc.ages) (·.ages hc.ages)
  tied hp hq := (hc.tied hp hq).trans (h.tied (hc.lives p hp) (hc.lives q hq))

/-- A request is queued: what it tells one side is what was asked. -/
theorem Follows.queueAll (h : Follows p q n asked) (hn : n.Coherent)
    (hties : ds.filterMap (tieBetween p q) = vs)
    (hthere : vs ≠ [] → n.lives p = true ∧ n.lives q = true) :
    Follows p q (n.queueAll ds) (asked ++ vs) := by
  have hissued : vs ≠ [] → n.Issued p ∧ n.Issued q := fun hne =>
    (hthere hne).imp (issued_of_lives hn) (issued_of_lives hn)
  refine ⟨fun hh => ?_, fun hne => ?_, fun hp hq => ?_⟩
  · -- If something is asked of the pair both are there and thus given out. If not, whatever is
    -- known was known before.
    by_cases hvs : vs = []
    · rcases hh with hlink | hnew
      · exact h.known (Or.inl hlink)
      · rw [ties_queueAll, hties, hvs, List.append_nil] at hnew
        exact h.known (Or.inr hnew)
    · exact (hissued hvs).2
  · by_cases hvs : vs = []
    · rw [hvs, List.append_nil] at hne
      exact h.issued hne
    · exact hissued hvs
  · rw [tied_queueAll, hties, List.getLast?_append, Option.getD_or]
    exact congrArg _ (h.tied hp hq)

/-! ## Requests -/

/-- Between two living processes a link is asked for on both sides. -/
theorem linkDeliveries_of_lives (hn : n.Coherent) (hne : x ≠ y) (hx : n.lives x = true)
    (hy : n.lives y = true) : n.linkDeliveries x y = [⟨y, x, .link⟩, ⟨x, y, .link⟩] := by
  rcases lives_iff.mp hx with ⟨c, hc, -⟩
  rcases lives_iff.mp hy with ⟨c', hc', -⟩
  rw [linkDeliveries_of_isLocal hn hne (hn.isLocal hc) (hn.isLocal hc'), if_pos hy, if_pos hx]

/-- A request queues the same signal for both of the pair, in one order or the other. -/
theorem posts_of_asks (hn : n.Coherent) (hne : a ≠ b) (ha : n.lives a = true)
    (hb : n.lives b = true) {op : NodeOp} (hop : op.asks a b = some v) :
    ∃ s : Signal, s.tie? = some v ∧ (n.step op = n.queueAll [⟨b, a, s⟩, ⟨a, b, s⟩] ∨
      n.step op = n.queueAll [⟨a, b, s⟩, ⟨b, a, s⟩]) := by
  cases op with
  | link x y =>
      rw [NodeOp.asks] at hop
      split at hop
      next hpair =>
        refine ⟨.link, hop, ?_⟩
        rw [step, link_eq]
        -- Either of the two may be the one who asks, and that decides which signal goes first.
        rcases isPair_iff.mp hpair with ⟨rfl, rfl⟩ | ⟨rfl, rfl⟩
        · exact Or.inl (by rw [linkDeliveries_of_lives hn hne ha hb])
        · exact Or.inr (by rw [linkDeliveries_of_lives hn hne.symm hb ha])
      next => exact absurd hop (by simp)
  | unlink x y =>
      rw [NodeOp.asks] at hop
      split at hop
      next hpair =>
        refine ⟨.unlink, hop, ?_⟩
        rw [step, unlink_eq]
        rcases isPair_iff.mp hpair with ⟨rfl, rfl⟩ | ⟨rfl, rfl⟩
        · exact Or.inl (by rw [hn.deliveries_of_lives ha, hn.deliveries_of_lives hb]; rfl)
        · exact Or.inr (by rw [hn.deliveries_of_lives ha, hn.deliveries_of_lives hb]; rfl)
      next => exact absurd hop (by simp)
  | _ => exact absurd hop (by simp [NodeOp.asks])

/-- A request kills nobody and wakes nobody. -/
theorem lives_of_asks {op : NodeOp} (hop : op.asks a b = some v) (x : Pid) :
    (n.step op).lives x = n.lives x := by
  cases op with
  | link y z =>
      rw [step, link_eq]
      rfl
  | unlink y z =>
      rw [step, unlink_eq]
      rfl
  | _ => exact absurd hop (by simp [NodeOp.asks])

/-- Of two signals for two processes, each is for one. -/
theorem filterMap_tie_pair (hne : a ≠ b) {s : Signal} (hs : s.tie? = some v) :
    [⟨b, a, s⟩, ⟨a, b, s⟩].filterMap (tieBetween a b) = [v] ∧
      [⟨a, b, s⟩, ⟨b, a, s⟩].filterMap (tieBetween a b) = [v] := by
  have hfirst : tieBetween a b ⟨a, b, s⟩ = some v := tieBetween_eq_some_iff.mpr ⟨rfl, rfl, hs⟩
  have hsecond : tieBetween a b ⟨b, a, s⟩ = none := if_neg fun h => hne h.2
  exact ⟨by rw [List.filterMap_cons_none hsecond, List.filterMap_cons_some hfirst]; rfl,
    by rw [List.filterMap_cons_some hfirst, List.filterMap_cons_none hsecond]; rfl⟩

/-- A request about the pair, to be linked or not to be. -/
theorem follows_asks (hn : n.Coherent) (h : Follows p q n asked) (hne : p ≠ q)
    (hp : n.lives p = true) (hq : n.lives q = true) {op : NodeOp} (hop : op.asks p q = some v) :
    Follows p q (n.step op) (asked ++ [v]) := by
  rcases posts_of_asks hn hne hp hq hop with ⟨s, hs, hstep | hstep⟩ <;> rw [hstep]
  · exact h.queueAll hn (filterMap_tie_pair hne hs).1 fun _ => ⟨hp, hq⟩
  · exact h.queueAll hn (filterMap_tie_pair hne hs).2 fun _ => ⟨hp, hq⟩

/-- Two signals that go both ways between two processes that are not the pair. -/
theorem filterMap_tie_both_of_ne (h : isPair p q x y = false) (s : Signal) :
    (n.deliveries x s (.pid y) ++ n.deliveries y s (.pid x)).filterMap (tieBetween p q) = [] := by
  have hne := Bool.eq_false_iff.mp h
  rw [List.filterMap_append,
    filterMap_tie_deliveries_of_ne fun heq => hne (isPair_iff.mpr (Or.inr heq.symm)),
    filterMap_tie_deliveries_of_ne fun heq => hne (isPair_iff.mpr (Or.inl heq))]
  rfl

/-- A request about others. -/
theorem calm_of_not_pair {op : NodeOp} (hop : op = .link x y ∨ op = .unlink x y)
    (h : isPair p q x y = false) : Calm p q n (n.step op) := by
  rcases hop with rfl | rfl
  · rw [step, link_eq, linkDeliveries]
    split
    next => exact .refl p q n
    next =>
      split
      next => exact calm_queueAll fun d hd => tie?_of_deliveries rfl hd
      next => exact calm_queueAll_of_ties (filterMap_tie_both_of_ne h .link)
  · rw [step, unlink_eq]
    exact calm_queueAll_of_ties (filterMap_tie_both_of_ne h .unlink)

/-! ## Births -/

/-- A birth asks nothing, and the newborn has nothing on the way that could say otherwise. -/
theorem follows_makeProcess (hn : n.Coherent) (h : Follows p q n asked)
    (hm : n.makeProcess = (.ok x, n')) : Follows p q n' asked := by
  rcases makeProcess_ok hm with ⟨id, serial, table, hi, rfl, rfl⟩
  have hage := ages_addProcess hn hi
  refine ⟨fun hh => (known_addProcess hn h.known hi hh).ages hage,
    fun hne => (h.issued hne).imp (·.ages hage) (·.ages hage), fun hp hq => ?_⟩
  rw [tied_addProcess hn h.known hi]
  split
  next hnew =>
    -- Nothing was asked of a process that was not there.
    have hnone : asked = [] := Decidable.of_not_not fun hne => by
      rcases hnew with rfl | rfl
      · exact not_issued_of_insert hn hi (h.issued hne).1
      · exact not_issued_of_insert hn hi (h.issued hne).2
    rw [hnone]
    rfl
  next hnew =>
    rw [not_or] at hnew
    rw [lives, process?_addProcess, if_neg hnew.1] at hp
    rw [lives, process?_addProcess, if_neg hnew.2] at hq
    exact h.tied hp hq

/-- A process that is made in a link takes its side and tells the other. -/
theorem follows_spawnLink (hn : n.Coherent) (h : Follows p q n asked) {linked : Pid}
    (hthere : n.requests p q (.spawnLink linked) ≠ [] →
      (n.step (.spawnLink linked)).lives p = true ∧ (n.step (.spawnLink linked)).lives q = true) :
    Follows p q (n.step (.spawnLink linked)) (asked ++ n.requests p q (.spawnLink linked)) := by
  rw [requests, step] at *
  rcases spawnLink_cases n linked with he | ⟨x, n₁, hm, he⟩ <;> simp only [he] at hthere ⊢
  · rwa [List.append_nil]
  · rcases move_makeProcess (K := fun _ => False) hm with ⟨hmove, hx⟩
    have hn₁ := coherent_move hmove hn
    have hdeaf : ∀ y, ¬ n₁.Hears x y := by
      rcases makeProcess_ok hm with ⟨id, serial, table, hi, rfl, rfl⟩
      exact not_hears_addProcess hn hi
    have h₁ := follows_makeProcess hn h hm
    simp only [lives_birth] at hthere
    -- If the newborn and its partner are the pair, the condition says that both are alive.
    have hpair : isPair p q x linked = true → n₁.Issued p ∧ n₁.Issued q := fun hpair =>
      (hthere (by rw [if_pos hpair]; simp)).imp (issued_of_lives hn₁) (issued_of_lives hn₁)
    refine ⟨known_birth hx (issued_makeProcess hn hm) (fun hpx hqy => ?_) h₁.known, fun hne => ?_,
      fun hp hq => ?_⟩
    · exact hqy ▸ (hpair (isPair_iff.mpr (Or.inl ⟨hpx.symm, hqy.symm⟩))).2
    · -- A birth in another link is none of the business of this one.
      by_cases hxy : isPair p q x linked = true
      · exact hpair hxy
      · rw [if_neg hxy, List.append_nil] at hne
        exact h₁.issued hne
    · rw [lives_birth] at hp hq
      rw [tied_birth hn₁ hx hdeaf hp, List.getLast?_append, Option.getD_or]
      by_cases hxy : isPair p q x linked = true
      · rw [if_pos hxy, if_pos ((isPair_iff.mp hxy).symm.imp And.symm id)]
        rfl
      · rw [if_neg hxy, if_neg fun hor => hxy (isPair_iff.mpr (hor.symm.imp id And.symm))]
        exact h₁.tied hp hq

/-! ## Runs -/

/-- An exit signal that breaks a link is handled by a living process. -/
theorem attends_of_breaks {op : NodeOp} (h : (p, q) ∈ n.breaks op) :
    ∃ d ∈ n.attends op, tells q p d = true := by
  cases op with
  | handleInHand =>
      rw [breaks] at h
      rw [attends]
      rcases hq : n.queue.next? with _ | ⟨d, rest⟩
      · rw [hq] at h
        exact absurd h List.not_mem_nil
      · rw [hq] at h
        dsimp only at h ⊢
        -- Only the exit signal in hand, handled by a living target, can break a link.
        split at h
        next c reason hc hs =>
          split at h
          next hbreak =>
            rw [List.mem_singleton, Prod.mk.injEq] at h
            refine ⟨d, ?_, tells_iff.mpr ⟨⟨reason, hs⟩, h.2.symm, h.1.symm⟩⟩
            rw [if_pos (lives_of hc hbreak.1)]
            exact List.mem_singleton.mpr rfl
          next => exact absurd h List.not_mem_nil
        next => exact absurd h List.not_mem_nil
  | _ => exact absurd h List.not_mem_nil

/-- What is not about the link leaves it alone. -/
theorem calm_of_no_request (hn : n.Coherent) {op : NodeOp} (hbirth : op.isBirth = false)
    (hnone : op.asks p q = none) (hraw : ∀ d ∈ n.forgeries op, tieBetween p q d = none)
    (hexit : ∀ d ∈ n.attends op, tells q p d = false) : Calm p q n (n.step op) := by
  -- No exit signal goes from one to the other, so no link is broken on one side.
  have hbreaks : (p, q) ∉ n.breaks op := fun hmem => by
    rcases attends_of_breaks hmem with ⟨d, hd, htells⟩
    exact absurd (htells.symm.trans (hexit d hd)) (by simp)
  cases op with
  | link x y =>
      refine calm_of_not_pair (Or.inl rfl) (Bool.eq_false_iff.mpr fun hpair => ?_)
      rw [NodeOp.asks, if_pos hpair] at hnone
      exact absurd hnone (by simp)
  | unlink x y =>
      refine calm_of_not_pair (Or.inr rfl) (Bool.eq_false_iff.mpr fun hpair => ?_)
      rw [NodeOp.asks, if_pos hpair] at hnone
      exact absurd hnone (by simp)
  -- A signal that is sent directly. Those about links were asked not to be about this one.
  | signal sender s target =>
      rw [step, signal_snd]
      refine calm_queueAll_of_ties (List.filterMap_eq_nil_iff.mpr fun d hd => ?_)
      by_cases htie : d.signal.tie?.isSome = true
      · exact hraw d (List.mem_filter.mpr ⟨hd, htie⟩)
      · exact tieBetween_eq_none (Option.not_isSome_iff_eq_none.mp htie)
  | spawn | spawnLink | spawnMonitor => exact absurd hbirth (by simp [NodeOp.isBirth])
  | _ => exact calm_step hn rfl rfl rfl hbreaks

/-- One operation. A birth is a case of its own; any other operation asks something of the pair, or
    is calm. -/
theorem follows_step (hn : n.Coherent) (h : Follows p q n asked) (hne : p ≠ q) {op : NodeOp}
    (hthere : n.requests p q op ≠ [] →
      (n.step op).lives p = true ∧ (n.step op).lives q = true)
    (hraw : ∀ d ∈ n.forgeries op, tieBetween p q d = none)
    (hexit : ∀ d ∈ n.attends op, tells q p d = false) :
    Follows p q (n.step op) (asked ++ n.requests p q op) := by
  by_cases hbirth : op.isBirth = true
  · cases op with
    | spawn =>
        have hreq : n.requests p q .spawn = [] := rfl
        rw [hreq, List.append_nil, step, spawn]
        rcases hm : n.makeProcess with ⟨e | x, n₁⟩
        · rwa [(makeProcess_error hm).2]
        · exact follows_makeProcess hn h hm
    | spawnLink linked => exact follows_spawnLink hn h hthere
    | spawnMonitor watcher =>
        have hreq : n.requests p q (.spawnMonitor watcher) = [] := rfl
        rw [hreq, List.append_nil, step]
        rcases spawnMonitor_cases n watcher with he | ⟨x, n₁, hm, he⟩ <;> rw [he]
        · exact h
        · exact (follows_makeProcess hn h hm).calm (calm_watched watcher p q n.nextRef)
    | _ => exact absurd hbirth (by simp [NodeOp.isBirth])
  · have hreq : n.requests p q op = (op.asks p q).toList := by
      cases op with
      | spawnLink => exact absurd rfl hbirth
      | _ => rfl
    rw [hreq] at hthere ⊢
    rcases hop : op.asks p q with _ | v
    · rw [Option.toList_none, List.append_nil]
      exact h.calm (calm_of_no_request hn (Bool.not_eq_true _ ▸ hbirth) hop hraw hexit)
    · rw [hop] at hthere
      rcases hthere (List.cons_ne_nil v []) with ⟨hp, hq⟩
      rw [lives_of_asks hop] at hp hq
      exact follows_asks hn h hne hp hq hop

/-- Over a run both sides stand as was asked for last. The induction goes on with what was asked so
    far. -/
theorem follows_run (hn : n.Coherent) (h : Follows p q n asked) (hne : p ≠ q) {ops : List NodeOp}
    (hthere : ∀ i (hi : i < ops.length), (n.run (ops.take i)).requests p q ops[i] ≠ [] →
      (n.run (ops.take (i + 1))).lives p = true ∧ (n.run (ops.take (i + 1))).lives q = true)
    (hraw : ∀ d ∈ n.collect forgeries ops, tieBetween p q d = none)
    (hexit : ∀ d ∈ n.collect attends ops, tells q p d = false) :
    Follows p q (n.run ops) (asked ++ n.collect (requests p q) ops) := by
  induction ops generalizing n asked with
  | nil => rwa [collect, List.append_nil]
  | cons op rest ih =>
      rw [collect, List.forall_mem_append] at hraw hexit
      have hstep := follows_step hn h hne (hthere 0 (Nat.succ_pos rest.length)) hraw.1 hexit.1
      rw [collect, ← List.append_assoc]
      exact ih (coherent_step hn op) hstep
        (fun i hi => hthere (i + 1) (Nat.succ_lt_succ hi)) hraw.2 hexit.2

/-- Nothing was asked yet, and nobody is linked. -/
theorem follows_new (config : NodeConfig) (p q : Pid) : Follows p q (new config) [] :=
  ⟨(mutual_new config p q).known, fun hne => absurd rfl hne,
    fun hp => absurd hp (by simp [lives, process?, new])⟩

/-! ## Signals about links are handled -/

theorem obey_withQueue (n : Node) (q : Dispatcher) (d : Delivery) :
    (n.withQueue q).obey d = (n.obey d).withQueue q := by
  rw [obey, obey]
  rcases d.signal.tie? with _ | v <;> rfl

theorem foldl_obey_withQueue (n : Node) (q : Dispatcher) (ds : List Delivery) :
    ds.foldl obey (n.withQueue q) = (ds.foldl obey n).withQueue q := by
  induction ds generalizing n with
  | nil => rfl
  | cons d rest ih => rw [List.foldl_cons, obey_withQueue, ih, List.foldl_cons]

theorem Kept.obey (h : n.Kept p) (d : Delivery) : (n.obey d).Kept p := by
  rcases h with ⟨c, hc, ha, hh⟩
  rw [Node.obey]
  split
  next v _ =>
    by_cases hp : p = d.target
    · subst hp
      exact ⟨c.setLink d.sender v, process?_update_self hc _, ha, hh⟩
    · exact ⟨c, by rw [process?_update, if_neg hp, hc], ha, hh⟩
  next => exact ⟨c, hc, ha, hh⟩

/-- A signal about a link of a process that is held has its effect, and that is all. -/
theorem reclaim_handle_tie {d : Delivery} (htie : d.signal.tie? ≠ none) (h : n.Kept d.target) :
    (n.handle d).reclaim d.target = n.obey d := by
  rcases h with ⟨c, hc, ha, hh⟩
  rcases Option.ne_none_iff_exists'.mp htie with ⟨v, hv⟩
  have hhandle : n.handle d = n.update d.target (·.setLink d.sender v) := by
    rw [handle_eq hc, Process.react, if_pos ha, Process.reactAlive_of_tie c d.sender hv]
    exact update_congr hc rfl
  rw [hhandle, Node.obey, hv]
  -- There is a handle to the process, so it stays.
  exact reclaim_of_handles (process?_update_self hc _) hh

/-- While only signals about links of living processes wait, turns do nothing but give
    them their effects, in order. -/
theorem run_turns {ops : List NodeOp} (hops : ∀ op ∈ ops, op.isTurn = true)
    (hs : ∀ d ∈ n.queue.signals, d.signal.tie? ≠ none ∧ n.Kept d.target) :
    ∃ taken, n.queue.signals = taken ++ (n.run ops).queue.signals ∧
      n.run ops = (taken.foldl obey n).withQueue (n.run ops).queue := by
  induction ops generalizing n with
  | nil => exact ⟨[], rfl, rfl⟩
  | cons op rest ih =>
      rcases List.forall_mem_cons.mp hops with ⟨hop, hrest⟩
      cases op with
      | beginTurn =>
          -- To begin a turn only takes signals in hand.
          have hsame : (n.step .beginTurn).queue.signals = n.queue.signals :=
            Dispatcher.signals_beginTurn n.queue
          rcases ih (n := n.step .beginTurn) hrest (by rw [hsame]; exact hs) with
            ⟨taken, hsplit, hrun⟩
          rw [hsame] at hsplit
          refine ⟨taken, hsplit, hrun.trans ?_⟩
          have hfold := foldl_obey_withQueue n n.queue.beginTurn taken
          exact (congrArg (fun m : Node => m.withQueue _) hfold).trans rfl
      | handleInHand =>
          rw [run_cons, step]
          rcases handleInHand_cases n with ⟨-, hi⟩ | ⟨d, q, -, hsig, hi⟩ <;> rw [hi]
          · exact ih hrest hs
          · rw [hsig] at hs
            rcases List.forall_mem_cons.mp hs with ⟨⟨htie, hkept⟩, hlater⟩
            -- The first signal has its effect, and the rest is as in the state after it.
            rw [reclaim_handle_tie (n := n.withQueue q) htie hkept, obey_withQueue]
            rcases ih (n := (n.obey d).withQueue q) hrest fun e he =>
              ⟨(hlater e he).1, (hlater e he).2.obey d⟩ with ⟨taken, hsplit, hrun⟩
            refine ⟨d :: taken, ?_, hrun.trans ?_⟩
            · rw [hsig, List.cons_append]
              exact congrArg (d :: ·) hsplit
            · rw [foldl_obey_withQueue]
              rfl
      | _ => exact absurd hop (by simp [NodeOp.isTurn])

/-! ## The same request again -/

/-- To ask twice has the effect of asking once. -/
theorem joined_joined (hne : a ≠ b) (v : Bool) (n : Node) :
    joined v a b (joined v a b n) = joined v a b n := by
  -- The two processes are two, so the order in which they change does not matter.
  have hcomm : ∀ m : Node, (m.update b (·.setLink a v)).update a (·.setLink b v) =
      (m.update a (·.setLink b v)).update b (·.setLink a v) := fun m =>
    update_comm m fun heq => absurd heq.symm hne
  simp only [joined]
  rw [hcomm, update_update, update_update]
  simp only [Process.setLink_setLink]

/-- The two signals of a request have the same effect in both orders. -/
theorem foldl_obey_pair (hne : a ≠ b) {s : Signal} (hs : s.tie? = some v) (n : Node) :
    [⟨b, a, s⟩, ⟨a, b, s⟩].foldl obey n = joined v a b n ∧
      [⟨a, b, s⟩, ⟨b, a, s⟩].foldl obey n = joined v a b n := by
  have hobey : ∀ (m : Node) x y, m.obey ⟨x, y, s⟩ = m.update x (·.setLink y v) := by
    intro m x y
    simp only [obey, hs]
  simp only [List.foldl_cons, List.foldl_nil, hobey, joined, and_true]
  exact update_comm n fun heq => absurd heq.symm hne

/-- The same request, made some times and by either side, queues signals that have
    the effect of one. -/
theorem run_asks (hn : n.Coherent) (hne : a ≠ b) (ha : n.lives a = true) (hb : n.lives b = true)
    {calls : List NodeOp} (hcalls : ∀ op ∈ calls, op.asks a b = some v) :
    ∃ ds, n.run calls = n.queueAll ds ∧
      (∀ d ∈ ds, d.signal.tie? ≠ none ∧ (d.target = a ∨ d.target = b)) ∧
      ∀ m : Node, ds.foldl obey m = if calls = [] then m else joined v a b m := by
  induction calls generalizing n with
  | nil => exact ⟨[], rfl, fun d hd => absurd hd List.not_mem_nil, fun m => rfl⟩
  | cons op rest ih =>
      rcases List.forall_mem_cons.mp hcalls with ⟨hop, hrest⟩
      -- One request first: its two signals join the pair, whichever goes first.
      have hpair : ∃ ds, n.step op = n.queueAll ds ∧
          (∀ d ∈ ds, d.signal.tie? ≠ none ∧ (d.target = a ∨ d.target = b)) ∧
          ∀ m : Node, ds.foldl obey m = joined v a b m := by
        rcases posts_of_asks hn hne ha hb hop with ⟨s, hs, hstep | hstep⟩
        · exact ⟨_, hstep, by simp [hs], fun m => (foldl_obey_pair hne hs m).1⟩
        · exact ⟨_, hstep, by simp [hs], fun m => (foldl_obey_pair hne hs m).2⟩
      rcases hpair with ⟨ds, hstep, hties, heffect⟩
      rcases ih (coherent_step hn op) ((lives_of_asks hop a).trans ha)
        ((lives_of_asks hop b).trans hb) hrest with ⟨ds', hrun, hties', heffect'⟩
      refine ⟨ds ++ ds', ?_, List.forall_mem_append.mpr ⟨hties, hties'⟩, fun m => ?_⟩
      · rw [run_cons, hrun, hstep, queueAll_append]
      · rw [List.foldl_append, heffect, heffect', if_neg (List.cons_ne_nil op rest)]
        split
        · rfl
        · exact joined_joined hne v m

/-- Where nothing waits, two processes are asked to be linked, or not to be, any
    number of times and by either side, and everything is handled. Their two tables
    are then as they are after one request, and nothing else has changed. -/
theorem repeated_requests (hn : n.Reachable) (hquiet : n.queue.signals = []) (hne : a ≠ b)
    (ha : n.lives a = true) (hb : n.lives b = true) {calls ts : List NodeOp} (hsome : calls ≠ [])
    (hcalls : ∀ op ∈ calls, op.asks a b = some v) (hts : ∀ op ∈ ts, op.isTurn = true)
    (hend : (n.run (calls ++ ts)).queue.signals = []) :
    n.run (calls ++ ts) = (joined v a b n).withQueue (n.run (calls ++ ts)).queue := by
  -- Where nothing waits, only handles keep a process from being forgotten. So the living ones are
  -- held.
  have hkept : ∀ p, n.lives p = true → n.Kept p := by
    intro p hp
    rcases lives_iff.mp hp with ⟨c, hc, halive⟩
    refine ⟨c, hc, halive, (hn.held p c hc id).resolve_right fun htargets => ?_⟩
    rcases targets_iff.mp htargets with ⟨d, hd, -⟩
    rw [hquiet] at hd
    exact absurd hd List.not_mem_nil
  rcases run_asks hn.coherent hne ha hb hcalls with ⟨ds, hrun, hties, heffect⟩
  have hsignals : (n.queueAll ds).queue.signals = ds := by
    rw [signals_queueAll, hquiet, List.nil_append]
  rw [run_append, hrun] at hend ⊢
  have hwaits : ∀ d ∈ (n.queueAll ds).queue.signals,
      d.signal.tie? ≠ none ∧ (n.queueAll ds).Kept d.target := by
    rw [hsignals]
    intro d hd
    refine ⟨(hties d hd).1, ?_⟩
    rcases (hties d hd).2 with heq | heq
    · exact heq ▸ hkept a ha
    · exact heq ▸ hkept b hb
  -- The turns give the signals their effect. All of them are taken, since none is left.
  rcases run_turns hts hwaits with ⟨taken, hsplit, hturns⟩
  rw [hsignals, hend, List.append_nil] at hsplit
  refine hturns.trans ?_
  rw [← hsplit]
  change (ds.foldl obey (n.withQueue (n.queueAll ds).queue)).withQueue _ = _
  rw [foldl_obey_withQueue, heffect, if_neg hsome]
  rfl

/-! ## The law -/

/-- When nothing waits, two living processes list each other if the last request
    about them was one to be linked, and neither lists the other if it was one not to
    be, or if there was none. Every request about them came when both were alive, or
    made one of them; no exit signal of one was handled by the other; and nobody sent
    signals about their link directly. From there on it makes no difference how often
    a request is made, and by which of them. -/
theorem last_request_decides {config : NodeConfig} {ops : List NodeOp} (hne : a ≠ b)
    (ha : ((new config).run ops).lives a = true) (hb : ((new config).run ops).lives b = true)
    (hthere : ∀ i (hi : i < ops.length),
      ((new config).run (ops.take i)).requests a b ops[i] ≠ [] →
        ((new config).run (ops.take (i + 1))).lives a = true ∧
          ((new config).run (ops.take (i + 1))).lives b = true)
    (hexit : ∀ d ∈ (new config).collect attends ops, tells a b d = false ∧ tells b a d = false)
    (hraw : ∀ d ∈ (new config).collect forgeries ops,
      tieBetween a b d = none ∧ tieBetween b a d = none)
    (hquiet : ((new config).run ops).queue.signals = []) :
    (b ∈ ((new config).run ops).linksOf a ↔
        ((new config).collect (requests a b) ops).getLast? = some true) ∧
      (a ∈ ((new config).run ops).linksOf b ↔
        ((new config).collect (requests a b) ops).getLast? = some true) ∧
      ∀ (v : Bool) (calls ts : List NodeOp), calls ≠ [] →
        (∀ op ∈ calls, op.asks a b = some v) → (∀ op ∈ ts, op.isTurn = true) →
        ((new config).run (ops ++ (calls ++ ts))).queue.signals = [] →
        (new config).run (ops ++ (calls ++ ts)) =
          (joined v a b ((new config).run ops)).withQueue
            ((new config).run (ops ++ (calls ++ ts))).queue := by
  have hn := coherent_new config
  have houtcome : ∀ p q, ((new config).run ops).lives p = true →
      ((new config).run ops).lives q = true →
      Follows p q ((new config).run ops) ((new config).collect (requests a b) ops) →
      (q ∈ ((new config).run ops).linksOf p ↔
        ((new config).collect (requests a b) ops).getLast? = some true) := by
    intro p q hp hq h
    -- Nothing waits, so the table of each side is its outcome.
    have htied := h.tied hp hq
    rw [tied, ties, hquiet] at htied
    have hlinked : decide (q ∈ ((new config).run ops).linksOf p) =
        ((new config).collect (requests a b) ops).getLast?.getD false := htied
    rw [← decide_eq_true_iff (p := q ∈ _), hlinked]
    rcases ((new config).collect (requests a b) ops).getLast? with _ | v <;> simp
  have hab := follows_run hn (follows_new config a b) hne hthere (fun d hd => (hraw d hd).1)
    fun d hd => (hexit d hd).2
  have hba := follows_run hn (follows_new config b a) hne.symm
    (fun i hi hreq => (hthere i hi (by rwa [requests_symm] at hreq)).symm)
    (fun d hd => (hraw d hd).2) fun d hd => (hexit d hd).1
  rw [requests_symm] at hba
  refine ⟨houtcome a b ha hb hab, houtcome b a hb ha hba, ?_⟩
  intro v calls ts hsome hcalls hts hend
  rw [run_append] at hend ⊢
  exact repeated_requests ⟨config, ops, rfl⟩ hquiet hne ha hb hsome hcalls hts hend

/-- A process is made in a link with another one, the link is taken back and asked for
    again, while a third process sends one of them a signal of its own. -/
theorem last_request_decides_again :
    let ops : List NodeOp := [.spawn, .spawnLink (.ofSlot 1 0 0), .spawn,
      .unlink (.ofSlot 2 0 0) (.ofSlot 1 0 0), .signal (.ofSlot 3 0 0) .link (.pid (.ofSlot 1 0 0)),
      .link (.ofSlot 2 0 0) (.ofSlot 1 0 0), .beginTurn, .handleInHand, .handleInHand,
      .handleInHand, .handleInHand, .handleInHand, .handleInHand]
    let n := (new .standard).run ops
    n.queue.signals = [] ∧ n.lives (.ofSlot 1 0 0) = true ∧ n.lives (.ofSlot 2 0 0) = true ∧
      (new .standard).collect (requests (.ofSlot 1 0 0) (.ofSlot 2 0 0)) ops =
        [true, false, true] ∧
      (.ofSlot 2 0 0 ∈ n.linksOf (.ofSlot 1 0 0) ↔
        ((new .standard).collect (requests (.ofSlot 1 0 0) (.ofSlot 2 0 0)) ops).getLast? =
          some true) ∧
      .ofSlot 2 0 0 ∈ n.linksOf (.ofSlot 1 0 0) :=
  ⟨by decide, by decide, by decide, by decide,
    (last_request_decides (by decide) (by decide) (by decide) (by decide) (by decide) (by decide)
      (by decide)).1, by decide⟩

end Node

end Actors
