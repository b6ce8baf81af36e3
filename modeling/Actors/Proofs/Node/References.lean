import Actors.Proofs.Node.Ageing

/-!
# References Are Made Once

A node counts the references it makes, and a reference is the count at which it
was made. An operation makes one reference at most. So a run makes the
references of 0, 1, 2 and so on, and they differ until the counter of 64 bits
comes around.

A reference holds its count in two halves of 32 bits. They are compared one after
the other, the high half first, and that gives the order of the counts, also where
the low half overflows into the high one. So until the counter comes around, a
reference stands after all that were made before it.

## Main definitions

* `Node.ReferenceLaw`: What can be relied on about the references that a run makes.

## Theorems

* `Ref.order_ofCounter`, `Ref.ofCounter_inj`: References stand like their counts,
  and a reference tells the count.
* `makes_cases`: An operation makes the next reference, or none.
* `refs_run`: Nothing but a reference that is made moves the counter.
* `collect_makes`: The references a run makes, in order.
* `nodup_makes`: They differ as long as the counter does not come around.
* `increasing_makes`: They stand in the order in which they were made.
* `made_once`: No other operation makes the same one.
* `references_like_counter`: References after every run, and the order of all counts.
-/

namespace Actors

namespace Ref

/-! ## Counts and references -/

instance : Std.TransCmp order := by
  unfold order
  infer_instance

theorem toNat_id_ofCounter (x : UInt64) (creation : UInt32) :
    (ofCounter x creation).id.toNat = x.toNat / UInt32.size := by
  have hx := x.toNat_lt
  rw [ofCounter, UInt64.toNat_toUInt32, UInt64.toNat_shiftRight, Nat.shiftRight_eq_div_pow]
  change x.toNat / 4294967296 % 4294967296 = x.toNat / 4294967296
  omega

theorem toNat_serial_ofCounter (x : UInt64) (creation : UInt32) :
    (ofCounter x creation).serial.toNat = x.toNat % UInt32.size := UInt64.toNat_toUInt32 x

/-- Node and incarnation are the same, so only the halves of the counts are compared. -/
theorem order_ofCounter_eq_then (x y : UInt64) (creation : UInt32) :
    (ofCounter x creation).order (.ofCounter y creation) =
      (compare (ofCounter x creation).id (ofCounter y creation).id).then
        (compare (ofCounter x creation).serial (ofCounter y creation).serial) := by
  simp only [order, compareLex, compareOn, ofCounter, Std.compare_self, Ordering.eq_then,
    Ordering.then_eq]

theorem order_ofCounter_of_lt {x y : UInt64} (h : x < y) (creation : UInt32) :
    (ofCounter x creation).order (.ofCounter y creation) = .lt := by
  rw [UInt64.lt_iff_toNat_lt] at h
  rw [order_ofCounter_eq_then, Ordering.then_eq_lt, Std.compare_eq_lt, Std.compare_eq_lt,
    Std.compare_eq_iff_eq, UInt32.lt_iff_toNat_lt, UInt32.lt_iff_toNat_lt, ← UInt32.toNat_inj,
    toNat_id_ofCounter, toNat_id_ofCounter, toNat_serial_ofCounter, toNat_serial_ofCounter,
    UInt32.size]
  -- The larger count has the larger quotient, or the same one and the larger remainder.
  omega

/-- References of one incarnation are ordered like their counts. -/
theorem order_ofCounter (x y : UInt64) (creation : UInt32) :
    (ofCounter x creation).order (.ofCounter y creation) = compare x y := by
  rcases hxy : compare x y with _ | _ | _
  · exact order_ofCounter_of_lt (Std.compare_eq_lt.mp hxy) creation
  · rw [Std.compare_eq_iff_eq.mp hxy]
    exact order_eq_iff.mpr rfl
  · have hyx := order_ofCounter_of_lt (Std.compare_eq_gt.mp hxy) creation
    exact Std.OrientedCmp.gt_iff_lt.mpr hyx

theorem ofCounter_inj {x y : UInt64} {creation : UInt32} :
    ofCounter x creation = ofCounter y creation ↔ x = y := by
  rw [← order_eq_iff, order_ofCounter, Std.compare_eq_iff_eq]

end Ref

namespace Node

variable {n : Node}

theorem refs_of_makeProcess {n' : Node} {p : Pid} (h : n.makeProcess = (.ok p, n')) :
    n'.refs = n.refs := by
  rcases makeProcess_ok h with ⟨id, serial, table, -, -, rfl⟩
  rfl

theorem refs_track (n : Node) (watcher : Pid) (ref : Ref) (watchee : Pid) :
    (n.track watcher ref watchee).refs = n.refs := by
  rcases track_cases n watcher ref watchee with h | h <;> rw [h]
  rfl

theorem refs_die (n : Node) (p : Pid) (reason : Term) : (n.die p reason).refs = n.refs := by
  rcases die_cases n p reason with ⟨hd, -⟩ | ⟨c, -, -, hd⟩ <;> rw [hd]
  rfl

theorem refs_reclaim (n : Node) (p : Pid) : (n.reclaim p).refs = n.refs := by
  rcases reclaim_cases n p with ⟨hr, -⟩ | ⟨c, -, -, -, ⟨-, hr⟩ | ⟨-, hr⟩⟩ <;> rw [hr] <;> rfl

theorem refs_handleInHand (n : Node) : n.handleInHand.refs = n.refs := by
  rcases handleInHand_cases n with ⟨-, hi⟩ | ⟨d, q, -, -, hi⟩ <;> rw [hi]
  rw [refs_reclaim]
  rcases hc : (n.withQueue q).process? d.target with _ | c
  · rw [handle_of_none hc]
    rfl
  · rcases handle_cases hc with ⟨-, hd⟩ | ⟨-, c', -, hd⟩ | ⟨-, reason, -, -, hd⟩ <;> rw [hd] <;> rfl

/-- An operation makes the next reference, or none. -/
theorem makes_cases (n : Node) (op : NodeOp) :
    (n.makes op = [] ∧ (n.step op).refs = n.refs) ∨
      (n.makes op = [n.nextRef] ∧ (n.step op).refs = n.refs + 1) := by
  have hkept : op.isClerical = true ∨ op.isPosting = true → (n.step op).refs = n.refs :=
    fun hop => (processes_step n hop).2.2
  cases op with
  | makeRef => exact Or.inr ⟨rfl, rfl⟩
  | makePid =>
      refine Or.inl ⟨rfl, ?_⟩
      rw [step]
      rcases makePid_cases n with he | ⟨id, serial, table, -, he⟩ <;> rw [he]
  | spawn =>
      refine Or.inl ⟨rfl, ?_⟩
      rw [step, spawn]
      rcases makeProcess_cases n with he | ⟨id, serial, table, -, he⟩ <;> rw [he]
      rfl
  | spawnLink linked =>
      refine Or.inl ⟨rfl, ?_⟩
      rw [step]
      rcases spawnLink_cases n linked with he | ⟨p, n', hm, he⟩ <;> rw [he]
      have hrefs := refs_of_makeProcess hm
      exact hrefs
  | spawnMonitor watcher =>
      rw [step, makes]
      -- The reference is only made if the process is.
      rcases spawnMonitor_cases n watcher with he | ⟨p, n', hm, he⟩ <;> rw [he]
      · exact Or.inl ⟨rfl, rfl⟩
      · refine Or.inr ⟨rfl, ?_⟩
        rw [refs_track]
        exact congrArg (· + 1) (refs_of_makeProcess hm)
  | signal | link | unlink => exact Or.inl ⟨rfl, hkept (Or.inr rfl)⟩
  | monitor watcher watchee =>
      rw [step, makes, monitor_eq]
      refine Or.inr ⟨rfl, ?_⟩
      exact refs_track n.countRef watcher n.nextRef watchee
  | demonitor watcher ref =>
      refine Or.inl ⟨rfl, ?_⟩
      rw [step]
      rcases demonitor_cases n watcher ref with hd | ⟨c, watchee, -, -, hd⟩ <;> rw [hd]
      rfl
  | register | unregister | registerRouter | unregisterRouter | nodeIndex | remotePid =>
      exact Or.inl ⟨rfl, hkept (Or.inl rfl)⟩
  | die p reason => exact Or.inl ⟨rfl, refs_die n p reason⟩
  | letGo p => exact Or.inl ⟨rfl, refs_reclaim _ p⟩
  | handleInHand => exact Or.inl ⟨rfl, refs_handleInHand n⟩
  | setFlag | receive | reorder | retain | beginTurn => exact Or.inl ⟨rfl, rfl⟩

theorem add_ofNat_succ (x : UInt64) (k : Nat) :
    x + UInt64.ofNat (k + 1) = x + 1 + UInt64.ofNat k := by
  rw [UInt64.ofNat_add, UInt64.add_assoc, UInt64.add_comm 1]
  rfl

/-- The counter goes up by one for every reference that a run makes, and for nothing else. -/
theorem refs_run (n : Node) (ops : List NodeOp) :
    (n.run ops).refs = n.refs + UInt64.ofNat (n.collect makes ops).length := by
  induction ops generalizing n with
  | nil => exact (UInt64.add_zero n.refs).symm
  | cons op rest ih =>
      rw [run_cons, ih, collect]
      -- Either way the list of references and the counter move together.
      rcases makes_cases n op with ⟨hm, hrefs⟩ | ⟨hm, hrefs⟩ <;> rw [hm, hrefs]
      · rw [List.nil_append]
      · rw [List.singleton_append, List.length_cons, add_ofNat_succ]

/-- A count that the counter reaches before it comes around. -/
theorem toNat_refs_add {k : Nat} (h : n.refs.toNat + k < UInt64.size) :
    (n.refs + UInt64.ofNat k).toNat = n.refs.toNat + k := by
  rw [UInt64.toNat_add, UInt64.toNat_ofNat_of_lt' (Nat.lt_of_le_of_lt (Nat.le_add_left _ _) h)]
  exact Nat.mod_eq_of_lt h

/-- The references a run makes, in order: those of the next counts. -/
theorem collect_makes (h : n.Coherent) (ops : List NodeOp) :
    n.collect makes ops = (List.range (n.collect makes ops).length).map fun k =>
      .ofCounter (n.refs + UInt64.ofNat k) n.creation := by
  induction ops generalizing n with
  | nil => rfl
  | cons op rest ih =>
      have hrest := ih (coherent_step h op)
      rw [(ages_step h op).creation] at hrest
      rw [collect]
      rcases makes_cases n op with ⟨hm, hrefs⟩ | ⟨hm, hrefs⟩ <;> rw [hrefs] at hrest <;> rw [hm]
      · rw [List.nil_append]
        exact hrest
      · -- The first is made at this count, and the others are counted from the next one.
        rw [List.singleton_append, List.length_cons, List.range_succ_eq_map, List.map_cons,
          List.map_map]
        refine List.cons_eq_cons.mpr ⟨?_, ?_⟩
        · rw [nextRef, show UInt64.ofNat 0 = 0 from rfl, UInt64.add_zero]
        · refine hrest.trans (List.map_congr_left fun k _ => ?_)
          rw [Function.comp_apply, Nat.succ_eq_add_one, add_ofNat_succ]

/-- The references of a run differ as long as the counter does not come around. -/
theorem nodup_makes (h : n.Coherent) {ops : List NodeOp}
    (hlen : (n.collect makes ops).length ≤ UInt64.size) : (n.collect makes ops).Nodup := by
  rw [collect_makes h ops]
  refine List.pairwise_map.mpr (List.nodup_range.imp_of_mem fun {i j} hi hj hne heq => hne ?_)
  rw [List.mem_range] at hi hj
  -- Two places with one reference have one count, and there are no more places than counts.
  have hsum := congrArg UInt64.toNat (UInt64.add_right_inj _ |>.mp (Ref.ofCounter_inj.mp heq))
  rw [UInt64.toNat_ofNat_of_lt' (Nat.lt_of_lt_of_le hi hlen),
    UInt64.toNat_ofNat_of_lt' (Nat.lt_of_lt_of_le hj hlen)] at hsum
  exact hsum

/-- Until the counter comes around, a reference stands after all that were made before it. -/
theorem increasing_makes (h : n.Coherent) {ops : List NodeOp}
    (hlen : n.refs.toNat + (n.collect makes ops).length ≤ UInt64.size) :
    (n.collect makes ops).Pairwise fun q r => q.order r = .lt := by
  rw [collect_makes h ops]
  refine List.pairwise_map.mpr (List.pairwise_lt_range.imp_of_mem fun {i j} hi hj hlt => ?_)
  rw [List.mem_range] at hi hj
  rw [Ref.order_ofCounter, Std.compare_eq_lt, UInt64.lt_iff_toNat_lt, toNat_refs_add (by omega),
    toNat_refs_add (by omega)]
  exact Nat.add_lt_add_left hlt n.refs.toNat

/-- A reference is made neither before nor after the operation that makes it. -/
theorem made_once {before after : List NodeOp} {op : NodeOp} {r : Ref}
    (hnodup : (n.collect makes (before ++ op :: after)).Nodup)
    (hmade : r ∈ (n.run before).makes op) :
    r ∉ n.collect makes before ∧ r ∉ ((n.run before).step op).collect makes after := by
  rw [collect_append, collect, List.nodup_append, List.nodup_append] at hnodup
  refine ⟨fun hmem => ?_, fun hmem => ?_⟩
  · exact hnodup.2.2 r hmem r (List.mem_append_left _ hmade) rfl
  · exact hnodup.2.1.2.2 r hmade r hmem rfl

/-! ## The law of references -/

/-- What can be relied on about the references that a run makes. -/
structure ReferenceLaw (start : Node) (ops : List NodeOp) : Prop where
  /-- At any moment the counter has gone up by one for every reference that was made, and
      for nothing else. -/
  counted : ∀ before after, ops = before ++ after →
    (start.run before).refs.toNat = start.refs.toNat + (start.collect makes before).length
  /-- The references are those of the next counts, in order. -/
  numbered : ∀ (k : Nat) (r : Ref), (start.collect makes ops)[k]? = some r →
    r = .ofCounter (.ofNat (start.refs.toNat + k)) start.creation
  /-- A reference stands after all that were made before it. -/
  increasing : (start.collect makes ops).Pairwise fun q r => q.order r = .lt
  /-- No reference is made twice. -/
  distinct : (start.collect makes ops).Nodup

/-- A run keeps the law wherever the counter stands, if it does not come around. -/
theorem Coherent.referenceLaw (h : n.Coherent) {ops : List NodeOp}
    (hlen : n.refs.toNat + (n.collect makes ops).length < UInt64.size) : n.ReferenceLaw ops := by
  refine ⟨?_, fun k r hr => ?_, increasing_makes h (Nat.le_of_lt hlen),
    nodup_makes h (Nat.le_trans (Nat.le_add_left _ _) (Nat.le_of_lt hlen))⟩
  · -- What is made before a place is no more than what the whole run makes.
    rintro before after rfl
    rw [collect_append, List.length_append] at hlen
    rw [refs_run, toNat_refs_add (by omega)]
  · rw [collect_makes h ops, List.getElem?_map, Option.map_eq_some_iff] at hr
    rcases hr with ⟨i, hi, rfl⟩
    rcases List.getElem?_eq_some_iff.mp hi with ⟨hk, hik⟩
    rw [List.getElem_range] at hik
    rw [hik, UInt64.ofNat_add, UInt64.ofNat_toNat]

/-- References stand like their counts, for all counts and in every incarnation, so a
    reference tells the count. A new node that makes fewer references than there are counts
    makes them in increasing order, and none of them twice, whatever else happens. -/
theorem references_like_counter :
    (∀ (x y : UInt64) (creation : UInt32),
      (Ref.ofCounter x creation).order (.ofCounter y creation) = compare x y ∧
        (Ref.ofCounter x creation = .ofCounter y creation ↔ x = y)) ∧
    ∀ (config : NodeConfig) (ops : List NodeOp),
      ((new config).collect makes ops).length < UInt64.size →
        (new config).ReferenceLaw ops := by
  refine ⟨fun x y creation => ⟨Ref.order_ofCounter x y creation, Ref.ofCounter_inj⟩, ?_⟩
  intro config ops hlen
  have hzero : (new config).refs.toNat = 0 := rfl
  refine (coherent_new config).referenceLaw ?_
  rw [hzero, Nat.zero_add]
  exact hlen

/-- A node with room for two processes makes references in every way there is, and is once
    refused; and the last count with one high half stands before the first with the next. -/
theorem references_like_counter_full :
    let config := NodeConfig.standard.withMaxProcesses 2
    let ops := [.makeRef, .spawn, .spawnMonitor (.ofSlot 1 0 0),
      .monitor (.ofSlot 2 0 0) (.ofSlot 9 0 0), .spawnMonitor (.ofSlot 2 0 0), .beginTurn,
      .handleInHand, .die (.ofSlot 1 0 0) Reason.shutdown, .demonitor (.ofSlot 2 0 0)
      (.ofCounter 2 0), .makeRef]
    ((new config).collect makes ops).length < UInt64.size ∧
      (new config).ReferenceLaw ops ∧
      (new config).collect makes ops =
        [.ofCounter 0 0, .ofCounter 1 0, .ofCounter 2 0, .ofCounter 3 0] ∧
      (Ref.ofCounter 0xffffffff 0).order (.ofCounter 0x100000000 0) = .lt := by
  intro config ops
  have hlen : ((new config).collect makes ops).length < UInt64.size := by decide
  exact ⟨hlen, references_like_counter.2 config ops hlen, by decide,
    (references_like_counter.1 0xffffffff 0x100000000 0).1.trans (by decide)⟩

end Node

end Actors
