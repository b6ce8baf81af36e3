import Actors.Mailbox.Timed

/-!
# What a Mailbox Operation Does

The two searches of a mailbox, and what each operation does to the buffer, to
the waiting receivers and to the answers that lie ready.

Both searches stop at the first hit. `offer` walks the waiting receivers with
one message, `scan` walks the buffer with one test, and each is known by how
it splits the list it walks: what stands before the hit was turned down, the
hit was not, and everything else keeps its place. The splits are stated as
equivalences, so no later proof has to open either search again.

The two differ in what a broken test does to them. `offer` passes over a
receiver whose test breaks down, while `scan` gives up at once, because there
the broken test is the only one there is.

## Theorems

* `offer_eq_none_iff`: Nobody takes a message that everybody turns down.
* `offer_eq_some_iff`: The first receiver that accepts a message gets it.
* `offer_sublist`: The others keep their places.
* `scan_eq_nothing_iff`: Nothing is found where everything is rejected.
* `scan_eq_message_iff`: The first message that is accepted is found.
* `scan_sublist`: The other messages keep their places.
* `consumers_deliver_sublist`: A message that arrives adds no receiver.
* `mem_messages_deliver`: A message is buffered only if nobody takes it.
* `deliver_cases`: What can become of a message that arrives.
* `deliver_of_refused`: A message that everybody turns down is buffered.
* `pop_cases`, `tryPop_cases`, `poll_cases`, `cancel_cases`: What can become of
  a receiver that arrives, looks or gives up.
-/

namespace Actors

namespace Mailbox

variable {μ : Type}

/-! ## The search among the receivers -/

/-- An offer is turned down by everybody, or somebody takes it. A test that breaks down turns down
    as well. -/
theorem offer_eq_none_iff {m : μ} {cs : List (Consumer μ)} :
    offer m cs = none ↔ ∀ c ∈ cs, (c.matcher m).accepts = false := by
  induction cs with
  | nil => simp only [offer, List.not_mem_nil, false_implies, implies_true]
  | cons c rest ih =>
      rw [offer, List.forall_mem_cons]
      by_cases hc : (c.matcher m).accepts = true
      · rw [if_pos hc]
        exact ⟨fun h => absurd h (by simp), fun h => absurd hc (by rw [h.1]; simp)⟩
      · rw [if_neg hc, Option.map_eq_none_iff, ih]
        exact ⟨fun h => ⟨Bool.eq_false_iff.mpr hc, h⟩, fun h => h.2⟩

/-- The message goes to the first one who accepts it. The others keep their order, so a place in the
    line is never lost to a message that somebody else got. -/
theorem offer_eq_some_iff {m : μ} {cs others : List (Consumer μ)} {id : Nat} :
    offer m cs = some (id, others) ↔
      ∃ before c after, cs = before ++ c :: after ∧
        (∀ c' ∈ before, (c'.matcher m).accepts = false) ∧
        (c.matcher m).accepts = true ∧ c.id = id ∧ others = before ++ after := by
  induction cs generalizing others with
  | nil =>
      refine ⟨fun h => absurd h (by simp [offer]), ?_⟩
      rintro ⟨before, c, after, h, -⟩
      exact absurd h (by simp)
  | cons c rest ih =>
      rw [offer]
      by_cases hc : (c.matcher m).accepts = true
      · rw [if_pos hc, Option.some.injEq, Prod.mk.injEq]
        constructor
        · rintro ⟨hid, hrest⟩
          exact ⟨[], c, rest, rfl, by simp, hc, hid, hrest.symm⟩
        · rintro ⟨before, c', after, hsplit, hbefore, -, hid, hothers⟩
          -- The head accepts, so nothing can stand before the hit.
          cases before with
          | nil =>
              rw [List.nil_append, List.cons.injEq] at hsplit
              rw [hsplit.1, hid, hothers, hsplit.2]
              exact ⟨rfl, rfl⟩
          | cons b bs =>
              rw [List.cons_append, List.cons.injEq] at hsplit
              have hb := hbefore b List.mem_cons_self
              rw [← hsplit.1, hc] at hb
              exact absurd hb (by simp)
      · rw [if_neg hc, Option.map_eq_some_iff]
        constructor
        · rintro ⟨⟨id', others'⟩, hoffer, heq⟩
          rw [Prod.mk.injEq] at heq
          rw [heq.1] at hoffer
          rcases ih.mp hoffer with ⟨before, c', after, hsplit, hbefore, hacc, hid, hothers⟩
          -- The head was turned down, so it stands before the hit.
          refine ⟨c :: before, c', after, by rw [hsplit]; rfl, ?_, hacc, hid, ?_⟩
          · rw [List.forall_mem_cons]
            exact ⟨Bool.eq_false_iff.mpr hc, hbefore⟩
          · rw [← heq.2, hothers]
            rfl
        · rintro ⟨before, c', after, hsplit, hbefore, hacc, hid, hothers⟩
          cases before with
          | nil =>
              rw [List.nil_append, List.cons.injEq] at hsplit
              rw [hsplit.1] at hc
              exact absurd hacc hc
          | cons b bs =>
              rw [List.cons_append, List.cons.injEq] at hsplit
              -- The hit is in the rest, where the hypothesis finds it.
              refine ⟨(id, bs ++ after), ih.mpr ⟨bs, c', after, hsplit.2, ?_, hacc, hid, rfl⟩, ?_⟩
              · exact fun c'' h => hbefore c'' (List.mem_cons_of_mem b h)
              · rw [hsplit.1, hothers]
                rfl

/-- An offer takes one receiver out of the line and moves none. -/
theorem offer_sublist {m : μ} {cs others : List (Consumer μ)} {id : Nat}
    (h : offer m cs = some (id, others)) : others.Sublist cs := by
  rcases offer_eq_some_iff.mp h with ⟨before, c, after, rfl, -, -, -, rfl⟩
  exact (List.sublist_cons_self c after).append_left before

/-- A receiver that is not among the others is the one that was found. -/
theorem mem_or_eq_of_offer {m : μ} {cs others : List (Consumer μ)} {id : Nat}
    (h : offer m cs = some (id, others)) {c : Consumer μ} (hc : c ∈ cs) :
    c ∈ others ∨ c.id = id := by
  rcases offer_eq_some_iff.mp h with ⟨before, c', after, rfl, -, -, hid, rfl⟩
  rw [List.mem_append, List.mem_cons] at hc
  rcases hc with hc | rfl | hc
  · exact Or.inl (List.mem_append_left after hc)
  · exact Or.inr hid
  · exact Or.inl (List.mem_append_right before hc)

/-! ## The search in the buffer -/

/-- A search comes to its end exactly if every message is rejected. Unlike an offer it does not
    survive a test that breaks down. -/
theorem scan_eq_nothing_iff {test : Matcher μ} {ms : List μ} :
    scan test ms = .nothing ↔ ∀ m ∈ ms, test m = .reject := by
  induction ms with
  | nil => simp only [scan, List.not_mem_nil, false_implies, implies_true]
  | cons m rest ih =>
      rw [scan, List.forall_mem_cons]
      cases hm : test m with
      | accept => simp
      | panic text => simp
      | reject =>
          rw [← ih]
          cases scan test rest <;> simp

/-- The search takes the first message that the test accepts, provided that the test rejects all
    before it. -/
theorem scan_eq_message_iff {test : Matcher μ} {ms others : List μ} {m : μ} :
    scan test ms = .message m others ↔
      ∃ before after, ms = before ++ m :: after ∧ (∀ m' ∈ before, test m' = .reject) ∧
        test m = .accept ∧ others = before ++ after := by
  -- The buffer is searched front to back, so the induction is on the buffer.
  induction ms generalizing others with
  | nil =>
      refine ⟨fun h => absurd h (by simp [scan]), ?_⟩
      rintro ⟨before, after, h, -⟩
      exact absurd h (by simp)
  | cons x rest ih =>
      constructor
      · intro h
        rw [scan] at h
        split at h
        next hx =>
          rw [Found.message.injEq] at h
          exact ⟨[], rest, by rw [h.1]; rfl, by simp, h.1 ▸ hx, h.2.symm⟩
        next => exact absurd h (by simp)
        next hx =>
          split at h
          next m' others' hrest =>
            rw [Found.message.injEq] at h
            rw [h.1] at hrest
            rcases ih.mp hrest with ⟨before, after, hsplit, hbefore, hm, hothers⟩
            -- The search went on, so the head was rejected.
            refine ⟨x :: before, after, by rw [hsplit]; rfl, ?_, hm, by rw [← h.2, hothers]; rfl⟩
            rw [List.forall_mem_cons]
            exact ⟨hx, hbefore⟩
          next hne => exact absurd h (hne m others)
      · rintro ⟨before, after, hsplit, hbefore, hm, hothers⟩
        cases before with
        | nil =>
            rw [List.nil_append, List.cons.injEq] at hsplit
            rw [scan, hsplit.1, hm, hothers, hsplit.2]
            rfl
        | cons b bs =>
            rw [List.cons_append, List.cons.injEq] at hsplit
            rw [List.forall_mem_cons] at hbefore
            -- What stands before the hit was rejected, so the search gets there.
            have hrest := ih.mpr ⟨bs, after, hsplit.2, hbefore.2, hm, rfl⟩
            rw [scan, hsplit.1, hbefore.1, hrest, hothers]
            rfl

/-- What a search leaves in the buffer stays in order. -/
theorem scan_sublist {test : Matcher μ} {ms others : List μ} {m : μ}
    (h : scan test ms = .message m others) : others.Sublist ms := by
  rcases scan_eq_message_iff.mp h with ⟨before, after, rfl, -, -, rfl⟩
  exact (List.sublist_cons_self m after).append_left before

/-! ## A message arrives -/

/-- A message that arrives is dropped, or goes to the first receiver that accepts
    it, or is buffered because there is none. -/
theorem deliver_cases (b : Mailbox μ) (m : μ) (buffer : List μ → List μ) :
    (∃ reason, b.closed = some reason ∧ b.deliver m buffer = b) ∨
    (b.closed = none ∧ ∃ before c after, b.consumers = before ++ c :: after ∧
      (∀ c' ∈ before, (c'.matcher m).accepts = false) ∧ (c.matcher m).accepts = true ∧
      b.deliver m buffer = { b with
        consumers := before ++ after
        resolved := b.resolved ++ [(c.id, .message m)] }) ∨
    (b.closed = none ∧ (∀ c ∈ b.consumers, (c.matcher m).accepts = false) ∧
      b.deliver m buffer = { b with messages := buffer b.messages }) := by
  rw [deliver, isClosed]
  rcases hclosed : b.closed with _ | reason
  · rw [if_neg (by simp)]
    split
    next id others hoffer =>
      rcases offer_eq_some_iff.mp hoffer with ⟨before, c, after, hsplit, hbefore, hc, rfl, rfl⟩
      exact Or.inr (Or.inl ⟨rfl, before, c, after, hsplit, hbefore, hc, rfl⟩)
    next hoffer => exact Or.inr (Or.inr ⟨rfl, offer_eq_none_iff.mp hoffer, rfl⟩)
  · exact Or.inl ⟨reason, rfl, if_pos rfl⟩

/-- A message that everybody turns down is buffered. -/
theorem deliver_of_refused {b : Mailbox μ} (hopen : b.closed = none) {m : μ}
    (h : ∀ c ∈ b.consumers, (c.matcher m).accepts = false) (buffer : List μ → List μ) :
    b.deliver m buffer = { b with messages := buffer b.messages } := by
  rw [deliver, isClosed, hopen, if_neg (by simp), offer_eq_none_iff.mpr h]

/-- A message that arrives brings no receiver and moves none. -/
theorem consumers_deliver_sublist (b : Mailbox μ) (m : μ) (buffer : List μ → List μ) :
    (b.deliver m buffer).consumers.Sublist b.consumers := by
  rw [deliver]
  split
  · exact List.Sublist.refl _
  · split
    next id others h => exact offer_sublist h
    next => exact List.Sublist.refl _

/-- What is in the buffer after a message arrived was there before, or it is
    the message, and then nobody who waits accepts it. -/
theorem mem_messages_deliver {b : Mailbox μ} {m x : μ} {buffer : List μ → List μ}
    (hbuffer : ∀ ms, ∀ y ∈ buffer ms, y ∈ ms ∨ y = m)
    (hx : x ∈ (b.deliver m buffer).messages) :
    x ∈ b.messages ∨ (x = m ∧ ∀ c ∈ b.consumers, (c.matcher m).accepts = false) := by
  rw [deliver] at hx
  split at hx
  · exact Or.inl hx
  · split at hx
    next => exact Or.inl hx
    next hoffer => exact (hbuffer b.messages x hx).imp id fun h => ⟨h, offer_eq_none_iff.mp hoffer⟩

/-- Only an arrival uses up a number. -/
@[simp] theorem nextId_deliver (b : Mailbox μ) (m : μ) (buffer : List μ → List μ) :
    (b.deliver m buffer).nextId = b.nextId := by
  rw [deliver]
  split
  · rfl
  · split <;> rfl

/-- A message neither opens a mailbox nor closes it. -/
@[simp] theorem closed_deliver (b : Mailbox μ) (m : μ) (buffer : List μ → List μ) :
    (b.deliver m buffer).closed = b.closed := by
  rw [deliver]
  split
  · rfl
  · split <;> rfl

/-! ## Receivers come and go -/

/-- The four ways in which it can go for a receiver that arrives. -/
theorem pop_cases (b : Mailbox μ) (test : Matcher μ) :
    (∃ reason, b.closed = some reason ∧ b.pop test = (.done (.error (.closed reason)), b)) ∨
    (b.closed = none ∧ ∃ m others, scan test b.messages = .message m others ∧
      b.pop test = (.done (.ok m), { b with messages := others })) ∨
    (b.closed = none ∧ ∃ text, scan test b.messages = .panic text ∧
      b.pop test = (.panic text, b)) ∨
    (b.closed = none ∧ scan test b.messages = .nothing ∧
      b.pop test = (.waiting b.nextId,
        { b with consumers := b.consumers ++ [⟨b.nextId, test⟩], nextId := b.nextId + 1 })) := by
  rw [pop]
  split
  next reason hclosed => exact Or.inl ⟨reason, hclosed, rfl⟩
  next hopen =>
    refine Or.inr ?_
    split
    next m others hscan => exact Or.inl ⟨hopen, m, others, hscan, rfl⟩
    next text hscan => exact Or.inr (Or.inl ⟨hopen, text, hscan, rfl⟩)
    next hscan => exact Or.inr (Or.inr ⟨hopen, hscan, rfl⟩)

/-- Who does not wait takes a message, or finds nothing, or has a test that breaks down. -/
theorem tryPop_cases (b : Mailbox μ) (test : Matcher μ) :
    (∃ m others, scan test b.messages = .message m others ∧
      b.tryPop test = (.message m, { b with messages := others })) ∨
    b.tryPop test = (.nothing, b) ∨ ∃ text, b.tryPop test = (.panic text, b) := by
  rw [tryPop]
  split
  next => exact Or.inr (Or.inl rfl)
  next m others hscan => exact Or.inl ⟨m, others, hscan, rfl⟩
  next text _ => exact Or.inr (Or.inr ⟨text, rfl⟩)

/-- A receiver that looks sees the answer that lies ready. Without one it leaves
    at its deadline, and goes on waiting before. -/
theorem poll_cases (b : Mailbox μ) (id : Nat) (expired : Bool) :
    (∃ r, b.resolved.lookup id = some r ∧ b.poll id expired = (some r.result, b.observe id)) ∨
    (b.resolved.lookup id = none ∧
      b.poll id expired = (some (.error .timeout), b.withdraw id)) ∨
    (b.resolved.lookup id = none ∧ b.poll id expired = (none, b)) := by
  rw [poll]
  rcases b.resolved.lookup id with _ | r
  · cases expired
    · exact Or.inr (Or.inr ⟨rfl, rfl⟩)
    · exact Or.inr (Or.inl ⟨rfl, rfl⟩)
  · exact Or.inl ⟨r, rfl, rfl⟩

/-- A receiver that gives up leaves, and what it got comes back. -/
theorem cancel_cases (b : Mailbox μ) (id : Nat) :
    (b.resolved.lookup id = none ∧ b.cancel id = b.withdraw id) ∨
    (∃ m, b.resolved.lookup id = some (.message m) ∧
      b.cancel id = (b.observe id).restore m) ∨
    ∃ reason, b.resolved.lookup id = some (.closed reason) ∧ b.cancel id = b.observe id := by
  rw [cancel]
  rcases b.resolved.lookup id with _ | m | reason
  · exact Or.inl ⟨rfl, rfl⟩
  · exact Or.inr (Or.inl ⟨m, rfl, rfl⟩)
  · exact Or.inr (Or.inr ⟨reason, rfl, rfl⟩)

/-- A receiver that has to wait gets the next number and stands last. -/
theorem pop_waiting {b b' : Mailbox μ} {test : Matcher μ} {id : Nat}
    (h : b.pop test = (.waiting id, b')) :
    id = b.nextId ∧ b'.nextId = b.nextId + 1 ∧ b'.consumers = b.consumers ++ [⟨id, test⟩] := by
  rcases pop_cases b test with ⟨reason, -, hp⟩ | ⟨-, m, others, -, hp⟩ | ⟨-, text, -, hp⟩ |
    ⟨-, -, hp⟩
  · exact absurd (h.symm.trans hp) (by simp)
  · exact absurd (h.symm.trans hp) (by simp)
  · exact absurd (h.symm.trans hp) (by simp)
  · rw [hp, Prod.mk.injEq, Pop.waiting.injEq] at h
    rw [← h.1, ← h.2]
    exact ⟨rfl, rfl, rfl⟩

/-- A receiver that withdraws leaves the order of the others alone. -/
theorem withdraw_consumers_sublist (b : Mailbox μ) (id : Nat) :
    (b.withdraw id).consumers.Sublist b.consumers := List.filter_sublist

/-- A receiver that looks may be the one to leave, and nobody is added. -/
theorem poll_consumers_sublist (b : Mailbox μ) (id : Nat) (expired : Bool) :
    (b.poll id expired).2.consumers.Sublist b.consumers := by
  rw [poll]
  split
  · exact List.Sublist.refl _
  · split
    · exact withdraw_consumers_sublist b id
    · exact List.Sublist.refl _

/-- A receiver that gives up may send another one away with the message it hands back, but it brings
    nobody. -/
theorem cancel_consumers_sublist (b : Mailbox μ) (id : Nat) :
    (b.cancel id).consumers.Sublist b.consumers := by
  rw [cancel]
  split
  next => exact withdraw_consumers_sublist b id
  next m _ => exact consumers_deliver_sublist (b.observe id) m _
  next => exact List.Sublist.refl _

/-- Who does not wait never stands in the line. -/
@[simp] theorem consumers_tryPop (b : Mailbox μ) (test : Matcher μ) :
    (b.tryPop test).2.consumers = b.consumers := by
  rw [tryPop]
  split <;> rfl

/-! ## The numbers of the receivers -/

/-- To give up uses up no number, not even if a message goes back. -/
@[simp] theorem nextId_cancel (b : Mailbox μ) (id : Nat) :
    (b.cancel id).nextId = b.nextId := by
  rw [cancel]
  split
  next => rfl
  next m _ => exact nextId_deliver (b.observe id) m _
  next => rfl

/-- Nor does an attempt that does not wait. -/
@[simp] theorem nextId_tryPop (b : Mailbox μ) (test : Matcher μ) :
    (b.tryPop test).2.nextId = b.nextId := by
  rw [tryPop]
  split <;> rfl

/-- Nor does a look. -/
@[simp] theorem nextId_poll (b : Mailbox μ) (id : Nat) (expired : Bool) :
    (b.poll id expired).2.nextId = b.nextId := by
  rcases poll_cases b id expired with ⟨r, -, hp⟩ | ⟨-, hp⟩ | ⟨-, hp⟩ <;> rw [hp] <;> rfl

/-- Numbers only go up. -/
theorem nextId_le_pop (b : Mailbox μ) (test : Matcher μ) : b.nextId ≤ (b.pop test).2.nextId := by
  rcases pop_cases b test with ⟨reason, -, hp⟩ | ⟨-, m, others, -, hp⟩ | ⟨-, text, -, hp⟩ |
    ⟨-, -, hp⟩
  · exact Nat.le_of_eq (by rw [hp])
  · exact Nat.le_of_eq (by rw [hp])
  · exact Nat.le_of_eq (by rw [hp])
  · rw [hp]
    exact Nat.le_succ _

/-- A receiver that arrives uses up one number at most. -/
theorem nextId_pop_le (b : Mailbox μ) (test : Matcher μ) :
    (b.pop test).2.nextId ≤ b.nextId + 1 := by
  rcases pop_cases b test with ⟨reason, -, hp⟩ | ⟨-, m, others, -, hp⟩ | ⟨-, text, -, hp⟩ |
    ⟨-, -, hp⟩
  · exact Nat.le_succ_of_le (Nat.le_of_eq (by rw [hp]))
  · exact Nat.le_succ_of_le (Nat.le_of_eq (by rw [hp]))
  · exact Nat.le_succ_of_le (Nat.le_of_eq (by rw [hp]))
  · exact Nat.le_of_eq (by rw [hp])

end Mailbox

end Actors
