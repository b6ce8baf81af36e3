import Actors.Proofs.Node.Outlook
import Actors.Proofs.Node.Watching

/-!
# The Survivor Is Informed

Two processes are to be linked, and one of them ends: before the request, before
the two sides were told of it, when only one of them was, or later. The other one
is owed an exit signal. While the partner is alive, it lists the survivor or has
the request still waiting, so that the survivor is among those to whom it will say
farewell. When it has ended, its farewell waits for the survivor, or the request
waits for the dead process and will be answered, or the survivor was told already.
`Owed` says so, and every operation keeps it.

Some operations do not. Whoever takes a link back, or asks the partner to end,
takes itself from the partner's list, and who asks for a link after its own end
puts itself on the list of a process that it will not say farewell to. These are
`parts`. The last of them should not be among them: a request to link with a
process that has ended is answered with an exit signal, but a request that comes
from one is taken at its word by the other side, `left_waiting`.

## Main definitions

* `Node.parts`: Who will not be told of whose end, by an operation.
* `Node.Owed`: A survivor was told of the end of its partner, or will be.
* `Node.Bond`: Where a signal about a link comes from.

## Theorems

* `bond_of_posts`: What is queued about a link and why.
* `mem_parts_of_leave`, `mem_parts_of_link`: What is queued to the harm of a survivor.
* `owed_link`: A request to link two processes.
* `owed_step`, `owed_run`: A survivor stays owed what it is owed.
* `survivor_informed`: When nothing waits, the survivor was told.
-/

namespace Actors

namespace Node

/-- Who will not be told of whose end, by an operation: a process that takes its
    link with another back or asks it to end, and a process that is asked to link
    by one that has ended. -/
def parts (n : Node) : NodeOp → List (Pid × Pid)
  | .unlink a b => [(a, b), (b, a)]
  | .link a b => if n.lives a then [] else [(b, a)]
  | .signal sender s target =>
      (n.deliveries sender s target).flatMap fun d =>
        match d.signal with
        | .unlink | .exit _ => [(d.sender, d.target)]
        | .link => if n.lives d.sender then [] else [(d.target, d.sender)]
        | _ => []
  | _ => []

/-- A process is on the list of its partner as long as that is alive. When it has
    ended, the process was told, or will be told, or a request waits for an answer. -/
structure Owed (s o : Pid) (heard : List Delivery) (n : Node) : Prop where
  listed : n.lives o = true → n.willList o s = true
  told : n.lives o = false → ⟨o, s, .link⟩ ∈ n.queue.signals ∨
    n.willList s o = false ∧ ∃ reason, ⟨s, o, .exit reason⟩ ∈ heard ++ n.queue.signals

/-- Where a signal about a link comes from. -/
inductive Bond (n : Node) (d : Delivery) : NodeOp → Prop where
  /-- The first partner of a newborn cannot be reached. -/
  | orphan {linked q : Pid} {n₁ : Node} {reason : Term} (hm : n.makeProcess = (.ok q, n₁))
      (heq : d = ⟨q, linked, .exit reason⟩) : Bond n d (.spawnLink linked)
  /-- A newborn asks its first partner. -/
  | birth {linked q : Pid} {n₁ : Node} (hm : n.makeProcess = (.ok q, n₁))
      (heq : d = ⟨linked, q, .link⟩) : Bond n d (.spawnLink linked)
  /-- It was sent as it is. -/
  | raw {sender : Pid} {t : Signal} {target : Dest} (hdel : d ∈ n.deliveries sender t target) :
      Bond n d (.signal sender t target)
  /-- A partner that was asked for cannot be reached. -/
  | refusal {a b : Pid} {e : Failure} {reason : Term} (hr : n.resolve (.pid b) = .error e)
      (heq : d = ⟨a, b, .exit reason⟩) : Bond n d (.link a b)
  /-- Both sides are asked. -/
  | request {a b : Pid} {r : Resolved} (hr : n.resolve (.pid b) = .ok r)
      (heq : d = ⟨b, a, .link⟩ ∨ d = ⟨a, b, .link⟩) : Bond n d (.link a b)
  /-- The link is taken back on both sides. -/
  | leave {a b : Pid} (heq : d = ⟨b, a, .unlink⟩ ∨ d = ⟨a, b, .unlink⟩) : Bond n d (.unlink a b)
  /-- A process that has ended says so. -/
  | ended {op : NodeOp} (hgone : (n.step op).lives d.sender = false)
      (hexit : ∃ reason, d.signal = .exit reason) : Bond n d op

variable {a b o s : Pid} {n : Node} {d : Delivery} {heard : List Delivery}

/-! ## What is queued about a link -/

theorem not_issued_of_makeProcess (hn : n.Coherent) {q : Pid} {n' : Node}
    (hm : n.makeProcess = (.ok q, n')) : ¬ n.Issued q := by
  rcases makeProcess_ok hm with ⟨id, serial, table, hi, rfl, -⟩
  exact fun h => (ProcessTable.issues_insert hn.table hi).1.fresh h.2

/-- A signal that was sent to a process says what it says, or is in an envelope. -/
theorem eq_of_deliveries_pid {sender p : Pid} {t : Signal} (hd : d ∈ n.deliveries sender t (.pid p))
    (hrelay : ∀ m, d.signal ≠ .relay m) : d = ⟨p, sender, t⟩ := by
  rcases mem_deliveries_pid hd with h | ⟨router, h⟩
  · exact h
  · exact absurd (congrArg Delivery.signal h) (hrelay _)

theorem exit_of_untied
    (hs : d.signal = .link ∨ d.signal = .unlink ∨ ∃ reason, d.signal = .exit reason)
    (htie : d.signal.tie? = none) : ∃ reason, d.signal = .exit reason := by
  rcases hs with hs | hs | hs
  · exact absurd (hs ▸ htie) (by simp [Signal.tie?])
  · exact absurd (hs ▸ htie) (by simp [Signal.tie?])
  · exact hs

/-- Whatever is queued about a link has one of these origins. -/
theorem bond_of_posts {op : NodeOp} (hd : d ∈ n.posts op)
    (hs : d.signal = .link ∨ d.signal = .unlink ∨ ∃ reason, d.signal = .exit reason) :
    Bond n d op := by
  -- What is about a link is not in an envelope, so it is the signal that was sent.
  have hplain : ∀ {m : Node} {sender p t}, d ∈ m.deliveries sender t (.pid p) →
      d = ⟨p, sender, t⟩ := by
    refine fun hdel => eq_of_deliveries_pid hdel fun m hm => ?_
    rw [hm] at hs
    exact absurd hs (by simp)
  -- What a request queues about a link is a request about a link, so the ones about monitors drop
  -- out.
  have hother : ∀ {sender p t}, d ∈ n.deliveries sender t (.pid p) →
      t = .link ∨ t = .unlink ∨ ∃ reason, t = .exit reason := by
    intro sender p t hdel
    rwa [hplain hdel] at hs
  cases op with
  | spawnLink linked =>
      rw [posts] at hd
      split at hd
      next q n₁ hm =>
        rw [birthDeliveries] at hd
        split at hd
        next => exact .orphan hm (hplain hd)
        next => exact .birth hm (hplain hd)
      next => exact absurd hd List.not_mem_nil
  | signal sender t target => exact .raw hd
  | link a b =>
      rw [posts, linkDeliveries] at hd
      split at hd
      next => exact absurd hd List.not_mem_nil
      next =>
        split at hd
        next e hr => exact .refusal hr (hplain hd)
        next r hr => exact .request hr ((List.mem_append.mp hd).imp hplain hplain)
  | unlink a b => exact .leave ((List.mem_append.mp hd).imp hplain hplain)
  | monitor watcher watchee =>
      rw [posts, monitorDeliveries] at hd
      split at hd <;> exact absurd (hother hd) (by simp)
  | demonitor watcher ref =>
      rw [posts] at hd
      split at hd
      next => exact absurd (hother hd) (by simp)
      next => exact absurd hd List.not_mem_nil
  | die p reason =>
      rw [posts] at hd
      split at hd
      next c hc =>
        rcases Option.filter_eq_some_iff.mp hc with ⟨hc, ha⟩
        -- Whoever says farewell has ended in this step.
        refine .ended ?_ (exit_of_untied hs (tie?_of_farewellsOf hd))
        rw [sender_of_farewellsOf hd, step]
        rcases die_cases n p reason with ⟨-, hdead⟩ | ⟨c', -, -, hdie⟩
        · exact absurd (ha.symm.trans (hdead c hc)) (by simp)
        · rw [hdie, lives_fall, if_pos rfl]
      next => exact absurd hd List.not_mem_nil
  | handleInHand =>
      rcases mem_posts_handleInHand hd with ⟨e, q, -, hr⟩
      exact .ended (not_lives_of_posts hd) (exit_of_untied hs (tie?_of_replies hr))
  | _ => exact absurd hd List.not_mem_nil

/-- A signal by which a living process leaves another one is queued only by an
    operation that parts them. -/
theorem mem_parts_of_leave (hn : n.Coherent) {op : NodeOp} (hd : d ∈ n.posts op)
    (hs : d.signal = .unlink ∨ ∃ reason, d.signal = .exit reason) (hlive : n.lives d.sender = true)
    (hlive' : (n.step op).lives d.sender = true) (hissued : n.Issued d.target) :
    (d.sender, d.target) ∈ n.parts op := by
  cases bond_of_posts hd (Or.inr hs) with
  | orphan hm heq =>
      -- The signal is for the newborn, which was not given out before.
      rw [heq] at hissued
      exact absurd hissued (not_issued_of_makeProcess hn hm)
  | birth hm heq =>
      rw [heq] at hs
      exact absurd hs (by simp)
  | raw hdel =>
      refine List.mem_flatMap.mpr ⟨d, hdel, ?_⟩
      rcases hs with hs | ⟨reason, hs⟩ <;> rw [hs] <;> exact List.mem_singleton.mpr rfl
  | refusal hr heq =>
      -- Whoever is alive can be reached.
      rw [heq] at hlive
      have hdel := hn.deliveries_of_lives hlive d.target .link
      rw [deliveries, hr] at hdel
      exact absurd hdel (by simp)
  | request hr heq => rcases heq with rfl | rfl <;> exact absurd hs (by simp)
  | leave heq =>
      rcases heq with rfl | rfl
      · exact List.mem_cons_self
      · exact List.mem_cons_of_mem _ List.mem_cons_self
  | ended hdead => exact absurd (hdead.symm.trans hlive') (by simp)

/-- A request to link in the name of a process that has ended is queued only by an
    operation that parts the two. -/
theorem mem_parts_of_link (hn : n.Coherent) {op : NodeOp} (hd : d ∈ n.posts op)
    (hs : d.signal = .link) (hdead : n.lives d.sender = false) (hissued : n.Issued d.sender) :
    (d.target, d.sender) ∈ n.parts op := by
  cases bond_of_posts hd (Or.inl hs) with
  | orphan hm heq | refusal hr heq =>
      rw [heq] at hs
      exact absurd hs (by simp)
  | birth hm heq =>
      rw [heq] at hissued
      exact absurd hissued (not_issued_of_makeProcess hn hm)
  | raw hdel =>
      refine List.mem_flatMap.mpr ⟨d, hdel, ?_⟩
      rw [hs, hdead]
      exact List.mem_singleton.mpr rfl
  | request hr heq =>
      rcases heq with rfl | rfl
      · rw [parts, hdead]
        exact List.mem_singleton.mpr rfl
      · -- The second process was in reach, or it would not have been asked.
        rw [resolve, resolvePid, if_pos hissued.1, hn.isSome_lookup, hdead] at hr
        exact absurd hr (by simp)
  | leave heq => rcases heq with rfl | rfl <;> exact absurd hs (by simp)
  | ended hgone hexit =>
      rcases hexit with ⟨reason, hexit⟩
      exact absurd (hs.symm.trans hexit) (by simp)

/-! ## The request -/

/-- What a request to link two processes of this node queues. -/
theorem linkDeliveries_of_isLocal (hn : n.Coherent) (hne : a ≠ b) (ha : a.isLocal = true)
    (hb : b.isLocal = true) : n.linkDeliveries a b =
      if n.lives b = true then
        ⟨b, a, .link⟩ :: if n.lives a = true then [⟨a, b, .link⟩] else []
      else if n.lives a = true then [⟨a, b, .exit Reason.noproc⟩] else [] := by
  rw [linkDeliveries, if_neg hne, resolve, resolvePid, if_pos hb, hn.isSome_lookup]
  rcases hlive : n.lives b with _ | _
  · exact hn.deliveries_of_isLocal ha b _
  · simp only [hn.deliveries_of_isLocal ha, hn.deliveries_of_isLocal hb, hlive, if_true]
    rfl

/-- A request to link two processes. If one of them has ended it is not the one who asks. -/
theorem owed_link (hn : n.Coherent) (hne : a ≠ b) (ha : a.isLocal = true) (hb : b.isLocal = true)
    (hends : s = a ∧ o = b ∨ s = b ∧ o = a) (hs : n.lives s = true)
    (hparts : (s, o) ∉ n.parts (.link a b)) : Owed s o [] (n.link a b) := by
  have hlink := linkDeliveries_of_isLocal hn hne ha hb
  rw [link_eq]
  refine ⟨fun ho => ?_, fun ho => ?_⟩
  · change n.lives o = true at ho
    rw [willList_queueAll, hlink]
    rcases hends with ⟨rfl, rfl⟩ | ⟨rfl, rfl⟩
    · rw [if_pos ho, if_pos hs, List.foldl_cons, settle_link]
      exact settle_of_ne (fun h => hne h.1) true
    · rw [if_pos hs, if_pos ho]
      exact settle_link _
  · change n.lives o = false at ho
    rcases hends with ⟨rfl, rfl⟩ | ⟨rfl, rfl⟩
    · -- The partner cannot be reached, and the one who asked is told at once.
      rw [ho, if_neg Bool.false_ne_true, if_pos hs] at hlink
      refine Or.inr ⟨?_, Reason.noproc, ?_⟩
      · rw [willList_queueAll, hlink]
        exact settle_exit _ _
      · rw [signals_queueAll, hlink]
        exact List.mem_append_right n.queue.signals (List.mem_singleton.mpr rfl)
    · refine absurd ?_ hparts
      rw [parts, ho]
      exact List.mem_singleton.mpr rfl

/-! ## One operation -/

/-- The partner lives on, and keeps the survivor on its list. -/
theorem Owed.listed_step (hn : n.Coherent) (h : Owed s o heard n) {op : NodeOp}
    (hs : n.lives s = true) (hs' : (n.step op).lives s = true) (hissued : n.Issued o)
    (hparts : (s, o) ∉ n.parts op) (ho : n.lives o = true) (ho' : (n.step op).lives o = true) :
    (n.step op).willList o s = true := by
  rw [willList_step hn ho ho', h.listed ho]
  -- Nothing the operation queues takes the survivor off the list, since that would part the two.
  refine foldl_settle_true fun d hd htarget hsender => ?_
  subst htarget hsender
  exact ⟨fun hsig => hparts (mem_parts_of_leave hn hd (Or.inl hsig) hs hs' hissued),
    fun reason hsig => hparts (mem_parts_of_leave hn hd (Or.inr ⟨reason, hsig⟩) hs hs' hissued)⟩

/-- The partner ends. It says farewell to the survivor, or a request waits for it. -/
theorem Owed.told_of_deaths (hn : n.Coherent) (h : Owed s o heard n) {op : NodeOp}
    (hs : n.lives s = true) (hs' : (n.step op).lives s = true) (hne : s ≠ o)
    {reason : Term} (hdeath : (o, reason) ∈ n.deaths op) :
    ⟨o, s, .link⟩ ∈ (n.step op).queue.signals ∨ (n.step op).willList s o = false ∧
      ∃ reason, ⟨s, o, .exit reason⟩ ∈ (n.step op).queue.signals := by
  rcases posts_of_deaths hdeath with ⟨c, hposts, hlinks⟩
  -- Its outlook at the end is what it listed and what was still to come.
  have hlist : ((n.step op).queue.signals).foldl (settle o s) (decide (s ∈ c.links)) = true := by
    rw [hlinks s, ← List.foldl_append, takes_append_signals_step, List.foldl_append]
    change (n.posts op).foldl (settle o s) (n.willList o s) = true
    rw [h.listed (lives_of_deaths hdeath), hposts]
    exact foldl_settle_true fun d hd _ hsender =>
      absurd (hsender.symm.trans (sender_of_farewellsOf hd)) hne
  rcases foldl_settle_cases hlist with hnow | hwaits
  · have hfarewell : ⟨s, o, .exit reason⟩ ∈ n.posts op := by
      have hfilter := filter_tells_farewellsOf (p := o) hn hs c reason
      rw [if_pos (of_decide_eq_true hnow)] at hfilter
      rw [hposts]
      exact (List.mem_filter.mp (hfilter ▸ List.mem_singleton.mpr rfl)).1
    refine Or.inr ⟨?_, reason, ?_⟩
    · rw [willList_step hn hs hs']
      refine foldl_settle_exit (fun hmem => ?_) hfarewell _
      rw [hposts] at hmem
      exact link_not_mem_farewellsOf _ hmem rfl
    · exact mem_signals_of_posts hfarewell
  · exact Or.inl hwaits

/-- A request that reaches a dead process is answered with an exit signal. -/
theorem posts_of_link (hn : n.Coherent) (hs : n.lives s = true) (ho : n.lives o = false)
    {op : NodeOp} (htaken : ⟨o, s, .link⟩ ∈ n.takes op) :
    n.posts op = [⟨s, o, .exit Reason.noproc⟩] := by
  cases op with
  | handleInHand =>
      rw [takes] at htaken
      rcases hq : n.queue.next? with _ | ⟨d, q⟩ <;> rw [hq] at htaken
      · exact absurd htaken List.not_mem_nil
      · rw [List.mem_singleton] at htaken
        subst htaken
        -- The target of a queued signal still has its table, even when it has ended.
        have hthere := hn.targets ⟨o, s, .link⟩
          (by rw [Dispatcher.signals_of_next? hq]; exact List.mem_cons_self)
        rcases Option.isSome_iff_exists.mp hthere with ⟨c, hc⟩
        rw [lives_of_process? hc] at ho
        rw [posts, hq]
        rcases replies_cases hc with ⟨-, -, hr⟩ | ⟨ha, -⟩ | ⟨ha, -⟩
        · exact hr.trans (hn.deliveries_of_lives hs o _)
        · exact absurd (ho.symm.trans ha) (by simp)
        · exact absurd (ho.symm.trans ha) (by simp)
  | _ => exact absurd htaken List.not_mem_nil

/-- The partner has ended, and what the survivor is owed comes closer. -/
theorem Owed.told_step (hn : n.Coherent) (h : Owed s o heard n) {op : NodeOp}
    (hs : n.lives s = true) (hs' : (n.step op).lives s = true) (hissued : n.Issued o)
    (hparts : (s, o) ∉ n.parts op) (ho : n.lives o = false) :
    ⟨o, s, .link⟩ ∈ (n.step op).queue.signals ∨ (n.step op).willList s o = false ∧
      ∃ reason, ⟨s, o, .exit reason⟩ ∈ heard ++ n.attends op ++ (n.step op).queue.signals := by
  rcases h.told ho with hlink | ⟨hlist, reason, hexit⟩
  · rcases mem_takes_or_signals op hlink with htaken | hwaits
    · have hposts := posts_of_link hn hs ho htaken
      refine Or.inr ⟨?_, Reason.noproc, ?_⟩
      · rw [willList_step hn hs hs', hposts]
        exact settle_exit _ _
      · refine List.mem_append_right _ (mem_signals_of_posts ?_)
        rw [hposts]
        exact List.mem_singleton.mpr rfl
    · exact Or.inl hwaits
  · refine Or.inr ⟨?_, reason, ?_⟩
    · rw [willList_step hn hs hs', hlist]
      exact foldl_settle_false fun hmem => hparts (mem_parts_of_link hn hmem rfl ho hissued)
    · rcases List.mem_append.mp hexit with hheard | hwaits
      · exact List.mem_append_left _ (List.mem_append_left _ hheard)
      · rcases mem_takes_or_signals op hwaits with htaken | hwaits
        · -- The survivor is alive, so it handles what is taken for it.
          refine List.mem_append_left _ (List.mem_append_right heard ?_)
          rw [attends_eq]
          exact List.mem_filter.mpr ⟨htaken, hs⟩
        · exact List.mem_append_right _ hwaits

theorem owed_step (hn : n.Coherent) (h : Owed s o heard n) {op : NodeOp} (hs : n.lives s = true)
    (hs' : (n.step op).lives s = true) (hne : s ≠ o) (hissued : n.Issued o)
    (hparts : (s, o) ∉ n.parts op) (hdeath : n.lives o = true → (n.step op).lives o = false →
      ∃ reason, (o, reason) ∈ n.deaths op) : Owed s o (heard ++ n.attends op) (n.step op) := by
  rcases ho : n.lives o with _ | _
  · refine ⟨fun ho' => ?_, fun _ => h.told_step hn hs hs' hissued hparts ho⟩
    -- Nobody comes back.
    exact absurd (ho.symm.trans ((ages_step hn op).lives hissued.2 ho')) (by simp)
  · refine ⟨fun ho' => h.listed_step hn hs hs' hissued hparts ho ho', fun ho' => ?_⟩
    -- The partner ends in this step, and for a reason, so it was not merely dropped.
    rcases hdeath ho ho' with ⟨reason, hmem⟩
    refine (h.told_of_deaths hn hs hs' hne hmem).imp_right fun hright => ⟨hright.1, ?_⟩
    rcases hright.2 with ⟨r, hexit⟩
    exact ⟨r, List.mem_append_right _ hexit⟩

/-! ## Runs -/

/-- Who ends in a run was alive at its start. -/
theorem lives_of_collect_deaths (hn : n.Coherent) (hissued : n.Issued o) {ops : List NodeOp}
    {reason : Term} (hd : (o, reason) ∈ n.collect deaths ops) : n.lives o = true := by
  rcases mem_collect hd with ⟨before, op, after, -, hmem⟩
  exact (ages_run hn before).lives hissued.2 (lives_of_deaths hmem)

theorem owed_run (hn : n.Coherent) (h : Owed s o heard n) {ops : List NodeOp}
    (hs : n.lives s = true) (hs' : (n.run ops).lives s = true) (hne : s ≠ o) (hissued : n.Issued o)
    (hparts : (s, o) ∉ n.collect parts ops)
    (hdeath : n.lives o = true → ∃ reason, (o, reason) ∈ n.collect deaths ops) :
    Owed s o (heard ++ n.collect attends ops) (n.run ops) := by
  -- A partner that is alive now and ends somewhere in the run ends now, or later.
  induction ops generalizing n heard with
  | nil => rwa [collect, List.append_nil]
  | cons op rest ih =>
      rw [collect, List.mem_append, not_or] at hparts
      have hmid := lives_between hn hs hs'
      have hissued' := hissued.ages (ages_step hn op)
      have hstep := owed_step hn h hs hmid hne hissued hparts.1 fun ho ho' => by
        rcases hdeath ho with ⟨reason, hmem⟩
        rcases List.mem_append.mp hmem with hnow | hlater
        · exact ⟨reason, hnow⟩
        · -- It is dead already, and cannot end later.
          have hlive := lives_of_collect_deaths (coherent_step hn op) hissued' hlater
          exact absurd (ho'.symm.trans hlive) (by simp)
      rw [collect, ← List.append_assoc]
      refine ih (coherent_step hn op) hstep hmid hs' hissued' hparts.2 fun ho' => ?_
      rcases hdeath ((ages_step hn op).lives hissued.2 ho') with ⟨reason, hmem⟩
      rcases List.mem_append.mp hmem with hnow | hlater
      · have hdead : (n.run [op]).lives o = false :=
          not_lives_of_deaths hn (List.mem_append_left [] hnow)
        exact absurd (hdead.symm.trans ho') (by simp)
      · exact ⟨reason, hlater⟩

/-- Two processes are asked to be linked, and one of them has ended or ends later. When
    nothing waits the other one, if it is alive, was told by an exit signal and does not
    list the dead one. It must not have left its partner before, and the request must
    not have come from a process that had ended. -/
theorem survivor_informed {config : NodeConfig} {before after : List NodeOp}
    (ha : a ∈ (new config).collect issues before) (hb : b ∈ (new config).collect issues before)
    (hne : a ≠ b) (hends : s = a ∧ o = b ∨ s = b ∧ o = a)
    (hparts : (s, o) ∉ ((new config).run before).collect parts (.link a b :: after))
    (hdeath : ((new config).run before).lives o = true →
      ∃ reason, (o, reason) ∈ ((new config).run before).collect deaths (.link a b :: after))
    (hquiet : ((new config).run (before ++ .link a b :: after)).queue.signals = [])
    (hs : ((new config).run (before ++ .link a b :: after)).lives s = true) :
    (∃ reason, ⟨s, o, .exit reason⟩ ∈
        ((new config).run before).collect attends (.link a b :: after)) ∧
      o ∉ ((new config).run (before ++ .link a b :: after)).linksOf s := by
  have hn := coherent_run (coherent_new config) before
  have hia := issued_of_collect (coherent_new config) ha
  have hib := issued_of_collect (coherent_new config) hb
  rw [run_append, run_cons] at hquiet hs ⊢
  generalize (new config).run before = n at *
  have hio : n.Issued o ∧ n.Issued s ∧ s ≠ o := by
    rcases hends with ⟨rfl, rfl⟩ | ⟨rfl, rfl⟩
    · exact ⟨hib, hia, hne⟩
    · exact ⟨hia, hib, hne.symm⟩
  have hages := ages_run hn (.link a b :: after)
  have hnow : n.lives s = true := hages.lives hio.2.1.2 hs
  rw [collect, List.mem_append, not_or] at hparts
  have hlink := owed_link hn hne hia.1 hib.1 hends hnow hparts.1
  have hrun := owed_run (coherent_step hn (.link a b)) hlink (lives_between hn hnow hs) hs hio.2.2
    (hio.1.ages (ages_step hn (.link a b))) hparts.2
    fun ho => hdeath ((ages_step hn (.link a b)).lives hio.1.2 ho)
  have hdead : ((n.step (.link a b)).run after).lives o = false := by
    rcases ho : n.lives o with _ | _
    · rw [Bool.eq_false_iff]
      exact fun hl => absurd (ho.symm.trans (hages.lives hio.1.2 hl)) (by simp)
    · rcases hdeath ho with ⟨reason, hmem⟩
      exact not_lives_of_deaths hn hmem
  -- Nothing waits, so what was to be heard was heard.
  rcases hrun.told hdead with hwaits | ⟨hlist, reason, hheard⟩
  · rw [hquiet] at hwaits
    exact absurd hwaits List.not_mem_nil
  · rw [hquiet, List.append_nil] at hheard
    rw [willList_of_quiet hquiet] at hlist
    exact ⟨⟨reason, hheard⟩, of_decide_eq_false hlist⟩

/-- One of two processes is killed when only the other one was told of their link. -/
theorem survivor_informed_between :
    let before : List NodeOp := [.spawn, .spawn, .setFlag (.ofSlot 1 0 0) .trapExit true]
    let after : List NodeOp := [.beginTurn, .handleInHand, .die (.ofSlot 2 0 0) Reason.kill,
      .handleInHand, .beginTurn, .handleInHand]
    let n := (new .standard).run before
    let m := (new .standard).run (before ++ .link (.ofSlot 1 0 0) (.ofSlot 2 0 0) :: after)
    m.queue.signals = [] ∧ m.lives (.ofSlot 1 0 0) = true ∧ m.lives (.ofSlot 2 0 0) = false ∧
      (∃ reason, ⟨.ofSlot 1 0 0, .ofSlot 2 0 0, .exit reason⟩ ∈
        n.collect attends (.link (.ofSlot 1 0 0) (.ofSlot 2 0 0) :: after)) ∧
      .ofSlot 2 0 0 ∉ m.linksOf (.ofSlot 1 0 0) := by
  intro before after n m
  have hquiet : m.queue.signals = [] := by decide
  have hs : m.lives (.ofSlot 1 0 0) = true := by decide
  refine ⟨hquiet, hs, by decide, ?_⟩
  exact survivor_informed (by decide) (by decide) (by decide) (Or.inl ⟨rfl, rfl⟩) (by decide)
    (fun _ => ⟨Reason.killed, by decide⟩) hquiet hs

/-- A process that has ended asks for a link. The other one lists it and is never told. -/
theorem left_waiting :
    let before : List NodeOp := [.spawn, .spawn, .setFlag (.ofSlot 2 0 0) .trapExit true,
      .die (.ofSlot 1 0 0) Reason.shutdown]
    let after : List NodeOp := [.beginTurn, .handleInHand, .beginTurn]
    let n := (new .standard).run before
    let m := (new .standard).run (before ++ .link (.ofSlot 1 0 0) (.ofSlot 2 0 0) :: after)
    m.queue.signals = [] ∧ m.lives (.ofSlot 1 0 0) = false ∧ m.lives (.ofSlot 2 0 0) = true ∧
      (∀ d ∈ n.collect attends (.link (.ofSlot 1 0 0) (.ofSlot 2 0 0) :: after),
        d = ⟨.ofSlot 2 0 0, .ofSlot 1 0 0, .link⟩) ∧
      .ofSlot 1 0 0 ∈ m.linksOf (.ofSlot 2 0 0) := by
  decide

end Node

end Actors
