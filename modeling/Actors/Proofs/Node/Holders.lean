import Actors.Proofs.Node.Ageing

/-!
# Who Holds a Name

A name is claimed for a living process, and from then on it has that holder
until the holder lets go of it: by giving up this name or all of its names, by
its death, or by disappearing unnoticed when the last handle to it goes. The
name is free again in the same moment.

Everything about names over time comes down to one operation, `whereis_step`.
The names of a process can only be taken away by operations that are about that
process, and there are few of them; `subject?` says which process that is. An
operation that takes all names away leaves its process dead or gone, and since
names belong to the living, one that ends a process takes its names away.

## Main definitions

* `Node.subject?`: The process whose names an operation may take away.
* `Node.GivesUp`: An operation by which a process gives up a name.
* `Node.Holds`: A process holds a name until it gives it up.
* `Node.NameLaw`: What can be relied on about names.

## Theorems

* `names_step`, `whereis_step`: What an operation does to names.
* `holds_of_whereis`: A holder stays the holder until it gives the name up.
* `Reachable.nameLaw`: Names are exclusive and stable.
-/

namespace Actors

namespace Node

/-- The process whose names an operation may take away. -/
def subject? (n : Node) : NodeOp → Option Pid
  | .unregister p _ | .die p _ | .letGo p => some p
  | .handleInHand => n.queue.next?.map fun next => next.1.target
  | _ => none

/-- An operation by which a process gives up a name. -/
inductive GivesUp (n : Node) (p : Pid) (name : String) : NodeOp → Prop
  /-- It gives up this name. -/
  | one : GivesUp n p name (.unregister p (some name))
  /-- It gives up all of its names. -/
  | all : GivesUp n p name (.unregister p none)
  /-- It ends. -/
  | death {op : NodeOp} {reason : Term} (hd : (p, reason) ∈ n.deaths op) : GivesUp n p name op
  /-- It disappears while it is alive. -/
  | reclamation {op : NodeOp} (hl : n.lives p = true) (hgone : (n.step op).process? p = none) :
      GivesUp n p name op

variable {n : Node} {p : Pid} {name : String} {op : NodeOp}

/-! ## One operation -/

/-- A signal that ends its target takes the names of the target away. -/
theorem names_handle (n : Node) (d : Delivery) :
    (n.handle d).names = n.names ∨
      (n.handle d).names = n.names.unregisterAll d.target ∧
        (n.handle d).lives d.target = false := by
  rcases hc : n.process? d.target with _ | c
  · rw [handle_of_none hc]
    exact Or.inl rfl
  · rcases handle_cases hc with ⟨-, hh⟩ | ⟨-, c', -, hh⟩ | ⟨-, reason, -, -, hh⟩ <;> rw [hh]
    · exact Or.inl rfl
    · exact Or.inl rfl
    · exact Or.inr ⟨rfl, by rw [lives_fall, if_pos rfl]⟩

/-- A living process that disappears takes its names with it, and a dead one has none. -/
theorem names_reclaim (n : Node) (p : Pid) :
    (n.reclaim p).names = n.names ∨
      n.lives p = true ∧ (n.reclaim p).names = n.names.unregisterAll p ∧
        (n.reclaim p).lives p = false := by
  rcases reclaim_cases n p with ⟨hr, -⟩ | ⟨c, hc, -, -, ⟨ha, hr⟩ | ⟨-, hr⟩⟩ <;> rw [hr]
  · exact Or.inl rfl
  · refine Or.inr ⟨lives_of hc ha, rfl, lives_of_process?_none ?_⟩
    change (n.forget p).process? p = none
    rw [process?_forget, if_pos rfl]
  · exact Or.inl rfl

/-- The signal in hand takes names away from its target only, and only if that is gone
    afterwards. -/
theorem names_handleInHand (n : Node) :
    n.handleInHand.names = n.names ∨
      ∃ p, n.subject? .handleInHand = some p ∧ n.handleInHand.names = n.names.unregisterAll p ∧
        n.handleInHand.lives p = false := by
  rcases handleInHand_cases n with ⟨-, hi⟩ | ⟨d, q, hq, -, hi⟩ <;> rw [hi]
  · exact Or.inl rfl
  · have hsubject : n.subject? .handleInHand = some d.target := by rw [subject?, hq]; rfl
    rcases names_handle (n.withQueue q) d with hh | ⟨hh, hdead⟩ <;>
      rcases names_reclaim ((n.withQueue q).handle d) d.target with hr | ⟨hl, hr, hgone⟩
    · exact Or.inl (hr.trans hh)
    · exact Or.inr ⟨d.target, hsubject, by rw [hr, hh]; rfl, hgone⟩
    · refine Or.inr ⟨d.target, hsubject, hr.trans hh, ?_⟩
      -- Who is dead does not come back by being let go.
      rw [Bool.eq_false_iff]
      exact fun hl => absurd (hdead.symm.trans (lives_of_reclaim hl)) (by simp)
    · -- It is dead already when it is let go.
      exact absurd (hdead.symm.trans hl) (by simp)

/-- The names change when one is claimed or given up, and when a process is gone. -/
theorem names_step (n : Node) (op : NodeOp) :
    (n.step op).names = n.names ∨
    (∃ p name, op = .register p name ∧ n.names.register name p = (true, (n.step op).names)) ∨
    (∃ p name, op = .unregister p (some name) ∧
      (n.step op).names = (n.names.unregister name p).2) ∨
    ∃ p, n.subject? op = some p ∧ (n.step op).names = n.names.unregisterAll p ∧
      ((n.step op).lives p = false ∨ op = .unregister p none) := by
  -- Requests that are not about names, and what processes do to themselves, leave them alone.
  by_cases hplain : op.isPlain = true ∧ op.isClerical = false
  · exact Or.inl (registries_step n hplain.1 hplain.2).2.1
  cases op with
  | register p name =>
      rw [step]
      rcases register_cases n p name with hr | ⟨names, -, -, hn, hr⟩ <;> rw [hr]
      · exact Or.inl rfl
      · exact Or.inr (Or.inl ⟨p, name, rfl, hn⟩)
  | unregister p name =>
      rcases name with _ | name
      · exact Or.inr (Or.inr (Or.inr ⟨p, rfl, rfl, Or.inr rfl⟩))
      · exact Or.inr (Or.inr (Or.inl ⟨p, name, rfl, rfl⟩))
  | registerRouter node cost router options =>
      rw [step]
      rcases registerRouter_cases n node cost router options with he | ⟨-, he⟩ <;> rw [he] <;>
        exact Or.inl rfl
  | remotePid node id serial creation =>
      rw [step]
      rcases remotePid_cases n node id serial creation with he | he <;> rw [he] <;>
        exact Or.inl rfl
  | unregisterRouter router => exact Or.inl rfl
  | nodeIndex node => exact Or.inl rfl
  | die p reason =>
      rw [step]
      rcases die_cases n p reason with ⟨hd, -⟩ | ⟨c, -, -, hd⟩ <;> rw [hd]
      · exact Or.inl rfl
      · exact Or.inr (Or.inr (Or.inr ⟨p, rfl, rfl, Or.inl (by rw [lives_fall, if_pos rfl])⟩))
  | letGo p =>
      rcases names_reclaim (n.loosen p) p with hr | ⟨-, hr, hgone⟩
      · exact Or.inl hr
      · exact Or.inr (Or.inr (Or.inr ⟨p, rfl, hr, Or.inl hgone⟩))
  | handleInHand =>
      rcases names_handleInHand n with hi | ⟨p, hp, hi, hdead⟩
      · exact Or.inl hi
      · exact Or.inr (Or.inr (Or.inr ⟨p, hp, hi, Or.inl hdead⟩))
  | _ => exact absurd ⟨rfl, rfl⟩ hplain

/-- Who was alive and is not any more has ended or disappeared. -/
theorem givesUp_of_not_lives (h : n.Coherent) (hl : n.lives p = true)
    (hgone : (n.step op).lives p = false) : n.GivesUp p name op := by
  rcases hc : (n.step op).process? p with _ | c
  · exact .reclamation hl hc
  · rw [lives_of_process? hc] at hgone
    rcases hlife : c.life with _ | reason
    · rw [Process.isAlive, hlife] at hgone
      exact absurd hgone (by simp)
    · rcases mem_deaths_or_dead h hc hlife with hd | ⟨c₀, hc₀, hdead⟩
      · exact .death hd
      · -- It was alive before, so it was not dead then.
        rw [lives_of_process? hc₀, Process.isAlive, hdead] at hl
        exact absurd hl (by simp)

/-- The holder of a name stays, or a free name is claimed, or the holder gives it up. -/
theorem whereis_step (h : n.Coherent) (op : NodeOp) (name : String) :
    (n.step op).whereis name = n.whereis name ∨
    (∃ p, op = .register p name ∧ n.whereis name = none ∧ (n.step op).whereis name = some p) ∨
    ∃ p, n.whereis name = some p ∧ n.subject? op = some p ∧ n.GivesUp p name op ∧
      (n.step op).whereis name = none := by
  rcases names_step n op with hsame | ⟨p, name', rfl, hr⟩ | ⟨p, name', rfl, hu⟩ |
    ⟨p, hp, hall, hwhy⟩
  · exact Or.inl (congrArg (·.whereis name) hsame)
  · -- A name was claimed. If it is this one it was free, otherwise nothing has changed for this
    -- one.
    have hview := NameRegistry.whereis_register hr name
    by_cases hname : name = name'
    · subst hname
      rw [if_pos rfl] at hview
      refine Or.inr (Or.inl ⟨p, rfl, ?_, hview⟩)
      rcases hw : n.names.whereis name with _ | q
      · exact hw
      · rw [NameRegistry.register, hw] at hr
        exact absurd hr (by simp)
    · rw [if_neg hname] at hview
      exact Or.inl hview
  · -- A name was given up. That concerns this one only if it was held by whoever gave it up.
    have hview := NameRegistry.whereis_unregister n.names name' name p
    by_cases hname : name = name' ∧ n.names.whereis name' = some p
    · rcases hname with ⟨rfl, hp⟩
      rw [if_pos ⟨rfl, hp⟩] at hview
      exact Or.inr (Or.inr ⟨p, hp, rfl, .one, hview⟩)
    · rw [if_neg hname] at hview
      exact Or.inl hview
  · -- All names of one process were taken. The holder of this one loses it exactly if it is that
    -- process.
    have hview : (n.step op).whereis name = (n.whereis name).filter fun q => q ≠ p := by
      rw [whereis, hall]
      exact NameRegistry.whereis_unregisterAll n.names p name
    rcases hw : n.whereis name with _ | q <;> rw [hw] at hview
    · exact Or.inl hview
    · by_cases hq : q = p
      · subst hq
        rw [Option.filter_some, if_neg (by simp)] at hview
        refine Or.inr (Or.inr ⟨q, rfl, hp, ?_, hview⟩)
        rcases hwhy with hgone | rfl
        · exact givesUp_of_not_lives h (h.names name q hw).2 hgone
        · exact .all
      · rw [Option.filter_some, if_pos (by simpa using hq)] at hview
        exact Or.inl hview

/-- A name is free in the moment in which its holder gives it up. -/
theorem whereis_of_givesUp (h : n.Coherent) (hp : n.whereis name = some p)
    (hg : n.GivesUp p name op) : (n.step op).whereis name = none := by
  -- Only the living have names.
  have hliving : ∀ {q}, (n.step op).lives q = false → (n.step op).whereis name ≠ some q := by
    intro q hdead hq
    exact absurd (hdead.symm.trans ((coherent_step h op).names name q hq).2) (by simp)
  have hgone : (n.step op).whereis name ≠ some p := by
    cases hg with
    | one =>
        rw [step, unregister, whereis, NameRegistry.whereis_unregister, if_pos ⟨rfl, hp⟩]
        simp
    | all =>
        rw [step, unregister, whereis, NameRegistry.whereis_unregisterAll]
        change (n.whereis name).filter _ ≠ some p
        rw [hp, Option.filter_some, if_neg (by simp)]
        simp
    | death hd =>
        have hdead : (n.run [op]).lives p = false :=
          not_lives_of_deaths h (by rwa [collect, collect, List.append_nil])
        exact hliving hdead
    | reclamation hl hnone => exact hliving (lives_of_process?_none hnone)
  rcases whereis_step h op name with hw | ⟨q, -, hnone, -⟩ | ⟨-, -, -, -, hfree⟩
  · exact absurd (hw.trans hp) hgone
  · exact absurd (hnone.symm.trans hp) (by simp)
  · exact hfree

/-! ## Runs -/

/-- In some operations a process does not give up a name. -/
def Keeps (n : Node) (p : Pid) (name : String) : List NodeOp → Prop
  | [] => True
  | op :: rest => ¬ n.GivesUp p name op ∧ (n.step op).Keeps p name rest

/-- Who does not give up a name in a whole run does not give it up in the first part of it. -/
theorem keeps_append {ops ops' : List NodeOp} (h : n.Keeps p name (ops ++ ops')) :
    n.Keeps p name ops := by
  induction ops generalizing n with
  | nil => trivial
  | cons op rest ih => exact ⟨h.1, ih h.2⟩

/-- A holder that does not give up the name has it after the run. Nobody else can have claimed it,
    as it was never free. -/
theorem whereis_run (h : n.Coherent) (hp : n.whereis name = some p) {ops : List NodeOp}
    (hkeeps : n.Keeps p name ops) : (n.run ops).whereis name = some p := by
  induction ops generalizing n with
  | nil => exact hp
  | cons op rest ih =>
      refine ih (coherent_step h op) ?_ hkeeps.2
      rcases whereis_step h op name with hw | ⟨q, -, hnone, -⟩ | ⟨q, hq, -, hg, -⟩
      · exact hw.trans hp
      · exact absurd (hnone.symm.trans hp) (by simp)
      · rw [hp, Option.some.injEq] at hq
        exact absurd (hq ▸ hg) hkeeps.1

/-- A process holds a name until it gives it up. -/
structure Holds (n : Node) (p : Pid) (name : String) : Prop where
  /-- It is the holder in every state before it gives the name up. -/
  stays : ∀ ops, n.Keeps p name ops → ∀ m ∈ n.states ops, m.whereis name = some p
  /-- When it gives the name up, the name is free at once. -/
  freed : ∀ ops op, n.Keeps p name ops → (n.run ops).GivesUp p name op →
    ((n.run ops).step op).whereis name = none

/-- A holder stays the holder until it gives the name up. -/
theorem holds_of_whereis (h : n.Coherent) (hp : n.whereis name = some p) : n.Holds p name := by
  refine ⟨fun ops hkeeps m hm => ?_, fun ops op hkeeps hg => ?_⟩
  · rcases mem_states hm with ⟨before, after, rfl, rfl⟩
    exact whereis_run h hp (keeps_append hkeeps)
  · exact whereis_of_givesUp (coherent_run h ops) (whereis_run h hp hkeeps) hg

/-! ## The law of names -/

/-- A name is granted if it is valid, the process is alive and the name is free. -/
theorem register_ok_iff (h : n.Coherent) :
    (n.register p name).1 = .ok () ↔
      isValidName name = true ∧ n.lives p = true ∧ n.whereis name = none := by
  rw [register, ← h.isAlive_eq, whereis]
  rcases isValidName name with _ | _
  · simp
  · rcases ha : n.isAlive p with _ | _
    · simp
    · -- Who is alive does not depend on the names, so the second look finds what the first did.
      have hsame : ∀ names, ({ n with names } : Node).isAlive p = n.isAlive p := fun _ => rfl
      rcases hw : n.names.whereis name with _ | q <;> simp [NameRegistry.register, hw, hsame, ha]

/-- A refused name leaves the node as it was, also if it had been entered before the second look. -/
theorem register_error {e : Failure} (he : (n.register p name).1 = .error e) :
    (n.register p name).2 = n := by
  rcases register_cases n p name with hr | ⟨names, -, -, -, hr⟩
  · rw [hr]
  · rw [hr] at he
    exact absurd he (by simp)

/-- A granted name belongs to the process, and all other names to whom they did. -/
theorem whereis_register_ok (hok : (n.register p name).1 = .ok ()) (name' : String) :
    (n.register p name).2.whereis name' = if name' = name then some p else n.whereis name' := by
  rcases register_cases n p name with hr | ⟨names, -, -, hn, hr⟩
  · rw [hr] at hok
    exact absurd hok (by simp)
  · rw [hr]
    exact NameRegistry.whereis_register hn name'

/-- What can be relied on about the names of a node. -/
structure NameLaw (n : Node) : Prop where
  /-- A name is given to a living process of this node, if it may be registered and nobody
      holds it. -/
  claimed : ∀ p name, (n.register p name).1 = .ok () ↔
    (name ≠ "" ∧ name ≠ "undefined") ∧ (p.isLocal = true ∧ n.lives p = true) ∧
      n.whereis name = none
  /-- A claim that is refused changes nothing. -/
  refused : ∀ p name e, (n.register p name).1 = .error e → (n.register p name).2 = n
  /-- A claim that is granted makes the process the holder until it gives the name up, and
      leaves all other names as they are. -/
  granted : ∀ p name, (n.register p name).1 = .ok () →
    (n.register p name).2.whereis name = some p ∧ (n.register p name).2.Holds p name ∧
      ∀ name', name' ≠ name → (n.register p name).2.whereis name' = n.whereis name'
  /-- What is done to others does not change who holds a name. -/
  others : ∀ p name op, n.whereis name = some p → n.subject? op ≠ some p →
    (n.step op).whereis name = some p
  /-- The holder of a name changes only if a free name is claimed or the holder gives it up. -/
  changed : ∀ op name, (n.step op).whereis name ≠ n.whereis name →
    (∃ p, op = .register p name ∧ n.whereis name = none) ∨
      ∃ p, n.whereis name = some p ∧ n.GivesUp p name op
  /-- The names that are held are listed in order. -/
  sorted : n.registered.Pairwise (Text.le · ·)
  /-- No name is listed twice. -/
  nodup : n.registered.Nodup
  /-- The names that are listed are those that are held. -/
  listed : ∀ name, name ∈ n.registered ↔ ∃ p, n.whereis name = some p

/-- In every state a node can reach, names are exclusive, and they stay with their holders. -/
theorem Reachable.nameLaw (h : n.Reachable) : n.NameLaw := by
  have hn := h.coherent
  refine ⟨fun p name => ?_, fun p name e => register_error, fun p name hok => ?_,
    fun p name op hp hsubject => ?_, fun op name hne => ?_, n.names.pairwise_registered,
    n.names.nodup_registered, fun name => ?_⟩
  · rw [register_ok_iff hn, isValidName, Bool.and_eq_true, decide_eq_true_iff, decide_eq_true_iff]
    refine and_congr_right fun _ => and_congr_left fun _ => ⟨fun hl => ⟨?_, hl⟩, And.right⟩
    rcases lives_iff.mp hl with ⟨c, hc, -⟩
    exact hn.isLocal hc
  · have hview := whereis_register_ok hok
    have hself : (n.register p name).2.whereis name = some p := (hview name).trans (if_pos rfl)
    -- To claim a name is an operation, so the tables still agree.
    exact ⟨hself, holds_of_whereis (coherent_step hn (.register p name)) hself,
      fun name' hne => (hview name').trans (if_neg hne)⟩
  · rcases whereis_step hn op name with hw | ⟨q, -, hnone, -⟩ | ⟨q, hq, hsub, -⟩
    · exact hw.trans hp
    · exact absurd (hnone.symm.trans hp) (by simp)
    · rw [hp, Option.some.injEq] at hq
      exact absurd (hq ▸ hsub) hsubject
  · rcases whereis_step hn op name with hw | ⟨p, rfl, hnone, -⟩ | ⟨p, hp, -, hg, -⟩
    · exact absurd hw hne
    · exact Or.inl ⟨p, rfl, hnone⟩
    · exact Or.inr ⟨p, hp, hg⟩
  · exact NameRegistry.mem_registered.trans Option.isSome_iff_exists

/-- Two processes, the first of which has claimed a name that the second then asks for. -/
theorem nameLaw_pair :
    let n := (new .standard).run [.spawn, .spawn, .register (.ofSlot 1 0 0) "printer"]
    n.NameLaw ∧ n.whereis "printer" = some (.ofSlot 1 0 0) ∧
      (n.register (.ofSlot 2 0 0) "printer").1 = .error .badarg ∧
      (n.register (.ofSlot 2 0 0) "scanner").1 = .ok () ∧
      (n.die (.ofSlot 1 0 0) Reason.normal).whereis "printer" = none :=
  ⟨Reachable.nameLaw ⟨.standard, _, rfl⟩, by decide, rfl, rfl, by decide⟩

end Node

end Actors
