import Actors.Proofs.Node.FirstCause
import Actors.Proofs.Scenario.Interleaving

/-!
# One Exit Reason for Every Process

A process with a body can end in many ways at once. Its body runs to its end, fails or
panics, or ends the process itself and carries on; somebody with a handle ends it; and
an exit signal arrives. However these come in turn, the process has one exit reason,
and that is the reason of whichever came first.

What can come in turn is a list of `ScenarioOp`, and what the node sees of it is a run
of node operations. In that run the causes are known, so the reason on record and the
farewells are a matter of `Node.FirstCause`. What is left to say is what the node does
not see: the body of a process that has a first cause behind it is not polled any more.

## Main definitions

* `Scenario.after`, `Scenario.seen`: A scenario after some things happened, and what its
  node saw of them.
* `Scenario.causes`: The reasons a process was given to end, in order.
* `Scenario.FirstCauseLaw`: What can be relied on about the end of a process.

## Theorems

* `hasEnded_of_causes`: A process that was given a reason to end has ended.
* `first_cause_decides`: The law.
-/

namespace Actors

namespace Scenario

/-- A new scenario after some things happened. -/
def after (config : NodeConfig) (es : List ScenarioOp) : Scenario := ((new config).playAll es).2

/-- What the node of a new scenario sees when some things happen. -/
def seen (config : NodeConfig) (es : List ScenarioOp) : List NodeOp := ((new config).playAll es).1

/-- The reasons that a process was given to end by operations of a new node, in order. -/
def causes (config : NodeConfig) (p : Pid) (ops : List NodeOp) : List Term :=
  (Node.new config).collect (·.causes p) ops

/-- What can be relied on about the end of a process. -/
structure FirstCauseLaw (config : NodeConfig) (es : List ScenarioOp) (p : Pid) : Prop where
  /-- The exit reason is that of the first cause, with `kill` recorded as `killed`. Without a
      cause there is none. Those who wait for the end are told the same. -/
  recorded : ∀ c, (after config es).node.process? p = some c →
    c.exitReason = (causes config p (seen config es)).head?.map Reason.recorded ∧
      c.exitNotice = c.exitReason
  /-- The first cause finds the process alive and ends it, and every entry of its tables that
      leads somewhere is told once, for that reason. -/
  first : ∀ before op rest reason, seen config es = before ++ op :: rest →
    causes config p before = [] → ((Node.new config).run before).Cause p reason op →
      ∃ c, ((Node.new config).run before).Departs p c (Reason.recorded reason) op
  /-- Later causes change nothing. -/
  later : ∀ before op rest reason, seen config es = before ++ op :: rest →
    causes config p before ≠ [] → ((Node.new config).run before).Cause p reason op →
      ((Node.new config).run before).Ignored p op
  /-- After the first cause no poll of the body begins: a task that is polled lets go of the
      process, and nothing else happens. -/
  unpolled : ∀ before others rest, es = before ++ .poll p others :: rest →
    causes config p (seen config before) ≠ [] → ∃ ops : List NodeOp,
      (ops = [] ∨ ops = [.letGo p] ∨ ∃ id, ops = [.receive p (.leave id), .letGo p]) ∧
      (after config before).play (.poll p others) =
        (ops, { (after config before).act ops with tasks := (after config before).tasks.erase p })

variable {config : NodeConfig} {p : Pid}

/-- The reason on record is that of the first cause. -/
theorem exitReason_eq {ops : List NodeOp} {c : Process}
    (hc : ((Node.new config).run ops).process? p = some c) :
    c.exitReason = (causes config p ops).head?.map Reason.recorded :=
  (Node.exitReason_run (Node.coherent_new config) hc).trans (Option.none_or ..)

/-- A process that is there is alive as long as it was given no reason to end, and not after. -/
theorem lives_eq {ops : List NodeOp} (hp : (((Node.new config).run ops).process? p).isSome) :
    ((Node.new config).run ops).lives p = (causes config p ops).isEmpty := by
  rcases Option.isSome_iff_exists.mp hp with ⟨c, hc⟩
  have hreason := exitReason_eq hc
  rw [Node.lives_of_process? hc]
  -- The reason on record is the first of the causes, so there is one exactly where there are
  -- causes.
  rcases hcauses : causes config p ops with _ | ⟨r, rest⟩ <;> rw [hcauses] at hreason
  · rcases hlife : c.life with _ | reason
    · exact Process.isAlive_iff.mpr hlife
    · rw [Node.exitReason_of_dead hlife] at hreason
      exact absurd hreason (by simp)
  · have hdead := Node.exitReason_eq_some_iff.mp hreason
    rw [Process.isAlive, hdead]
    rfl

/-- A process that was given a reason to end has ended. -/
theorem hasEnded_of_causes {es : List ScenarioOp} (h : causes config p (seen config es) ≠ []) :
    (after config es).hasEnded p = true := by
  have hnode : (after config es).node = (Node.new config).run (seen config es) :=
    node_playAll (new config) es
  rw [hasEnded, hnode]
  -- A process that nobody holds any more counts as ended.
  rcases hc : ((Node.new config).run (seen config es)).process? p with _ | c
  · rfl
  · have hsome : (((Node.new config).run (seen config es)).process? p).isSome := by
      rw [hc]
      rfl
    have hlives := lives_eq hsome
    rw [Node.lives_of_process? hc, List.isEmpty_eq_false_iff.mpr h] at hlives
    dsimp only
    rw [hlives]
    rfl

/-- Whatever happens, and in whatever order, the first cause decides how a process ends. -/
theorem first_cause_decides (config : NodeConfig) (es : List ScenarioOp) (p : Pid) :
    FirstCauseLaw config es p where
  recorded c hc := by
    have hnode : (after config es).node = (Node.new config).run (seen config es) :=
      node_playAll (new config) es
    rw [hnode] at hc
    refine ⟨exitReason_eq hc, ?_⟩
    have hsound := (Node.coherent_run (Node.coherent_new config) _).sound p c hc
    -- What waits for the end is told what is on record, and nothing before.
    rcases hlife : c.life with _ | reason
    · rw [(hsound.alive hlife).2, Node.exitReason_of_alive (Process.isAlive_iff.mpr hlife)]
    · rw [(hsound.ended reason hlife).notice, Node.exitReason_of_dead hlife]
  first before op rest reason _ hnone hcause :=
    Node.departs_of_cause hcause (by rw [lives_eq hcause.isSome, hnone]; rfl)
  later before op rest reason _ hsome hcause :=
    Node.ignored_of_cause hcause
      (by rw [lives_eq hcause.isSome, List.isEmpty_eq_false_iff.mpr hsome])
  unpolled before others rest _ hsome :=
    play_poll_of_hasEnded (keyed_playAll config before) (hasEnded_of_causes hsome) others

/-- A body ends its own process and carries on, somebody else ends the process meanwhile, and then
    the body runs to its end. -/
example :
    let p : Pid := .ofSlot 1 0 0
    let es : List ScenarioOp :=
      [.spawn .unrelated p "job" [.catching (.exitSelf (.const (.atom "one"))), .finish],
        .call (.retain p), .poll p [[], [.die p (.atom "two")]]]
    causes .standard p (seen .standard es) = [.atom "one", .atom "two", .atom "normal"] ∧
      ((after .standard es).node.process? p).map Process.exitReason =
        some (some (.atom "one")) := by
  decide

end Scenario

end Actors
