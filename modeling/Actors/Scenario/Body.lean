import Actors.Failure
import Actors.Scenario.Expr

/-!
# Process Bodies

What a process does, step by step. A body is a list of steps. Its end is the
end of the process: for the reason `normal` if the body ran to its end or said
so, for the reason of the failure if a step failed and nobody caught that, and
for a reason that starts with `panic` if the body broke down.

## Main definitions

* `BodyStep`: A step of a body.
* `Relation`: How a process is related to the one that creates it.
* `Outcome`: How a body ended.
* `Outcome.reason`: The exit reason that follows.
* `BodyStep.weightAll`: A bound on the work in a body.
-/

namespace Actors

/-- How a process is related to another one from the start. -/
inductive Relation where
  /-- Not at all. -/
  | unrelated
  /-- The two are linked. -/
  | linked
  /-- The other one watches it. -/
  | monitored
deriving DecidableEq, Inhabited, Repr

/-- A step of a body. -/
inductive BodyStep where
  /-- Sends a message. -/
  | send (target message : TermExpr)
  /-- Receives a message, perhaps with a limit to its patience. -/
  | receive (test : PredicateExpr) (timeout : Option Nat)
  /-- Sets whether exit signals become messages. -/
  | trapExit (value : Bool)
  /-- Links with a process. -/
  | link (other : TermExpr)
  /-- Removes the link with a process. -/
  | unlink (other : TermExpr)
  /-- Watches a process, and keeps the reference under a label. -/
  | monitor (other : TermExpr) (label : String)
  /-- Ends a monitor. -/
  | demonitor (ref : TermExpr)
  /-- Registers a name. -/
  | register (name : String)
  /-- Looks up a name. -/
  | whereis (name : String)
  /-- Asks a process to end. -/
  | exit (other reason : TermExpr)
  /-- Ends itself. -/
  | exitSelf (reason : TermExpr)
  /-- Creates a process, and keeps it and its monitor under labels. -/
  | spawn (relation : Relation) (label : String) (refLabel : Option String)
      (body : List BodyStep)
  /-- Asks who it is. -/
  | self
  /-- Lets others run. -/
  | pause
  /-- Ends the body. -/
  | finish
  /-- Ends the body with a failure. -/
  | fail (reason : TermExpr)
  /-- Breaks down, with a text or without one. -/
  | panic (text : Option String)
  /-- A step after which the body goes on even if the step failed. -/
  | catching (step : BodyStep)
deriving Inhabited, Repr

namespace BodyStep

mutual

/-- A bound on the work in a step. -/
def weight : BodyStep → Nat
  | .spawn _ _ _ body => 2 + weightAll body
  | .catching step => weight step
  | _ => 1

/-- A bound on the work in a body. -/
def weightAll : List BodyStep → Nat
  | [] => 0
  | step :: rest => weight step + weightAll rest

end

/-- Whether the body goes on after the step even if it failed. -/
def catches : BodyStep → Bool
  | .catching _ => true
  | _ => false

end BodyStep

/-- How a body ended. -/
inductive Outcome where
  /-- It ran to its end. -/
  | finished
  /-- It failed. -/
  | failed (f : Failure)
  /-- It broke down, with a text or without one. -/
  | panicked (text : Option String)

/-- The exit reason that follows. -/
def Outcome.reason : Outcome → Term
  | .finished => Reason.normal
  | .failed f => f.reason
  | .panicked text => .tuple [.atom "panic", .text (text.getD "unknown panic")]

end Actors
