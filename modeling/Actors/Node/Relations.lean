import Actors.Node.Life

/-!
# Links, Monitors and Spawning

What processes do to each other, as requests to the node. A link is held by
both sides and is made by a signal to each. A monitor is remembered by the
watcher at once and by the watched process when the signal reaches it. A
partner that cannot be reached is treated as one that ended: the one who asked
gets an exit signal or a notice right away.

A process can be created in a relation. It then holds its side of the relation
before it starts, so there is no moment at which it could end unnoticed.

## Main definitions

* `Node.link`, `Node.unlink`: Both sides of a link.
* `Node.monitor`, `Node.demonitor`: Both sides of a monitor.
* `Node.exit`: Asks a process to end.
* `Node.spawn`, `Node.spawnLink`, `Node.spawnMonitor`: A process with a body.
-/

namespace Actors

namespace Node

/-- The reason given for a partner that cannot be reached. -/
def unreachableReason (e : Failure) : Term :=
  if e.hasTag "noconnection" then Reason.noconnection else Reason.noproc

/-- Links two processes. If the second cannot be reached, the first gets an
    exit signal from it. -/
def link (n : Node) (a b : Pid) : Node :=
  if a = b then n
  else
    match n.signal a .link (.pid b) with
    | (.error e, n') => n'.post b (.exit (unreachableReason e)) a
    | (.ok (), n') => n'.post b .link a

/-- Removes the link between two processes, if there is one. -/
def unlink (n : Node) (a b : Pid) : Node := (n.post a .unlink b).post b .unlink a

/-- Makes one process watch another, under a new reference. If the other cannot
    be reached, the watcher gets a notice from it. -/
def monitor (n : Node) (watcher watchee : Pid) : Ref × Node :=
  let (ref, n₁) := n.makeRef
  let n₂ :=
    if (n₁.lookup watcher).isSome then n₁.update watcher (·.trackMonitor ref watchee) else n₁
  match n₂.signal watcher (.monitor ref) (.pid watchee) with
  | (.error e, n₃) => (ref, n₃.post watchee (.down ref (unreachableReason e)) watcher)
  | (.ok (), n₃) => (ref, n₃)

/-- Ends a monitor of a watcher. A reference the watcher does not know is ignored. -/
def demonitor (n : Node) (watcher : Pid) (ref : Ref) : Node :=
  match n.lookup watcher with
  | none => n
  | some c =>
      match c.monitors.get? ref with
      | none => n
      | some watchee =>
          (n.update watcher fun c => { c with monitors := c.monitors.erase ref }).post
            watcher (.demonitor ref) watchee

/-- Asks a process to end. -/
def exit (n : Node) (sender target : Pid) (reason : Term) : Except Failure Unit × Node :=
  n.signal sender (.exit reason) (.pid target)

/-! ## Spawning -/

/-- A process that is about to run a body. The one handle to it belongs to the
    task of the body. -/
def spawn (n : Node) : Except Failure Pid × Node := n.makeProcess

/-- A process that is about to run a body, linked from the start. -/
def spawnLink (n : Node) (linked : Pid) : Except Failure Pid × Node :=
  match n.makeProcess with
  | (.error e, n₁) => (.error e, n₁)
  | (.ok p, n₁) =>
      let n₂ := n₁.update p fun c => { c with links := c.links.insert linked }
      match n₂.signal p .link (.pid linked) with
      | (.ok (), n₃) => (.ok p, n₃)
      | (.error _, n₃) => (.ok p, n₃.post linked (.exit Reason.noproc) p)

/-- A process that is about to run a body, watched from the start. -/
def spawnMonitor (n : Node) (watcher : Pid) : Except Failure (Pid × Ref) × Node :=
  match n.makeProcess with
  | (.error e, n₁) => (.error e, n₁)
  | (.ok p, n₁) =>
      let (ref, n₂) := n₁.makeRef
      let n₃ := n₂.update p fun c => { c with monitoredBy := c.monitoredBy.insert ref watcher }
      let n₄ := if (n₃.lookup watcher).isSome then n₃.update watcher (·.trackMonitor ref p) else n₃
      (.ok (p, ref), n₄)

end Node

end Actors
