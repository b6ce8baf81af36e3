import Actors.Text.Quoted

/-!
# Node Configuration

What a node is told when it starts: its name, which incarnation it is, how
many processes it may have, and how many signals it handles before it lets
others run.

## Main definitions

* `NodeConfig`: The configuration of a node.
* `NodeConfig.withName` and its neighbours: One setting changed.
* `NodeConfig.debug`: The text of a configuration.
-/

namespace Actors

/-- The configuration of a node. -/
structure NodeConfig where
  /-- The name of the node. -/
  name : String
  /-- The incarnation, part of every identifier the node makes. -/
  creation : UInt32
  /-- The most processes the node may have, if there is a limit. -/
  maxProcesses : Option Nat
  /-- How many signals are handled in one turn. -/
  dispatchBatch : Nat
deriving DecidableEq, Repr

namespace NodeConfig

/-- The configuration of a node that is told nothing. -/
def standard : NodeConfig := ⟨"nonode@nohost", 0, none, 1024⟩

instance : Inhabited NodeConfig := ⟨standard⟩

/-- Names the node. -/
def withName (c : NodeConfig) (name : String) : NodeConfig := { c with name }

/-- Sets the incarnation. -/
def withCreation (c : NodeConfig) (creation : UInt32) : NodeConfig := { c with creation }

/-- Limits the number of processes. -/
def withMaxProcesses (c : NodeConfig) (max : Nat) : NodeConfig :=
  { c with maxProcesses := some max }

/-- Sets how many signals are handled in one turn, at least one. -/
def withDispatchBatch (c : NodeConfig) (batch : Nat) : NodeConfig :=
  { c with dispatchBatch := max batch 1 }

/-- The text of a configuration. -/
def debug (c : NodeConfig) : String :=
  let limit := match c.maxProcesses with
    | none => "None".toList
    | some n => "Some(".toList ++ Nat.toDigits 10 n ++ [')']
  String.ofList ("NodeConfig \x7b name: ".toList ++ Text.quote c.name ++
    ", creation: ".toList ++ Nat.toDigits 10 c.creation.toNat ++
    ", max_processes: ".toList ++ limit ++
    ", dispatch_batch: ".toList ++ Nat.toDigits 10 c.dispatchBatch ++ " \x7d".toList)

end NodeConfig

end Actors
