import Actors.Term.Order

/-!
# Signals

Whatever one process does to another travels as a signal to a destination.
Inside a node signals are queued; to another node they travel as terms, inside
an envelope that names the sender and the destination:

    {route, Sender, Destination, Signal}

    Destination = Pid | Name | {Name, Node}
    Signal      = {relay, Message} | link | unlink | {monitor, Ref}
                | {demonitor, Ref} | {exit, Reason} | {down, Ref, Reason}

Each of the three has a term form and a reader for it, and the reader accepts
nothing but such forms.

## Main definitions

* `Signal`: What one process does to another.
* `Dest`: Where a signal goes.
* `Routed`: A signal with its sender and destination.
* `Signal.toTerm`, `Signal.ofTerm?`: The term form of a signal and its reader;
  `Dest` and `Routed` have the same two.
* `Signal.kind`: The short name of a signal.
-/

namespace Actors

/-- What one process does to another. -/
inductive Signal where
  /-- Hands over a message. -/
  | relay (message : Term)
  /-- The sender links to the receiver. -/
  | link
  /-- The sender takes its link back. -/
  | unlink
  /-- The sender watches the receiver under a reference. -/
  | monitor (ref : Ref)
  /-- The sender stops watching. -/
  | demonitor (ref : Ref)
  /-- The receiver is to end, or to be told that the sender did. -/
  | exit (reason : Term)
  /-- The watched sender ended. -/
  | down (ref : Ref) (reason : Term)
deriving DecidableEq, Inhabited, Repr

namespace Signal

/-- The short name of a signal. -/
def kind : Signal → String
  | .relay _ => "relay"
  | .link => "link"
  | .unlink => "unlink"
  | .monitor _ => "monitor"
  | .demonitor _ => "demonitor"
  | .exit _ => "exit"
  | .down _ _ => "down"

/-- The term form of a signal. -/
def toTerm : Signal → Term
  | .relay message => .tuple [.atom "relay", message]
  | .link => .atom "link"
  | .unlink => .atom "unlink"
  | .monitor ref => .tuple [.atom "monitor", .ref ref]
  | .demonitor ref => .tuple [.atom "demonitor", .ref ref]
  | .exit reason => .tuple [.atom "exit", reason]
  | .down ref reason => .tuple [.atom "down", .ref ref, reason]

/-- The signal of a pair, by its tag. -/
def ofPair? (tag : String) (content : Term) : Option Signal :=
  if tag = "relay" then some (.relay content)
  else if tag = "monitor" then content.asRef?.map .monitor
  else if tag = "demonitor" then content.asRef?.map .demonitor
  else if tag = "exit" then some (.exit content)
  else none

/-- Reads the term form of a signal. -/
def ofTerm? : Term → Option Signal
  | .atom name =>
      if name = "link" then some .link else if name = "unlink" then some .unlink else none
  | .tuple [.atom tag, content] => ofPair? tag content
  | .tuple [.atom tag, .ref ref, reason] => if tag = "down" then some (.down ref reason) else none
  | _ => none

end Signal

/-- Where a signal goes. -/
inductive Dest where
  /-- A process of this node or another one. -/
  | pid (pid : Pid)
  /-- The holder of a name on this node. -/
  | name (name : String)
  /-- The holder of a name on a node. -/
  | remote (name node : String)
deriving DecidableEq, Inhabited, Repr

namespace Dest

/-- The term form of a destination. -/
def toTerm : Dest → Term
  | .pid p => .pid p
  | .name n => .atom n
  | .remote n h => .tuple [.atom n, .atom h]

/-- Reads the term form of a destination. -/
def ofTerm? : Term → Option Dest
  | .pid p => some (.pid p)
  | .atom n => some (.name n)
  | .tuple [.atom n, .atom h] => some (.remote n h)
  | _ => none

end Dest

/-- A signal with its sender and destination. -/
structure Routed where
  /-- The process the signal comes from. -/
  sender : Pid
  /-- Where it goes, as seen from the node it is sent to. -/
  dest : Dest
  /-- The signal. -/
  signal : Signal
deriving DecidableEq, Inhabited, Repr

namespace Routed

/-- The envelope of a signal. -/
def toTerm (r : Routed) : Term :=
  .tuple [.atom "route", .pid r.sender, r.dest.toTerm, r.signal.toTerm]

/-- Reads an envelope. -/
def ofTerm? : Term → Option Routed
  | .tuple [.atom tag, .pid sender, dest, signal] =>
      if tag = "route" then
        match Dest.ofTerm? dest, Signal.ofTerm? signal with
        | some dest, some signal => some ⟨sender, dest, signal⟩
        | _, _ => none
      else none
  | _ => none

end Routed

end Actors
