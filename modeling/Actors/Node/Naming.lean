import Actors.Node

/-!
# Names and Routes of a Node

Names are registered for living processes of the node, and so are routes. A
name that is empty or says `undefined` is refused, and so is a route to the
node itself or to a node without a name.

Nodes are known here by numbers. A process of another node is addressed
through the number of its node; the node itself has number zero, so its own
processes need no other name.

## Main definitions

* `Node.register`, `Node.unregister`: Registered names.
* `Node.registerRouter`, `Node.unregisterRouter`: Routes.
* `Node.nodes`: This node and the others that can be listed.
* `Node.nodeIndex`, `Node.nodeNameAt`: Node numbers.
* `Node.remotePid`: The name by which a process of a node is known here.
-/

namespace Actors

namespace Node

/-- Whether a name may be registered at all. -/
def isValidName (name : String) : Bool := name ≠ "" && name ≠ "undefined"

/-- Gives up a name of a process, or all of them. Names of others stay. -/
def unregister (n : Node) (p : Pid) (name : Option String) : Node :=
  match name with
  | some name => { n with names := (n.names.unregister name p).2 }
  | none => { n with names := n.names.unregisterAll p }

/-- Registers a name for a living process of this node. Should the process have
    ended by the time the name is entered, the name is given up again. -/
def register (n : Node) (p : Pid) (name : String) : Except Failure Unit × Node :=
  if !isValidName name then (.error .badarg, n)
  else if !n.isAlive p then (.error .badarg, n)
  else
    match n.names.register name p with
    | (false, _) => (.error .badarg, n)
    | (true, names) =>
        let n' := { n with names }
        if !n'.isAlive p then (.error .badarg, n'.unregister p (some name)) else (.ok (), n')

/-- The registered names, in order. -/
def registered (n : Node) : List String := n.names.registered

/-- Removes every route of a router. -/
def unregisterRouter (n : Node) (router : Pid) : Node :=
  { n with routers := n.routers.unregister router }

/-- Registers a living process of this node as a route to another node. Should the
    process have ended by the time the route is entered, all its routes are removed. -/
def registerRouter (n : Node) (node : String) (cost : UInt32) (router : Pid)
    (options : RouterOptions) : Except Failure Unit × Node :=
  if node = n.name || node = "" then (.error .badarg, n)
  else if !n.isAlive router then (.error .badarg, n)
  else
    let n' := { n with routers := n.routers.register node ⟨router, cost, options⟩ }
    if !n'.isAlive router then (.error .badarg, n'.unregisterRouter router) else (.ok (), n')

/-- This node, and after it the nodes that can be reached and listed, in order. -/
def nodes (n : Node) : List String := n.name :: n.routers.visible

/-- The number of a node, giving it one on first use. -/
def nodeIndex (n : Node) (node : String) : UInt32 × Node :=
  let (index, routers) := n.routers.intern node
  (index.toUInt32, { n with routers })

/-- The node with a number. -/
def nodeNameAt (n : Node) (index : UInt32) : Option String := n.routers.nameAt? index.toNat

/-- The name by which a process of a node is known here. -/
def remotePid (n : Node) (node : String) (id serial creation : UInt32) : Pid × Node :=
  if node = n.name then (.ofSlot id serial creation, n)
  else
    let (index, n') := n.nodeIndex node
    (⟨index, id, serial, creation⟩, n')

end Node

end Actors
