import Actors.Dict
import Actors.Identifier
import Actors.Interner
import Actors.Text.Utf8

/-!
# Routes to Other Nodes

A router is a process that carries signals to another node. Several routers
may serve one node; the cheapest is used, and among equally cheap ones the one
that registered first. Registering again changes the cost of a route but not
its seniority. A node may be hidden: it is reached like any other and only
left out when nodes are listed.

The table also numbers the nodes it hears of. The local node is number zero,
and a number keeps its meaning after the last route to its node is gone.

## Main definitions

* `Route`: A router with its cost.
* `RouterTable`: The node numbers and the routes.
* `RouterTable.register`: Adds a route, or changes it.
* `RouterTable.unregister`: Removes every route of a router.
* `RouterTable.route`: The router to use for a node.
* `RouterTable.visible`: The nodes that can be listed, in order.
-/

namespace Actors

/-- How a route is to be treated. -/
structure RouterOptions where
  /-- Whether the node is left out when nodes are listed. -/
  hidden : Bool
deriving DecidableEq, Inhabited, Repr

/-- The options of a route unless others are given. -/
def RouterOptions.standard : RouterOptions := ⟨false⟩

/-- The text of some options. -/
def RouterOptions.debug (o : RouterOptions) : String :=
  if o.hidden then "RouterOptions \x7b hidden: true \x7d"
  else "RouterOptions \x7b hidden: false \x7d"

/-- A router with its cost. -/
structure Route where
  /-- The process that carries the signals. -/
  router : Pid
  /-- What using it costs. -/
  cost : UInt32
  /-- How the route is to be treated. -/
  options : RouterOptions
deriving DecidableEq, Inhabited, Repr

/-- The node numbers and the routes. -/
structure RouterTable where
  /-- The numbers of the nodes. -/
  nodes : Interner
  /-- The routes to each node, the most senior first. -/
  routes : Dict String (List Route)

namespace RouterTable

/-- A table that knows only the local node. -/
def new (localName : String) : RouterTable := ⟨.singleton localName, ∅⟩

instance : Inhabited RouterTable := ⟨new ""⟩

/-- The number of a node, giving it one on first use. -/
def intern (t : RouterTable) (node : String) : Nat × RouterTable :=
  let (index, nodes) := t.nodes.intern node
  (index, { t with nodes })

/-- The number of a node that has one. -/
def indexOf? (t : RouterTable) (node : String) : Option Nat := t.nodes.indexOf? node

/-- The node with a number. -/
def nameAt? (t : RouterTable) (index : Nat) : Option String := t.nodes.nameAt? index

/-- The routes to a node, the most senior first. -/
def routesTo (t : RouterTable) (node : String) : List Route := (t.routes.get? node).getD []

/-- Some routes with one more at the end, or with the cost and options of its
    router changed if the router is among them. -/
def upsert (route : Route) : List Route → List Route
  | [] => [route]
  | r :: rest => if r.router = route.router then route :: rest else r :: upsert route rest

/-- Adds the route of a router to a node, or changes its cost and options. -/
def register (t : RouterTable) (node : String) (route : Route) : RouterTable :=
  let (_, t') := t.intern node
  { t' with routes := t'.routes.insert node (upsert route (t'.routesTo node)) }

/-- Whether a router is among some routes. -/
def serves (router : Pid) (routes : List Route) : Bool := routes.any fun r => r.router = router

/-- The nodes that a router serves. -/
def servedBy (t : RouterTable) (router : Pid) : List String :=
  (t.routes.filter fun _ routes => serves router routes).keys

/-- Removes every route of a router. -/
def unregister (t : RouterTable) (router : Pid) : RouterTable :=
  let without := t.routes.entries.map fun e => (e.1, e.2.filter fun r => r.router ≠ router)
  { t with
    routes :=
      Dict.filter
        { entries := without
          nodup := by
            have h : without.map Prod.fst = t.routes.entries.map Prod.fst := by
              rw [List.map_map]; rfl
            rw [h]
            exact t.routes.nodup }
        fun _ routes => !routes.isEmpty }

/-- The cheapest of some routes, the most senior of them if several are. -/
def cheapest : List Route → Option Route
  | [] => none
  | r :: rest =>
      match cheapest rest with
      | none => some r
      | some best => if r.cost ≤ best.cost then some r else some best

/-- The router to use for a node. -/
def route (t : RouterTable) (node : String) : Option Pid :=
  (cheapest (t.routesTo node)).map Route.router

/-- The nodes that can be reached and are not hidden, in order. -/
def visible (t : RouterTable) : List String :=
  (t.routes.filter fun _ routes => routes.any fun r => !r.options.hidden).keys.mergeSort Text.le

end RouterTable

end Actors
