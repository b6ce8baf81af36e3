import Actors.Proofs.Atom
import Actors.Proofs.Node.Moves
import Actors.Proofs.Registries

/-!
# Where Destinations Lead

A process can be addressed by its identifier, by a registered name, or by a name
on a node, and a process of another node by an identifier that carries the number
of that node. This module shows that it does not matter which of these is used: a
name stands for its holder, the node's own name adds nothing to a name, and all
destinations on one other node are served by one router.

A failure is as exact as a success. A name that resolves to nobody is not held, an
identifier of this node that is refused is of nobody who is alive, and a node that
cannot be reached has no route at all. For the last two of these it takes the
agreement of the tables: a name or a route whose process had ended would be looked
up and then refused.

What is special about number zero is an invariant of its own. It is the number of
the node itself from the start, numbers keep their meaning, and no node has two. So
an identifier of another node never leads home.

## Main definitions

* `NodeOp.nodeNames`: The nodes that an operation may give a number.
* `Node.Steady`: A node keeps its name and the meaning of its numbers.
* `Node.SameNumbers`, `Node.Numbers`: No node is given a number, or one node is.
* `Node.LeadsTo`: The destinations that lead to a node.
* `Node.AddressingLaw`: What can be relied on about destinations.

## Theorems

* `numbers_step`: Only a node that the operation names is given a number.
* `steady_step`: No operation changes the name of the node or what a number means.
* `Reachable.nameAt?_zero`: Number zero is the node itself.
* `resolve_of_leadsTo`: What leads to a node is served by the router for it.
* `routerFor_of_ne_nil`: The router is a living one on a cheapest route.
* `signal_severed`, `signal_carried`: What is sent to another node.
* `leadsTo_remotePid`: An identifier made for a node leads to it.
* `Reachable.addressingLaw`: All ways to address a destination agree.
-/

namespace Actors

/-- The nodes that an operation may give a number. -/
def NodeOp.nodeNames : NodeOp → List String
  | .registerRouter node .. => [node]
  | .nodeIndex node => [node]
  | .remotePid node .. => [node]
  | _ => []

namespace Node

open Interner (Grows)

/-- A node keeps its name and the meaning of its numbers. -/
structure Steady (n n' : Node) : Prop where
  /-- The name is what it was. -/
  name : n'.name = n.name
  /-- New numbers may have been given out, but no old one has changed. -/
  nodes : n.routers.nodes.Grows n'.routers.nodes

/-- A node keeps its name and its table of numbers. -/
structure SameNumbers (n n' : Node) : Prop where
  /-- The name is what it was. -/
  name : n'.name = n.name
  /-- No number was given out. -/
  nodes : n'.routers.nodes = n.routers.nodes

/-- A node keeps its name, and a node that has no number yet is given the next one. -/
structure Numbers (n : Node) (node : String) (n' : Node) : Prop where
  /-- The name is what it was. -/
  name : n'.name = n.name
  /-- The node has a number now, and nothing else has changed. -/
  nodes : n'.routers.nodes = (n.routers.nodes.intern node).2

/-- The destinations that lead to a node. -/
inductive LeadsTo (n : Node) (node : String) : Dest → Prop
  /-- An identifier that carries the number of the node. -/
  | pid {p : Pid} (h : n.routers.indexOf? node = some p.node.toNat) : LeadsTo n node (.pid p)
  /-- Any name on the node. -/
  | remote (name : String) : LeadsTo n node (.remote name node)

variable {n n' : Node} {p : Pid} {node : String} {target : Dest}

/-! ## Names and numbers of nodes -/

theorem SameNumbers.refl (n : Node) : n.SameNumbers n := ⟨rfl, rfl⟩

theorem SameNumbers.trans {n'' : Node} (h : n.SameNumbers n') (h' : n'.SameNumbers n'') :
    n.SameNumbers n'' := ⟨h'.name.trans h.name, h'.nodes.trans h.nodes⟩

theorem sameNumbers_handle (n : Node) (d : Delivery) : n.SameNumbers (n.handle d) := by
  rcases hc : n.process? d.target with _ | c
  · rw [handle_of_none hc]
    exact .refl n
  · rcases handle_cases hc with ⟨-, hh⟩ | ⟨-, c', -, hh⟩ | ⟨-, reason, -, -, hh⟩ <;> rw [hh] <;>
      exact ⟨rfl, rfl⟩

theorem sameNumbers_reclaim (n : Node) (p : Pid) : n.SameNumbers (n.reclaim p) := by
  rcases reclaim_cases n p with ⟨hr, -⟩ | ⟨c, -, -, -, ⟨-, hr⟩ | ⟨-, hr⟩⟩ <;> rw [hr] <;>
    exact ⟨rfl, rfl⟩

/-- Only a node that the operation names is given a number. -/
theorem numbers_step (n : Node) (op : NodeOp) :
    n.SameNumbers (n.step op) ∨ ∃ node ∈ op.nodeNames, n.Numbers node (n.step op) := by
  by_cases hplain : op.isPlain = true ∧ op.isClerical = false
  · rcases registries_step n hplain.1 hplain.2 with ⟨hname, -, hrouters⟩
    exact Or.inl ⟨hname, congrArg RouterTable.nodes hrouters⟩
  cases op with
  | register p name =>
      rw [step]
      rcases register_cases n p name with hr | ⟨names, -, -, -, hr⟩ <;> rw [hr] <;>
        exact Or.inl ⟨rfl, rfl⟩
  | unregister p name => cases name <;> exact Or.inl ⟨rfl, rfl⟩
  | registerRouter node cost router options =>
      -- A route may be the first to its node, which gets the next number then.
      rw [step]
      rcases registerRouter_cases n node cost router options with he | ⟨-, he⟩ <;> rw [he]
      · exact Or.inl (.refl n)
      · exact Or.inr ⟨node, List.mem_singleton_self node, rfl, rfl⟩
  | unregisterRouter router => exact Or.inl ⟨rfl, rfl⟩
  | nodeIndex node => exact Or.inr ⟨node, List.mem_singleton_self node, rfl, rfl⟩
  | remotePid node id serial creation =>
      rw [step]
      rcases remotePid_cases n node id serial creation with he | he <;> rw [he]
      · exact Or.inl (.refl n)
      · exact Or.inr ⟨node, List.mem_singleton_self node, rfl, rfl⟩
  | die p reason =>
      rw [step]
      rcases die_cases n p reason with ⟨hd, -⟩ | ⟨c, -, -, hd⟩ <;> rw [hd]
      · exact Or.inl (.refl n)
      · exact Or.inl ⟨rfl, rfl⟩
  | letGo p =>
      have hreclaim := sameNumbers_reclaim (n.loosen p) p
      exact Or.inl ⟨hreclaim.name, hreclaim.nodes⟩
  | handleInHand =>
      -- Whatever the signal is, neither its target nor its sender can number anything.
      rcases handleInHand_cases n with ⟨-, hi⟩ | ⟨d, q, -, -, hi⟩ <;> rw [step, hi]
      · exact Or.inl (.refl n)
      · have htaken : n.SameNumbers (n.withQueue q) := ⟨rfl, rfl⟩
        exact Or.inl ((htaken.trans (sameNumbers_handle _ d)).trans
          (sameNumbers_reclaim _ d.target))
  | _ => exact absurd ⟨rfl, rfl⟩ hplain

/-- No operation changes the name of the node or what a number means. -/
theorem steady_step (n : Node) (op : NodeOp) : n.Steady (n.step op) := by
  rcases numbers_step n op with h | ⟨node, -, h⟩
  · exact ⟨h.name, h.nodes ▸ .refl n.routers.nodes⟩
  · exact ⟨h.name, h.nodes ▸ Interner.grows_intern n.routers.nodes node⟩

/-- Number zero is the node itself. -/
theorem Reachable.nameAt?_zero (h : n.Reachable) : n.routers.nameAt? 0 = some n.name := by
  rcases h with ⟨config, ops, rfl⟩
  refine run_new_induction (P := fun m => m.routers.nameAt? 0 = some m.name) rfl
    (fun m op _ hm => ?_) ops
  -- The number was given out when the node started, and is not given out again.
  have hsteady := steady_step m op
  rw [hsteady.name]
  exact hsteady.nodes.nameAt? hm

/-! ## Sending by what a destination resolves to -/

theorem signal_of_process (h : n.resolve target = .ok (.process p)) (f : Pid) (s : Signal) :
    n.signal f s target = (.ok (), n.enqueue ⟨p, f, s⟩) := by
  rw [signal, h]

theorem signal_of_router (h : n.resolve target = .ok (.router p)) (f : Pid) (s : Signal) :
    n.signal f s target =
      (.ok (), n.enqueue ⟨p, f, .relay (Routed.toTerm ⟨f, target, s⟩)⟩) := by
  rw [signal, h]

theorem signal_of_error {e : Failure} (h : n.resolve target = .error e) (f : Pid) (s : Signal) :
    n.signal f s target = (.error e, n) := by
  rw [signal, h]

/-! ## Processes of this node -/

theorem resolve_local (hn : n.Coherent) (hp : p.isLocal = true) :
    n.resolve (.pid p) = if n.isAlive p then .ok (.process p) else .error .noproc := by
  rw [resolve, resolvePid, if_pos hp, hn.isSome_lookup, hn.isAlive_eq]

/-- A name stands for its holder, who is alive. -/
theorem resolve_held (hn : n.Coherent) {name : String} (h : n.whereis name = some p) :
    n.isAlive p = true ∧ n.resolve (.name name) = .ok (.process p) ∧
      n.resolve (.pid p) = .ok (.process p) := by
  have hlives := (hn.names name p h).2
  have halive : n.isAlive p = true := (hn.isAlive_eq p).trans hlives
  rcases lives_iff.mp hlives with ⟨c, hc, -⟩
  refine ⟨halive, ?_, ?_⟩
  · -- Resolving looks only whether there is a table, which for a local process means that it lives.
    rw [resolve, resolveName, h]
    dsimp only
    rw [hn.isSome_lookup, if_pos hlives]
  · rw [resolve_local hn (hn.isLocal hc), if_pos halive]

theorem resolve_free {name : String} (h : n.whereis name = none) :
    n.resolve (.name name) = .error .noproc := by
  rw [resolve, resolveName, h]

/-! ## Processes of other nodes -/

/-- Only the node itself has number zero. -/
theorem isLocal_eq_false (hzero : n.routers.nameAt? 0 = some n.name) (hnode : node ≠ n.name)
    (h : n.routers.nameAt? p.node.toNat = some node) : p.isLocal = false := by
  rw [Pid.isLocal, beq_eq_false_iff_ne]
  intro hp
  rw [hp, localNode, UInt32.toNat_zero, hzero, Option.some.injEq] at h
  exact hnode h.symm

/-- A number of another node than zero is not the number of this one. -/
theorem ne_name_of_nameAt? (hzero : n.routers.nameAt? 0 = some n.name) (hp : p.isLocal = false)
    (h : n.routers.nameAt? p.node.toNat = some node) : node ≠ n.name := by
  rintro rfl
  have hi := Interner.nameAt?_eq_some_iff.mp h
  -- One name has one number.
  rw [Interner.nameAt?_eq_some_iff.mp hzero, Option.some.injEq] at hi
  have hnode : p.node = localNode := UInt32.toNat_inj.mp hi.symm
  rw [Pid.isLocal, hnode, beq_self_eq_true] at hp
  exact absurd hp (by simp)

/-- What leads to another node is served by the router for that node. -/
theorem resolve_of_leadsTo (hzero : n.routers.nameAt? 0 = some n.name) (hnode : node ≠ n.name)
    (h : n.LeadsTo node target) : n.resolve target = n.routerFor node := by
  cases h with
  | @pid p hi =>
      have hname : n.routers.nameAt? p.node.toNat = some node :=
        Interner.nameAt?_eq_some_iff.mpr hi
      have hp := isLocal_eq_false hzero hnode hname
      rw [resolve, resolvePid, hp, hname]
      rfl
  | remote name => rw [resolve, if_neg hnode]

theorem routerFor_of_nil (h : n.routers.routesTo node = []) :
    n.routerFor node = .error .noconnection := by
  rw [routerFor, RouterTable.route, h]
  rfl

/-- The router for a node is a living one, on a route than which none is cheaper. -/
theorem routerFor_of_ne_nil (hn : n.Coherent) (h : n.routers.routesTo node ≠ []) :
    ∃ route ∈ n.routers.routesTo node, n.isAlive route.router = true ∧
      (∀ r ∈ n.routers.routesTo node, route.cost ≤ r.cost) ∧
      n.routerFor node = .ok (.router route.router) := by
  -- The routes of those who ended are gone, so whoever is found is alive.
  rcases hbest : RouterTable.cheapest (n.routers.routesTo node) with _ | route
  · exact absurd (RouterTable.cheapest_eq_none_iff.mp hbest) h
  · rcases RouterTable.cheapest_least hbest with ⟨hmem, hle⟩
    have hlives := hn.routes node route hmem
    refine ⟨route, hmem, (hn.isAlive_eq _).trans hlives, hle, ?_⟩
    rw [routerFor, RouterTable.route, hbest]
    dsimp only [Option.map_some]
    rw [hn.isSome_lookup, if_pos hlives]

theorem signal_severed (hzero : n.routers.nameAt? 0 = some n.name) (hnode : node ≠ n.name)
    (hnil : n.routers.routesTo node = []) (hleads : n.LeadsTo node target) (f : Pid) (s : Signal) :
    n.signal f s target = (.error .noconnection, n) := by
  refine signal_of_error ?_ f s
  rw [resolve_of_leadsTo hzero hnode hleads, routerFor_of_nil hnil]

/-- What leads to a node goes through the router for it, and carries where it is to go. -/
theorem signal_carried (hn : n.Coherent) (hzero : n.routers.nameAt? 0 = some n.name)
    (hnode : node ≠ n.name) (hne : n.routers.routesTo node ≠ []) :
    ∃ route ∈ n.routers.routesTo node, n.isAlive route.router = true ∧
      (∀ r ∈ n.routers.routesTo node, route.cost ≤ r.cost) ∧
      ∀ target, n.LeadsTo node target → ∀ f s, n.signal f s target =
        (.ok (), n.enqueue ⟨route.router, f, .relay (Routed.toTerm ⟨f, target, s⟩)⟩) := by
  -- The choice of the router does not depend on the signal or on how the node is addressed.
  rcases routerFor_of_ne_nil hn hne with ⟨route, hmem, halive, hle, hrouter⟩
  refine ⟨route, hmem, halive, hle, fun target hleads f s => signal_of_router ?_ f s⟩
  rw [resolve_of_leadsTo hzero hnode hleads, hrouter]

/-- An identifier that was made for another node leads to that node, as long as the
    numbers of all nodes can be told apart. -/
theorem leadsTo_remotePid (hnode : node ≠ n.name) (id serial creation : UInt32)
    (hsize : (n.routers.nodes.intern node).2.size ≤ UInt32.size) :
    (n.remotePid node id serial creation).2.LeadsTo node
      (.pid (n.remotePid node id serial creation).1) := by
  refine .pid ?_
  rw [remotePid, if_neg hnode]
  change (n.routers.nodes.intern node).2.indexOf? node =
    some (n.routers.nodes.intern node).1.toUInt32.toNat
  -- The number of the node is below the size of the table, so it fits the field of the identifier.
  have hlt := Interner.lt_size_of_nameAt? (Interner.nameAt?_of_intern n.routers.nodes node)
  rw [Interner.indexOf?_intern_self, Nat.toUInt32_eq,
    UInt32.toNat_ofNat_of_lt' (Nat.lt_of_lt_of_le hlt hsize)]

/-! ## All ways to address a destination -/

/-- What can be relied on about the destinations of signals. -/
structure AddressingLaw (n : Node) : Prop where
  /-- A name that is held stands for its holder. -/
  held : ∀ name p, n.whereis name = some p → ∀ f s,
    n.signal f s (.name name) = n.signal f s (.pid p) ∧
      n.signal f s (.pid p) = (.ok (), n.enqueue ⟨p, f, s⟩)
  /-- A name that nobody holds leads nowhere. -/
  free : ∀ name, n.whereis name = none → ∀ f s, n.signal f s (.name name) = (.error .noproc, n)
  /-- A name on this node is the name. -/
  own : ∀ name f s, n.signal f s (.remote name n.name) = n.signal f s (.name name)
  /-- An identifier of this node is accepted if it is of a living process, and only then. -/
  home : ∀ p, p.isLocal = true → ∀ f s, n.signal f s (.pid p) =
    if n.isAlive p then (.ok (), n.enqueue ⟨p, f, s⟩) else (.error .noproc, n)
  /-- An identifier of a node that was never heard of is refused. -/
  unknown : ∀ p, p.isLocal = false → n.routers.nameAt? p.node.toNat = none →
    ∀ f s, n.signal f s (.pid p) = (.error .noconnection, n)
  /-- Every other identifier that is not of this node leads to another node. -/
  abroad : ∀ p node, p.isLocal = false → n.routers.nameAt? p.node.toNat = some node →
    node ≠ n.name ∧ n.LeadsTo node (.pid p)
  /-- Another node is out of reach if there is no route to it, and only then. -/
  severed : ∀ node, node ≠ n.name → ∀ target, n.LeadsTo node target → ∀ f s,
    ((n.signal f s target).1 = .error .noconnection ↔ n.routers.routesTo node = []) ∧
      (n.routers.routesTo node = [] → n.signal f s target = (.error .noconnection, n))
  /-- If there are routes, everything that leads there goes through one living router, on a
      route than which none is cheaper. -/
  carried : ∀ node, node ≠ n.name → n.routers.routesTo node ≠ [] →
    ∃ route ∈ n.routers.routesTo node, n.isAlive route.router = true ∧
      (∀ r ∈ n.routers.routesTo node, route.cost ≤ r.cost) ∧
      ∀ target, n.LeadsTo node target → ∀ f s, n.signal f s target =
        (.ok (), n.enqueue ⟨route.router, f, .relay (Routed.toTerm ⟨f, target, s⟩)⟩)
  /-- An identifier that is asked for leads to the node it is asked for. -/
  numbered : ∀ node id serial creation, node ≠ n.name →
    (n.routers.nodes.intern node).2.size ≤ UInt32.size →
      (n.remotePid node id serial creation).2.LeadsTo node
        (.pid (n.remotePid node id serial creation).1)

/-- In every state a node can reach, all ways to address a destination agree. -/
theorem Reachable.addressingLaw (h : n.Reachable) : n.AddressingLaw := by
  have hn := h.coherent
  have hzero := h.nameAt?_zero
  refine ⟨fun name p hp f s => ?_, fun name hnone => signal_of_error (resolve_free hnone),
    fun name f s => ?_, fun p hp f s => ?_, fun p hp hnone => signal_of_error ?_,
    fun p node hp hname => ?_, fun node hnode target hleads f s => ?_,
    fun node => signal_carried hn hzero,
    fun node id serial creation hnode => leadsTo_remotePid hnode id serial creation⟩
  · rcases resolve_held hn hp with ⟨-, hname, hpid⟩
    rw [signal_of_process hname, signal_of_process hpid]
    exact ⟨rfl, rfl⟩
  · have hresolve : n.resolve (.remote name n.name) = n.resolve (.name name) := if_pos rfl
    -- Within the node no envelope is needed, so the destination leaves no trace.
    rcases hw : n.whereis name with _ | p
    · rw [signal_of_error (resolve_free hw), signal_of_error (hresolve.trans (resolve_free hw))]
    · have hname := (resolve_held hn hw).2.1
      rw [signal_of_process hname, signal_of_process (hresolve.trans hname)]
  · have hr := resolve_local hn hp
    split
    next halive =>
      rw [if_pos halive] at hr
      exact signal_of_process hr f s
    next hdead =>
      rw [if_neg hdead] at hr
      exact signal_of_error hr f s
  · rw [resolve, resolvePid, hp, hnone]
    rfl
  · exact ⟨ne_name_of_nameAt? hzero hp hname, .pid (Interner.nameAt?_eq_some_iff.mp hname)⟩
  · have hnone := fun hnil => signal_severed hzero hnode hnil hleads f s
    refine ⟨⟨fun herror => ?_, fun hnil => by rw [hnone hnil]⟩, hnone⟩
    by_cases hnil : n.routers.routesTo node = []
    · exact hnil
    · -- With a route the signal would have been sent.
      rcases signal_carried hn hzero hnode hnil with ⟨route, -, -, -, hsent⟩
      rw [hsent target hleads f s] at herror
      exact absurd herror (by simp)

/-- A node with a name, and two routes to another node of which the later one is cheaper. -/
theorem addressingLaw_two_routes :
    let n := (new .standard).run [.spawn, .spawn, .register (.ofSlot 1 0 0) "printer",
      .registerRouter "east@host" 7 (.ofSlot 1 0 0) .standard,
      .registerRouter "east@host" 5 (.ofSlot 2 0 0) .standard]
    n.AddressingLaw ∧ n.whereis "printer" = some (.ofSlot 1 0 0) ∧ n.name ≠ "east@host" ∧
      n.LeadsTo "east@host" (.pid ⟨1, 9, 0, 4⟩) ∧ n.LeadsTo "east@host" (.remote "a" "east@host") ∧
      n.resolve (.pid ⟨1, 9, 0, 4⟩) = .ok (.router (.ofSlot 2 0 0)) ∧
      n.resolve (.remote "a" "west@host") = .error .noconnection :=
  ⟨Reachable.addressingLaw ⟨.standard, _, rfl⟩, by decide, by decide, .pid (by decide), .remote "a",
    rfl, rfl⟩

end Node

end Actors
