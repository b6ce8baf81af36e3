import Actors.Proofs.Node.Addressing
import Mathlib.Data.List.Perm.Subperm

/-!
# Numbers of Nodes

A node numbers the nodes it hears of, and a process of another node is known by the
number of its node. What matters is that these numbers can be handed around: a number
that was given out once means the same node in every later state, whatever happens to
the routes to that node and to the processes that carry them. Then numbers are equal
exactly if the nodes are, and so are the identifiers that are made from them.

A number has 32 bits, and the table would give the same one twice if it outgrew them.
It does not, because the name of a node is an atom, and atoms are numbers of 32 bits
themselves: there are no more names than numbers. This is the only place where it
matters what a name is made of, so runs are described by the names that occur in them,
and an invariant says that the table has no others.

## Main definitions

* `Atom.Spelled`: A name that is the text of an atom.
* `Node.numberings`, `Node.addresses`: What a run answers when it is asked for the
  number of a node, or for the name of a process of a node.
* `Node.NumberingLaw`: What can be relied on about numbers and identifiers.

## Theorems

* `Atom.spelled_of_mem`, `Atom.length_le_of_spelled`: Which names there are, and how many.
* `spelled_run`: A run numbers only nodes whose names occur in it.
* `nodeNameAt_of_numberings`, `nodeNameAt_of_addresses`: A number keeps its meaning.
* `numberingLaw`: Numbers and identifiers after every run.
-/

namespace Actors

/-! ## Names that are atoms -/

namespace Atom

/-- A name that is the text of an atom. -/
def Spelled (atoms : Interner) (name : String) : Prop :=
  ∃ a : Atom, a.isKnown atoms = true ∧ a.text atoms = name

/-- A table that has not outgrown its numbers has an atom for each of its texts. -/
theorem spelled_of_mem {atoms : Interner} (h : atoms.size ≤ UInt32.size) {name : String}
    (hname : name ∈ atoms.names) : Spelled atoms name := by
  rcases List.getElem_of_mem hname with ⟨index, hlt, hget⟩
  have hindex : index.toUInt32.toNat = index :=
    UInt32.toNat_ofNat_of_lt' (Nat.lt_of_lt_of_le hlt h)
  refine ⟨⟨index.toUInt32⟩, decide_eq_true (hindex.symm ▸ hlt), ?_⟩
  rw [text, hindex, Interner.nameAt?, List.getElem?_eq_getElem hlt, hget, Option.getD_some]

/-- There are no more names than numbers, for every name is that of an atom. -/
theorem length_le_of_spelled {atoms : Interner} {names : List String} (hnodup : names.Nodup)
    (h : ∀ name ∈ names, Spelled atoms name) : names.length ≤ UInt32.size := by
  -- Every name is the text of a number, and there are no more numbers than words.
  have hsub : names ⊆ (List.range UInt32.size).map fun i => text atoms ⟨i.toUInt32⟩ := by
    intro name hname
    rcases h name hname with ⟨⟨index⟩, -, rfl⟩
    refine List.mem_map.mpr ⟨index.toNat, List.mem_range.mpr index.toNat_lt, ?_⟩
    rw [Nat.toUInt32_eq, UInt32.ofNat_toNat]
  have hle := (List.subperm_of_subset hnodup hsub).length_le
  rwa [List.length_map, List.length_range] at hle

end Atom

namespace Node

open Atom (Spelled)
open Interner (nameAt?_of_intern eq_of_nameAt? lt_size_of_nameAt?)

variable {n m : Node} {node : String}

/-! ## What a run numbers -/

/-- A node that keeps its name and its numbers over two stretches keeps them over both. -/
theorem Steady.trans {n' n'' : Node} (h : n.Steady n') (h' : n'.Steady n'') : n.Steady n'' :=
  ⟨h'.name.trans h.name, h.nodes.trans h'.nodes⟩

/-- No run changes the name of the node or what a number means. -/
theorem steady_run (n : Node) (ops : List NodeOp) : n.Steady (n.run ops) :=
  run_induction (P := n.Steady) (fun m op h => h.trans (steady_step m op))
    ⟨rfl, .refl n.routers.nodes⟩ ops

/-- Numbers keep their meaning. -/
theorem Steady.nodeNameAt (h : n.Steady m) {index : UInt32}
    (hindex : n.nodeNameAt index = some node) : m.nodeNameAt index = some node :=
  h.nodes.nameAt? hindex

/-- Only names that an operation mentions are added to those that have a number. -/
theorem mem_names_step {op : NodeOp} {name : String}
    (h : name ∈ (n.step op).routers.nodes.names) :
    name ∈ n.routers.nodes.names ∨ name ∈ op.nodeNames := by
  rcases numbers_step n op with hsame | ⟨node, hnode, hnumbers⟩
  · rw [hsame.nodes] at h
    exact Or.inl h
  · -- One name was asked for. It had a number, or it got one just now.
    rw [hnumbers.nodes, Interner.names_intern] at h
    split at h
    next => exact Or.inl h
    next =>
      rcases List.mem_append.mp h with hold | hnew
      · exact Or.inl hold
      · rw [List.mem_singleton] at hnew
        exact Or.inr (hnew ▸ hnode)

/-- A run numbers only nodes whose names occur in it. -/
theorem spelled_run {atoms : Interner} {ops : List NodeOp}
    (hn : ∀ name ∈ n.routers.nodes.names, Spelled atoms name)
    (hops : ∀ op ∈ ops, ∀ name ∈ op.nodeNames, Spelled atoms name) :
    ∀ name ∈ (n.run ops).routers.nodes.names, Spelled atoms name := by
  induction ops generalizing n with
  | nil => exact hn
  | cons op rest ih =>
      refine ih (fun name hname => ?_) fun op' hop' => hops op' (List.mem_cons_of_mem op hop')
      rcases mem_names_step hname with hold | hnew
      · exact hn name hold
      · exact hops op List.mem_cons_self name hnew

/-! ## What a run answers -/

/-- What the name of a process of a node is made from. -/
structure Address where
  /-- The name of the node. -/
  node : String
  /-- The slot of the process. -/
  id : UInt32
  /-- The generation of the slot. -/
  serial : UInt32
  /-- The incarnation of the node. -/
  creation : UInt32
deriving DecidableEq

/-- The number that an operation gives for a node. -/
def numberings (n : Node) : NodeOp → List (String × UInt32)
  | .nodeIndex node => [(node, (n.nodeIndex node).1)]
  | _ => []

/-- The identifier that an operation makes from its parts. -/
def addresses (n : Node) : NodeOp → List (Address × Pid)
  | .remotePid node id serial creation =>
      [(⟨node, id, serial, creation⟩, (n.remotePid node id serial creation).1)]
  | _ => []

/-- As long as there are numbers, the number that is given for a node means that node. -/
theorem nodeNameAt_nodeIndex (h : (n.nodeIndex node).2.routers.nodes.size ≤ UInt32.size) :
    (n.nodeIndex node).2.nodeNameAt (n.nodeIndex node).1 = some node := by
  have hname := nameAt?_of_intern n.routers.nodes node
  -- The position fits into a word, so nothing is cut off.
  have hindex : (n.routers.nodes.intern node).1.toUInt32.toNat =
      (n.routers.nodes.intern node).1 :=
    UInt32.toNat_ofNat_of_lt' (Nat.lt_of_lt_of_le (lt_size_of_nameAt? hname) h)
  change (n.routers.nodes.intern node).2.nameAt? (n.routers.nodes.intern node).1.toUInt32.toNat = _
  rwa [hindex]

/-- An identifier carries the number of its node, and its other parts as they were given. -/
theorem remotePid_parts (hzero : n.nodeNameAt localNode = some n.name) {a : Address}
    (h : (n.remotePid a.node a.id a.serial a.creation).2.routers.nodes.size ≤ UInt32.size) :
    ∃ index, (n.remotePid a.node a.id a.serial a.creation).1 =
        ⟨index, a.id, a.serial, a.creation⟩ ∧
      (n.remotePid a.node a.id a.serial a.creation).2.nodeNameAt index = some a.node := by
  rw [remotePid] at h ⊢
  split at h
  next hown =>
    -- The node's own name has number zero.
    rw [if_pos hown, hown]
    exact ⟨localNode, rfl, hzero⟩
  next hother =>
    rw [if_neg hother]
    exact ⟨(n.nodeIndex a.node).1, rfl, nodeNameAt_nodeIndex h⟩

variable {start : Node} {ops : List NodeOp}

/-- A number that was given for a node means that node from then on. -/
theorem nodeNameAt_of_numberings (h : (start.run ops).routers.nodes.size ≤ UInt32.size)
    {index : UInt32} (hx : (node, index) ∈ start.collect numberings ops) :
    (start.run ops).nodeNameAt index = some node := by
  -- The number was given at some moment. There it means the node, and it does so from then on.
  rcases mem_collect hx with ⟨before, op, after, rfl, hop⟩
  rw [run_append, run_cons] at h ⊢
  have hlater := steady_run ((start.run before).step op) after
  refine hlater.nodeNameAt ?_
  cases op with
  | nodeIndex node' =>
      rw [numberings, List.mem_singleton, Prod.mk.injEq] at hop
      rw [hop.1, hop.2]
      exact nodeNameAt_nodeIndex (Nat.le_trans hlater.nodes.size h)
  | _ => exact absurd hop List.not_mem_nil

/-- An identifier is made of the parts it was asked for with, and its number means its node
    from then on. -/
theorem nodeNameAt_of_addresses (hzero : start.nodeNameAt localNode = some start.name)
    (h : (start.run ops).routers.nodes.size ≤ UInt32.size) {a : Address} {p : Pid}
    (hx : (a, p) ∈ start.collect addresses ops) :
    (start.run ops).nodeNameAt p.node = some a.node ∧
      p = ⟨p.node, a.id, a.serial, a.creation⟩ := by
  rcases mem_collect hx with ⟨before, op, after, rfl, hop⟩
  rw [run_append, run_cons] at h ⊢
  have hbefore := steady_run start before
  have hlater := steady_run ((start.run before).step op) after
  cases op with
  | remotePid node id serial creation =>
      rw [addresses, List.mem_singleton, Prod.mk.injEq] at hop
      -- At the moment in question number zero still means the node itself.
      have hzero' := hbefore.nodeNameAt hzero
      rw [← hbefore.name] at hzero'
      rcases remotePid_parts (a := a) hzero' (by
        rw [hop.1]
        exact Nat.le_trans hlater.nodes.size h) with ⟨index, hp, hname⟩
      rw [hop.1] at hp hname
      rw [hop.2, hp, hop.1]
      exact ⟨hlater.nodeNameAt hname, rfl⟩
  | _ => exact absurd hop List.not_mem_nil

/-! ## The law of numbers -/

/-- What can be relied on about the numbers and identifiers that a run gives. -/
structure NumberingLaw (start : Node) (ops : List NodeOp) : Prop where
  /-- Number zero is the node itself. -/
  zero : (start.run ops).nodeNameAt localNode = some start.name
  /-- The node itself has no other number. -/
  own : ∀ index, (start.name, index) ∈ start.collect numberings ops → index = localNode
  /-- A number stands for the node it was given for, however long ago that was. -/
  stands : ∀ node index, (node, index) ∈ start.collect numberings ops →
    (start.run ops).nodeNameAt index = some node
  /-- Two numbers are the same exactly if they were given for the same node. -/
  eq_iff : ∀ node index node' index', (node, index) ∈ start.collect numberings ops →
    (node', index') ∈ start.collect numberings ops → (index = index' ↔ node = node')
  /-- A number that meant a node at some time means it in every later state. -/
  steady : ∀ before after, ops = before ++ after → ∀ index node,
    (start.run before).nodeNameAt index = some node →
      (start.run ops).nodeNameAt index = some node
  /-- An identifier is one of this node exactly if it was asked for under the name of this
      node. -/
  home : ∀ a p, (a, p) ∈ start.collect addresses ops →
    (p.isLocal = true ↔ a.node = start.name)
  /-- Two identifiers are the same exactly if they were made from the same parts. -/
  same_iff : ∀ a p a' p', (a, p) ∈ start.collect addresses ops →
    (a', p') ∈ start.collect addresses ops → (p = p' ↔ a = a')
  /-- The number in an identifier stands for its node, however long ago it was made. -/
  leads : ∀ a p, (a, p) ∈ start.collect addresses ops →
    (start.run ops).nodeNameAt p.node = some a.node

/-- Numbers and identifiers can be handed around, in every run of a new node whose node
    names are atoms. -/
theorem numberingLaw (config : NodeConfig) (ops : List NodeOp) (atoms : Interner)
    (hname : Spelled atoms config.name)
    (hops : ∀ op ∈ ops, ∀ name ∈ op.nodeNames, Spelled atoms name) :
    (new config).NumberingLaw ops := by
  have hspelled : ∀ name ∈ ((new config).run ops).routers.nodes.names, Spelled atoms name :=
    spelled_run (fun name h => List.mem_singleton.mp h ▸ hname) hops
  -- There are enough numbers, since every numbered node has an atom for a name.
  have hsize : ((new config).run ops).routers.nodes.size ≤ UInt32.size :=
    Atom.length_le_of_spelled ((new config).run ops).routers.nodes.nodup hspelled
  have hstart : (new config).nodeNameAt localNode = some (new config).name := rfl
  have hzero := (steady_run (new config) ops).nodeNameAt hstart
  -- The numbers of two nodes are equal if the nodes are: a table has no name twice, and a number
  -- has one name.
  have hnumber : ∀ node index node' index',
      ((new config).run ops).nodeNameAt index = some node →
      ((new config).run ops).nodeNameAt index' = some node' → (index = index' ↔ node = node') := by
    intro node index node' index' h h'
    constructor
    · rintro rfl
      exact Option.some.inj (h.symm.trans h')
    · rintro rfl
      exact UInt32.toNat_inj.mp (eq_of_nameAt? h h')
  have hstands : ∀ node index, (node, index) ∈ (new config).collect numberings ops →
      ((new config).run ops).nodeNameAt index = some node :=
    fun node index hx => nodeNameAt_of_numberings hsize hx
  have hleads : ∀ a p, (a, p) ∈ (new config).collect addresses ops →
      ((new config).run ops).nodeNameAt p.node = some a.node ∧
        p = ⟨p.node, a.id, a.serial, a.creation⟩ :=
    fun a p hx => nodeNameAt_of_addresses hstart hsize hx
  refine ⟨hzero, fun index hx => ?_, hstands, fun node index node' index' hx hx' => ?_, ?_,
    fun a p hx => ?_, fun a p a' p' hx hx' => ?_, fun a p hx => (hleads a p hx).1⟩
  · exact (hnumber _ _ _ _ (hstands _ _ hx) hzero).mpr rfl
  · exact hnumber _ _ _ _ (hstands _ _ hx) (hstands _ _ hx')
  · rintro before after rfl index node h
    rw [run_append]
    exact (steady_run ((new config).run before) after).nodeNameAt h
  · rw [Pid.isLocal, beq_iff_eq]
    exact hnumber _ _ _ _ (hleads a p hx).1 hzero
  · rcases hleads a p hx with ⟨hnode, hp⟩
    rcases hleads a' p' hx' with ⟨hnode', hp'⟩
    have hiff := hnumber _ _ _ _ hnode hnode'
    constructor
    · -- Equal identifiers have equal parts, and the number among them means one node.
      intro heq
      rcases a with ⟨node, id, serial, creation⟩
      rcases a' with ⟨node', id', serial', creation'⟩
      rw [heq] at hp hiff
      rw [hp', Pid.mk.injEq] at hp
      rw [Address.mk.injEq]
      exact ⟨hiff.mp rfl, hp.2.1.symm, hp.2.2.1.symm, hp.2.2.2.symm⟩
    · rintro rfl
      rw [hp, hp', hiff.mpr rfl]

/-- A node that lost its route to another node and then asks for that node again. -/
theorem numberingLaw_rerouted :
    let atoms : Interner := .ofNames ["nonode@nohost", "east@host", "west@host"] (by decide)
    let ops := [.nodeIndex "west@host", .spawn,
      .registerRouter "east@host" 5 (.ofSlot 1 0 0) .standard, .remotePid "east@host" 7 0 3,
      .die (.ofSlot 1 0 0) Reason.normal, .remotePid "east@host" 7 0 3,
      .remotePid "nonode@nohost" 7 0 3, .nodeIndex "east@host"]
    Spelled atoms NodeConfig.standard.name ∧
      (∀ op ∈ ops, ∀ name ∈ op.nodeNames, Spelled atoms name) ∧
      (new .standard).NumberingLaw ops ∧
      (new .standard).collect numberings ops = [("west@host", 1), ("east@host", 2)] ∧
      (new .standard).collect addresses ops = [(⟨"east@host", 7, 0, 3⟩, ⟨2, 7, 0, 3⟩),
        (⟨"east@host", 7, 0, 3⟩, ⟨2, 7, 0, 3⟩), (⟨"nonode@nohost", 7, 0, 3⟩, ⟨0, 7, 0, 3⟩)] := by
  intro atoms ops
  have hatoms : atoms.size ≤ UInt32.size := by decide
  have hname : Spelled atoms NodeConfig.standard.name :=
    Atom.spelled_of_mem hatoms (by decide)
  have hmem : ∀ op ∈ ops, ∀ name ∈ op.nodeNames, name ∈ atoms.names := by decide
  have hops : ∀ op ∈ ops, ∀ name ∈ op.nodeNames, Spelled atoms name :=
    fun op hop name hn => Atom.spelled_of_mem hatoms (hmem op hop name hn)
  exact ⟨hname, hops, numberingLaw .standard ops atoms hname hops, by decide, by decide⟩

end Node

end Actors
