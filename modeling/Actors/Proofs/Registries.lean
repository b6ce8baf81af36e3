import Actors.NameRegistry
import Actors.Proofs.Dict
import Actors.RouterTable

/-!
# Names and Routes After a Change

What a change of the two registries of a node does to their entries: who holds
a name, and which routes lead to a node.

## Theorems

* `whereis_register`, `whereis_unregister`, `whereis_unregisterAll`: The holder
  of a name.
* `unregister_of_register`: A claim that is taken back leaves no trace.
* `pairwise_registered`, `nodup_registered`, `mem_registered`: The held names,
  each once and in order.
* `registered_unregisterAll`: The list when all names of a process are given up.
* `routesTo_register`, `routesTo_unregister`, `routesTo_intern`: The routes to a
  node.
* `mem_upsert`, `filter_upsert_of_ne`: Where the routes come from when one is added.
* `cheapest_eq_none_iff`, `cheapest_least`: Which of some routes is used.
-/

namespace Actors

/-! ## The order of names -/

namespace Text

/-- Texts are compared byte by byte, which is an order. -/
theorem le_trans (s t u : String) (hst : le s t = true) (htu : le t u = true) : le s u = true :=
  Std.TransOrd.isLE_trans hst htu

/-- Two texts with the same bytes are one text. -/
theorem le_antisymm {s t : String} (hst : le s t = true) (hts : le t s = true) : s = t := by
  have heq : compare (bytes s) (bytes t) = .eq := Std.OrientedCmp.isLE_antisymm hst hts
  exact order_eq_iff.mp heq

/-- Any two texts can be compared. -/
theorem le_total (s t : String) : (le s t || le t s) = true := by
  rw [Bool.or_eq_true, le, le, order, order, Std.OrientedOrd.eq_swap (a := bytes t)]
  cases compare (bytes s) (bytes t) <;> simp

end Text

/-! ## Names -/

namespace NameRegistry

/-- A name that is claimed is found, and the others are held as before. -/
theorem whereis_register {r r' : NameRegistry} {name : String} {p : Pid}
    (h : r.register name p = (true, r')) (name' : String) :
    r'.whereis name' = if name' = name then some p else r.whereis name' := by
  rw [register] at h
  split at h
  next => exact absurd h (by simp)
  next =>
    rw [Prod.mk.injEq] at h
    rw [← h.2]
    exact Dict.get?_insert r.holders name name' p

/-- A name is given up only by whoever holds it. -/
theorem whereis_unregister (r : NameRegistry) (name name' : String) (p : Pid) :
    (r.unregister name p).2.whereis name' =
      if name' = name ∧ r.whereis name = some p then none else r.whereis name' := by
  rw [unregister]
  split
  next h =>
    simp only [h, and_true]
    exact Dict.get?_erase r.holders name name'
  next h => rw [if_neg fun hn => h hn.2]

/-- A claim that is taken back leaves no trace. -/
theorem unregister_of_register {r r' : NameRegistry} {name : String} {p : Pid}
    (h : r.register name p = (true, r')) : (r'.unregister name p).2 = r := by
  have hview := whereis_register h name
  rw [if_pos rfl] at hview
  rw [register] at h
  split at h
  next => exact absurd h (by simp)
  next hfree =>
    rw [Prod.mk.injEq] at h
    rw [unregister, if_pos hview, ← h.2]
    exact congrArg mk (Dict.erase_insert hfree p)

/-- When a process gives up its names, the names of the others are held as before. -/
theorem whereis_unregisterAll (r : NameRegistry) (p : Pid) (name : String) :
    (r.unregisterAll p).whereis name = (r.whereis name).filter fun holder => holder ≠ p :=
  Dict.get?_filter r.holders _ name

/-- The names are listed in order. -/
theorem pairwise_registered (r : NameRegistry) : r.registered.Pairwise (Text.le · ·) :=
  List.pairwise_mergeSort Text.le_trans Text.le_total r.holders.keys

/-- No name is listed twice. -/
theorem nodup_registered (r : NameRegistry) : r.registered.Nodup :=
  (List.mergeSort_perm r.holders.keys Text.le).nodup_iff.mpr r.holders.nodup

/-- The listed names are those that are held. -/
theorem mem_registered {r : NameRegistry} {name : String} :
    name ∈ r.registered ↔ (r.whereis name).isSome :=
  (List.mergeSort_perm r.holders.keys Text.le).mem_iff.trans Dict.mem_keys_iff

/-- Only the names of the process are gone from the list. -/
theorem registered_unregisterAll (r : NameRegistry) (p : Pid) :
    (r.unregisterAll p).registered = r.registered.filter fun name => r.whereis name ≠ some p := by
  have hmem : ∀ name, name ∈ (r.unregisterAll p).registered ↔
      name ∈ r.registered.filter fun name => r.whereis name ≠ some p := by
    intro name
    rw [List.mem_filter, mem_registered, mem_registered, whereis_unregisterAll]
    rcases r.whereis name with _ | holder
    · simp
    · by_cases hp : holder = p <;> simp [hp]
  -- Both lists are sorted, so having the same entries they are equal.
  have hperm := (List.perm_ext_iff_of_nodup (nodup_registered _)
    ((nodup_registered r).filter _)).mpr hmem
  exact hperm.eq_of_pairwise (fun _ _ _ _ => Text.le_antisymm) (pairwise_registered _)
    ((pairwise_registered r).filter _)

end NameRegistry

/-! ## Routes -/

namespace RouterTable

/-- A route that is entered comes to the others, or takes the place of the one through the same
    router. -/
theorem mem_upsert {route r : Route} {routes : List Route} (h : r ∈ upsert route routes) :
    r = route ∨ r ∈ routes := by
  induction routes with
  | nil =>
      rw [upsert, List.mem_singleton] at h
      exact Or.inl h
  | cons r' rest ih =>
      rw [upsert] at h
      split at h
      · rw [List.mem_cons] at h
        rcases h with h | h
        · exact Or.inl h
        · exact Or.inr (List.mem_cons_of_mem r' h)
      · rw [List.mem_cons] at h
        rcases h with rfl | h
        · exact Or.inr List.mem_cons_self
        · rcases ih h with heq | hmem
          · exact Or.inl heq
          · exact Or.inr (List.mem_cons_of_mem r' hmem)

/-- A route through one router is entered among the routes through others. -/
theorem filter_upsert_of_ne {route : Route} {router : Pid} (hne : route.router ≠ router)
    (routes : List Route) : ((upsert route routes).filter fun r => r.router = router) =
      routes.filter fun r => r.router = router := by
  induction routes with
  | nil => simp [upsert, hne]
  | cons r rest ih =>
      rw [upsert]
      split
      next heq => simp [hne, heq]
      next => rw [List.filter_cons, List.filter_cons, ih]

/-- To give a router a number enters no route. -/
@[simp] theorem routesTo_intern (t : RouterTable) (name node : String) :
    (t.intern name).2.routesTo node = t.routesTo node := rfl

/-- The routes to other nodes stay what they were. -/
theorem routesTo_register (t : RouterTable) (node node' : String) (route : Route) :
    (t.register node route).routesTo node' =
      if node' = node then upsert route (t.routesTo node) else t.routesTo node' := by
  change (((t.intern node).2.routes.insert node
    (upsert route ((t.intern node).2.routesTo node))).get? node').getD [] = _
  rw [Dict.get?_insert, routesTo_intern]
  split
  · rfl
  · rfl

/-- Looking a key up after all values have changed. -/
theorem lookup_mapValues {κ α β : Type} [DecidableEq κ] (entries : List (κ × α)) (f : α → β)
    (k : κ) : (entries.map fun e => (e.1, f e.2)).lookup k = (entries.lookup k).map f := by
  induction entries with
  | nil => rfl
  | cons e rest ih =>
      rw [List.map_cons, List.lookup_cons, List.lookup_cons]
      by_cases h : k = e.1
      · rw [h, beq_self_eq_true]
        rfl
      · rw [beq_eq_false_iff_ne.mpr h]
        exact ih

/-- A router that leaves takes its routes along, to whatever node they lead. -/
theorem routesTo_unregister (t : RouterTable) (router : Pid) (node : String) :
    (t.unregister router).routesTo node =
      (t.routesTo node).filter fun r => r.router ≠ router := by
  rw [routesTo, routesTo, unregister]
  dsimp only
  rw [Dict.get?_filter]
  simp only [Dict.get?]
  -- First every node loses the routes, then the nodes without any are dropped; looked up node by
  -- node that is one filter.
  rw [lookup_mapValues]
  rcases t.routes.entries.lookup node with _ | routes
  · rfl
  · rw [Option.map_some, Option.filter_some, Option.getD_some]
    generalize (routes.filter fun r => r.router ≠ router) = kept
    cases kept <;> rfl

/-- A route is used as soon as there is one. -/
theorem cheapest_eq_none_iff {routes : List Route} : cheapest routes = none ↔ routes = [] := by
  cases routes with
  | nil => exact iff_of_true rfl rfl
  | cons r rest =>
      refine iff_of_false (fun h => ?_) (List.cons_ne_nil r rest)
      rw [cheapest] at h
      split at h
      next => exact absurd h (by simp)
      next => split at h <;> exact absurd h (by simp)

/-- The route that is used is one of the routes, and none of them costs less. -/
theorem cheapest_least {routes : List Route} {best : Route} (h : cheapest routes = some best) :
    best ∈ routes ∧ ∀ r ∈ routes, best.cost ≤ r.cost := by
  induction routes generalizing best with
  | nil => exact absurd h (by simp [cheapest])
  | cons r rest ih =>
      rw [cheapest] at h
      split at h
      next hrest =>
        rw [Option.some.injEq] at h
        rw [cheapest_eq_none_iff.mp hrest, ← h]
        simp
      next b hrest =>
        rcases ih hrest with ⟨hmem, hle⟩
        -- The head is compared with the cheapest of the others.
        split at h
        next hcost =>
          rw [Option.some.injEq] at h
          rw [← h]
          refine ⟨List.mem_cons_self, fun r' hr' => ?_⟩
          rcases List.mem_cons.mp hr' with rfl | hr'
          · exact UInt32.le_refl r'.cost
          · exact UInt32.le_trans hcost (hle r' hr')
        next hcost =>
          rw [Option.some.injEq] at h
          rw [← h]
          refine ⟨List.mem_cons_of_mem r hmem, fun r' hr' => ?_⟩
          rcases List.mem_cons.mp hr' with rfl | hr'
          · exact UInt32.le_of_lt (UInt32.not_le.mp hcost)
          · exact hle r' hr'

end RouterTable

end Actors
