import Actors.Proofs.Registries
import Mathlib.Data.List.Induction

/-!
# Routes by Seniority

The routes of a table against its history. What a history says about a router
needs no table: the router stands for a node if it was registered for it and not
removed since, at the cost and with the options of its last registration, and it
has the seniority of the first registration after its last removal. The table
keeps the routes to a node in the order of their seniority and changes them in
place, so it agrees with its history at every moment.

The cheapest route is looked for from the end of a list to its head, and a route
further ahead replaces one at the same cost. Hence ties go to the senior route.

## Main definitions

* `RouterTable.Request`, `RouterTable.replay`: What is asked of a table, and its history.
* `RouterTable.claims`: The registrations of a router since its last removal.
* `RouterTable.standing?`: What the history says about a router.
* `RouterTable.Agrees`: A table keeps what its history says, by seniority.
* `RouterTable.RouteLaw`: What can be relied on about the routes of a table.

## Theorems

* `standing?_register`, `standing?_unregister`: What one request does to a standing.
* `agrees_apply`, `agrees_replay`: A table agrees with its history.
* `cheapest_senior`: The cheapest of some routes, ties going to the first.
* `routeLaw`: Routes after every history.
-/

namespace Actors

namespace RouterTable

/-! ## Histories -/

/-- What can be asked of a table. -/
inductive Request where
  /-- A route is added, or changed. -/
  | register (node : String) (route : Route)
  /-- Every route of a router is removed. -/
  | unregister (router : Pid)
  /-- A node is given a number. -/
  | intern (node : String)
  /-- The number of a node is looked up. -/
  | indexOf (node : String)
deriving DecidableEq

/-- The table after a request. -/
def apply (t : RouterTable) : Request → RouterTable
  | .register node route => t.register node route
  | .unregister router => t.unregister router
  | .intern node => (t.intern node).2
  | .indexOf _ => t

/-- The table after some requests. -/
def replay (t : RouterTable) (history : List Request) : RouterTable := history.foldl apply t

/-- The registration of a router for a node that a request makes at some time. -/
def claim? (node : String) (router : Pid) : Request × Nat → Option (Nat × Route)
  | (.register node' route, time) =>
      if node' = node ∧ route.router = router then some (time, route) else none
  | _ => none

/-- The registrations of a router for a node since the router was last removed, with the
    times at which they were made. -/
def claims (history : List Request) (node : String) (router : Pid) : List (Nat × Route) :=
  (history.zipIdx.reverse.takeWhile fun e => e.1 ≠ .unregister router).reverse.filterMap
    (claim? node router)

/-- What a history says about a router that stands for a node. -/
structure Standing where
  /-- When it was registered for the first time after it was last removed. -/
  since : Nat
  /-- Its cost and options, by its last registration. -/
  route : Route

/-- What some registrations of a router come to. -/
def Standing.ofClaims? (claims : List (Nat × Route)) : Option Standing :=
  match claims.head?, claims.getLast? with
  | some first, some last => some ⟨first.1, last.2⟩
  | _, _ => none

/-- What a history says about a router and a node, if the router stands for the node. -/
def standing? (history : List Request) (node : String) (router : Pid) : Option Standing :=
  Standing.ofClaims? (claims history node router)

/-- One more registration makes the route new and leaves the seniority alone, if there was any. -/
theorem Standing.ofClaims?_concat (claims : List (Nat × Route)) (claim : Nat × Route) :
    ofClaims? (claims ++ [claim]) =
      some ⟨((ofClaims? claims).map since).getD claim.1, claim.2⟩ := by
  rw [ofClaims?, List.getLast?_concat]
  rcases claims with _ | ⟨first, rest⟩
  · rfl
  · rw [ofClaims?, List.getLast?_cons]
    rfl

/-- A request adds its registration to those of the router, unless it is the one that removes the
    router, and then none is left. -/
theorem claims_concat (history : List Request) (request : Request) (node : String) (router : Pid) :
    claims (history ++ [request]) node router =
      if request = .unregister router then []
      else claims history node router ++ (claim? node router (request, history.length)).toList := by
  rw [claims, List.zipIdx_append, List.reverse_append, List.zipIdx_singleton,
    List.reverse_singleton, List.singleton_append, List.takeWhile_cons, Nat.zero_add]
  by_cases h : request = .unregister router
  · rw [if_pos h, if_neg (by simp [h])]
    rfl
  · rw [if_neg h, if_pos (by simp [h]), List.reverse_cons, List.filterMap_append, claims]
    rcases hc : claim? node router (request, history.length) with _ | c <;>
      simp only [List.filterMap_cons, hc, List.filterMap_nil, Option.toList]

/-- A registration keeps the seniority of a router that stands, and is the first of one that
    does not. -/
theorem standing?_register (history : List Request) (node node' : String) (route : Route)
    (router : Pid) :
    standing? (history ++ [.register node' route]) node router =
      if node' = node ∧ route.router = router then
        some ⟨((standing? history node router).map Standing.since).getD history.length, route⟩
      else standing? history node router := by
  rw [standing?, claims_concat, if_neg (by simp), claim?]
  split
  next => exact Standing.ofClaims?_concat _ (history.length, route)
  next => rw [Option.toList_none, List.append_nil, standing?]

/-- A router that is removed does not stand for any node. -/
theorem standing?_unregister (history : List Request) (node : String) (router router' : Pid) :
    standing? (history ++ [.unregister router']) node router =
      if router' = router then none else standing? history node router := by
  rw [standing?, claims_concat]
  by_cases h : router' = router
  · rw [if_pos h, if_pos (congrArg _ h)]
    rfl
  · rw [if_neg h, if_neg (by simp [h]), standing?]
    exact congrArg _ (List.append_nil _)

/-- Giving a router a number is no registration. -/
theorem standing?_intern (history : List Request) (node node' : String) (router : Pid) :
    standing? (history ++ [.intern node']) node router = standing? history node router := by
  rw [standing?, claims_concat, if_neg (by simp), standing?]
  exact congrArg _ (List.append_nil _)

/-- Nor is asking for it. -/
theorem standing?_indexOf (history : List Request) (node node' : String) (router : Pid) :
    standing? (history ++ [.indexOf node']) node router = standing? history node router := by
  rw [standing?, claims_concat, if_neg (by simp), standing?]
  exact congrArg _ (List.append_nil _)

/-- A standing began before the end of the history, and its route is one of the router. -/
theorem standing?_bounds {history : List Request} {node : String} {router : Pid} {s : Standing}
    (h : standing? history node router = some s) :
    s.since < history.length ∧ s.route.router = router := by
  -- A request is judged by those before it, so the induction adds requests at the end.
  induction history using List.reverseRecOn generalizing s with
  | nil => exact absurd h (by simp [standing?, claims, Standing.ofClaims?])
  | append_singleton history request ih =>
      rw [List.length_append, List.length_singleton]
      have hold : standing? history node router = some s →
          s.since < history.length + 1 ∧ s.route.router = router :=
        fun h' => ⟨Nat.lt_succ_of_lt (ih h').1, (ih h').2⟩
      cases request with
      | register node' route =>
          rw [standing?_register] at h
          split at h
          next heq =>
            rw [Option.some.injEq] at h
            subst h
            refine ⟨?_, heq.2⟩
            rcases hs : standing? history node router with _ | s₀
            · exact Nat.lt_succ_self history.length
            · exact Nat.lt_succ_of_lt (ih hs).1
          next => exact hold h
      | unregister router' =>
          rw [standing?_unregister] at h
          split at h
          next => exact absurd h (by simp)
          next => exact hold h
      | intern node' => exact hold (standing?_intern history node node' router ▸ h)
      | indexOf node' => exact hold (standing?_indexOf history node node' router ▸ h)

/-! ## A route added in place or at the end -/

/-- The route of a router that does not serve yet comes last. -/
theorem upsert_eq_append {route : Route} {routes : List Route}
    (h : ∀ r ∈ routes, r.router ≠ route.router) : upsert route routes = routes ++ [route] := by
  induction routes with
  | nil => rfl
  | cons r rest ih =>
      rw [upsert, if_neg (h r List.mem_cons_self),
        ih fun r' hr' => h r' (List.mem_cons_of_mem r hr')]
      rfl

/-- The route of a router that serves already is changed where it stands. -/
theorem upsert_eq_map {route : Route} {routes : List Route}
    (hnodup : (routes.map Route.router).Nodup) (h : ∃ r ∈ routes, r.router = route.router) :
    upsert route routes = routes.map fun r => if r.router = route.router then route else r := by
  induction routes with
  | nil => exact absurd h (by simp)
  | cons r rest ih =>
      rw [List.map_cons, List.nodup_cons] at hnodup
      rw [upsert, List.map_cons]
      by_cases hr : r.router = route.router
      · rw [if_pos hr, if_pos hr]
        -- No other route is one of this router.
        refine congrArg _ ((List.map_congr_left fun r' hr' => ?_).trans (List.map_id rest)).symm
        refine if_neg fun heq => hnodup.1 ?_
        rw [hr, ← heq]
        exact List.mem_map_of_mem hr'
      · rw [if_neg hr, if_neg hr, ih hnodup.2]
        rcases h with ⟨r', hr', heq⟩
        rcases List.mem_cons.mp hr' with rfl | hmem
        · exact absurd heq hr
        · exact ⟨r', hmem, heq⟩

/-- A route is entered in place of the one through the same router, and the others stay. -/
theorem mem_upsert_iff {route r : Route} {routes : List Route}
    (hnodup : (routes.map Route.router).Nodup) :
    r ∈ upsert route routes ↔ r = route ∨ r ∈ routes ∧ r.router ≠ route.router := by
  by_cases h : ∃ r ∈ routes, r.router = route.router
  · rw [upsert_eq_map hnodup h, List.mem_map]
    constructor
    · rintro ⟨r', hr', rfl⟩
      split
      next => exact Or.inl rfl
      next hne => exact Or.inr ⟨hr', hne⟩
    · rintro (rfl | ⟨hr, hne⟩)
      · rcases h with ⟨r', hr', heq⟩
        exact ⟨r', hr', if_pos heq⟩
      · exact ⟨r, hr, if_neg hne⟩
  · have hnone : ∀ r ∈ routes, r.router ≠ route.router := fun r hr heq => h ⟨r, hr, heq⟩
    rw [upsert_eq_append hnone, List.mem_append, List.mem_singleton, or_comm]
    exact or_congr_right ⟨fun hr => ⟨hr, hnone r hr⟩, And.left⟩

/-- If the router serves already the order of the routers is what it was. -/
theorem map_router_upsert {route : Route} {routes : List Route}
    (hnodup : (routes.map Route.router).Nodup) (h : ∃ r ∈ routes, r.router = route.router) :
    (upsert route routes).map Route.router = routes.map Route.router := by
  rw [upsert_eq_map hnodup h, List.map_map]
  refine List.map_congr_left fun r _ => ?_
  rw [Function.comp_apply]
  split
  next heq => exact heq.symm
  next => rfl

/-! ## A table agrees with its history -/

/-- Whether one router is senior to another at a node, by a history. -/
def Senior (history : List Request) (node : String) (p q : Pid) : Prop :=
  ∃ s s', standing? history node p = some s ∧ standing? history node q = some s' ∧
    s.since < s'.since

/-- A table keeps the routes that stand by its history, the senior ones first. -/
structure Agrees (t : RouterTable) (history : List Request) : Prop where
  /-- The routes to a node are those that stand. -/
  stands : ∀ node r, r ∈ t.routesTo node ↔
    ∃ s, standing? history node r.router = some s ∧ s.route = r
  /-- Each is senior to those behind it. -/
  ordered : ∀ node, ((t.routesTo node).map Route.router).Pairwise (Senior history node)

/-- Nobody is senior to himself. -/
theorem Senior.ne {history : List Request} {node : String} {p q : Pid}
    (h : Senior history node p q) : p ≠ q := by
  rintro rfl
  rcases h with ⟨s, s', hs, hs', hlt⟩
  rw [hs, Option.some.injEq] at hs'
  exact absurd hlt (hs' ▸ Nat.lt_irrefl _)

namespace Agrees

variable {t : RouterTable} {history : List Request}

/-- A router has at most one route to a node. -/
theorem nodup (h : t.Agrees history) (node : String) :
    ((t.routesTo node).map Route.router).Nodup := (h.ordered node).imp Senior.ne

/-- The route of a router that stands is in the table. -/
theorem route_mem (h : t.Agrees history) {node : String} {router : Pid} {s : Standing}
    (hs : standing? history node router = some s) :
    s.route ∈ t.routesTo node ∧ s.route.router = router := by
  have hrouter := (standing?_bounds hs).2
  exact ⟨(h.stands node s.route).mpr ⟨s, by rwa [hrouter], rfl⟩, hrouter⟩

end Agrees

/-- A new table has no routes, and nobody stands for anything. -/
theorem agrees_new (localName : String) : (new localName).Agrees [] := by
  refine ⟨fun node r => ?_, fun node => List.Pairwise.nil⟩
  refine iff_of_false List.not_mem_nil ?_
  rintro ⟨s, hs, -⟩
  exact absurd hs (by simp [standing?, claims, Standing.ofClaims?])

variable {t : RouterTable} {history : List Request}

/-- A registration leaves the seniority of those that stand as it is. -/
theorem Senior.register {node : String} {p q : Pid} (h : Senior history node p q)
    (node' : String) (route : Route) :
    Senior (history ++ [.register node' route]) node p q := by
  rcases h with ⟨s, s', hs, hs', hlt⟩
  -- Whoever stands goes on standing since the same time, also if the registration is his own.
  have hkeep {r : Pid} {s₀ : Standing} (h₀ : standing? history node r = some s₀) :
      ∃ s₁, standing? (history ++ [.register node' route]) node r = some s₁ ∧
        s₁.since = s₀.since := by
    rw [standing?_register, h₀]
    split
    · exact ⟨_, rfl, rfl⟩
    · exact ⟨s₀, rfl, rfl⟩
  rcases hkeep hs with ⟨s₁, hs₁, heq⟩
  rcases hkeep hs' with ⟨s₁', hs₁', heq'⟩
  exact ⟨s₁, s₁', hs₁, hs₁', by rwa [heq, heq']⟩

/-- A registration enters the route where the history puts it. -/
theorem agrees_register (h : t.Agrees history) (node : String) (route : Route) :
    (t.register node route).Agrees (history ++ [.register node route]) := by
  refine ⟨fun node' r => ?_, fun node' => ?_⟩ <;> rw [routesTo_register]
  · rw [standing?_register]
    by_cases hnode : node' = node
    · -- For this node, a route of the router is now the new one, and a route of another router is
      -- what it was.
      rw [if_pos hnode, hnode, mem_upsert_iff (h.nodup node), h.stands]
      by_cases hr : route.router = r.router
      · rw [if_pos ⟨rfl, hr⟩]
        constructor
        · rintro (rfl | ⟨-, hne⟩)
          · exact ⟨_, rfl, rfl⟩
          · exact absurd hr.symm hne
        · rintro ⟨s, hs, rfl⟩
          rw [Option.some.injEq] at hs
          exact Or.inl (hs ▸ rfl)
      · rw [if_neg fun hand => hr hand.2]
        refine ⟨fun hor => ?_, fun hs => Or.inr ⟨hs, Ne.symm hr⟩⟩
        rcases hor with rfl | ⟨hs, -⟩
        · exact absurd rfl hr
        · exact hs
    · rw [if_neg hnode, if_neg fun hand => hnode hand.1.symm]
      exact h.stands node' r
  · have hold := (h.ordered node').imp fun hs => hs.register node route
    split
    next hnode =>
      subst hnode
      by_cases hserved : ∃ r ∈ t.routesTo node', r.router = route.router
      · rwa [map_router_upsert (h.nodup node') hserved]
      · -- The newcomer did not stand before, so it is junior to all that stand.
        have hnone : ∀ r ∈ t.routesTo node', r.router ≠ route.router :=
          fun r hr heq => hserved ⟨r, hr, heq⟩
        rw [upsert_eq_append hnone, List.map_append, List.pairwise_append]
        refine ⟨hold, List.pairwise_singleton _ _, fun p hp q hq => ?_⟩
        rw [List.map_singleton, List.mem_singleton] at hq
        rcases List.mem_map.mp hp with ⟨r, hr, rfl⟩
        rcases (h.stands node' r).mp hr with ⟨s, hs, -⟩
        have hfree : standing? history node' route.router = none := by
          rcases hs' : standing? history node' route.router with _ | s'
          · rfl
          · exact absurd (h.route_mem hs').2 (hnone _ (h.route_mem hs').1)
        refine ⟨s, ⟨history.length, route⟩, ?_, ?_, (standing?_bounds hs).1⟩
        · rw [standing?_register, if_neg fun hand => hnone r hr hand.2.symm]
          exact hs
        · rw [standing?_register, if_pos ⟨rfl, hq.symm⟩, hq, hfree]
          rfl
    next => exact hold

/-- A router that is removed is gone from the table and from the history. The order of the others is
    left, since theirs are left of the routes. -/
theorem agrees_unregister (h : t.Agrees history) (router : Pid) :
    (t.unregister router).Agrees (history ++ [.unregister router]) := by
  refine ⟨fun node r => ?_, fun node => ?_⟩ <;> rw [routesTo_unregister]
  · rw [standing?_unregister, List.mem_filter, decide_eq_true_iff, h.stands]
    by_cases hr : router = r.router
    · rw [if_pos hr]
      exact iff_of_false (fun hand => hand.2 hr.symm) (by simp)
    · rw [if_neg hr]
      exact and_iff_left (Ne.symm hr)
  · have hsub := (List.filter_sublist (p := fun r : Route => r.router ≠ router)
      (l := t.routesTo node)).map Route.router
    refine ((h.ordered node).sublist hsub).imp_of_mem fun {p q} hp hq hs => ?_
    rcases hs with ⟨s, s', hs, hs', hlt⟩
    have hkeep {r : Pid} (hr : r ∈ ((t.routesTo node).filter fun r => r.router ≠ router).map
        Route.router) : ¬ router = r := by
      rcases List.mem_map.mp hr with ⟨r', hr', rfl⟩
      exact fun heq => of_decide_eq_true (List.mem_filter.mp hr').2 heq.symm
    refine ⟨s, s', ?_, ?_, hlt⟩ <;> rw [standing?_unregister]
    · rwa [if_neg (hkeep hp)]
    · rwa [if_neg (hkeep hq)]

/-- What changes neither the routes nor what the history says keeps them in agreement. -/
theorem Agrees.congr (h : t.Agrees history) {t' : RouterTable} {history' : List Request}
    (hroutes : ∀ node, t'.routesTo node = t.routesTo node)
    (hstanding : ∀ node p, standing? history' node p = standing? history node p) :
    t'.Agrees history' := by
  -- Seniority is read off the standings only.
  have hsenior : ∀ node p q, Senior history' node p q ↔ Senior history node p q :=
    fun node p q => by simp only [Senior, hstanding]
  refine ⟨fun node r => ?_, fun node => ?_⟩
  · rw [hroutes, hstanding]
    exact h.stands node r
  · rw [hroutes]
    exact (h.ordered node).imp fun {p q} => (hsenior node p q).mpr

/-- A table that agrees with its history does so after one more request. -/
theorem agrees_apply (h : t.Agrees history) (request : Request) :
    (t.apply request).Agrees (history ++ [request]) := by
  cases request with
  | register node route => exact agrees_register h node route
  | unregister router => exact agrees_unregister h router
  | intern node => exact h.congr (routesTo_intern t node) fun n => standing?_intern history n node
  | indexOf node => exact h.congr (fun _ => rfl) fun n => standing?_indexOf history n node

/-- A table agrees with its history. -/
theorem agrees_replay (localName : String) (history : List Request) :
    ((new localName).replay history).Agrees history := by
  induction history using List.reverseRecOn with
  | nil => exact agrees_new localName
  | append_singleton history request ih =>
      rw [replay, List.foldl_append]
      exact agrees_apply ih request

/-! ## The route that is used -/

/-- The cheapest of some routes costs less than every other route, or as much and stands
    further ahead. -/
theorem cheapest_senior {ahead : Pid → Pid → Prop} {routes : List Route} {best : Route}
    (hahead : (routes.map Route.router).Pairwise ahead) (h : cheapest routes = some best) :
    best ∈ routes ∧ ∀ r ∈ routes, r.router ≠ best.router →
      best.cost < r.cost ∨ best.cost = r.cost ∧ ahead best.router r.router := by
  induction routes generalizing best with
  | nil => exact absurd h (by simp [cheapest])
  | cons r rest ih =>
      rw [List.map_cons, List.pairwise_cons] at hahead
      rw [cheapest] at h
      split at h
      next hrest =>
        rw [Option.some.injEq] at h
        rw [cheapest_eq_none_iff.mp hrest, ← h]
        refine ⟨List.mem_singleton.mpr rfl, fun r' hr' hne => ?_⟩
        exact absurd (congrArg Route.router (List.mem_singleton.mp hr')) hne
      next b hrest =>
        rcases ih hahead.2 hrest with ⟨hmem, hbest⟩
        split at h
        next hcost =>
          rw [Option.some.injEq] at h
          rw [← h]
          refine ⟨List.mem_cons_self, fun r' hr' hne => ?_⟩
          rcases List.mem_cons.mp hr' with rfl | hr'
          · exact absurd rfl hne
          · -- The head is ahead of all others, so a tie goes to it.
            have hlead := hahead.1 r'.router (List.mem_map_of_mem hr')
            have hle := UInt32.le_trans hcost ((cheapest_least hrest).2 r' hr')
            rcases UInt32.lt_or_eq_of_le hle with hlt | heq
            · exact Or.inl hlt
            · exact Or.inr ⟨heq, hlead⟩
        next hcost =>
          rw [Option.some.injEq] at h
          rw [← h]
          refine ⟨List.mem_cons_of_mem r hmem, fun r' hr' hne => ?_⟩
          rcases List.mem_cons.mp hr' with rfl | hr'
          · exact Or.inl (UInt32.not_le.mp hcost)
          · exact hbest r' hr' hne

/-- Whether a router is to be used rather than another one. -/
def Standing.Beats (s s' : Standing) : Prop :=
  s.route.cost < s'.route.cost ∨ s.route.cost = s'.route.cost ∧ s.since < s'.since

/-- Of two routers one is used. -/
theorem Standing.Beats.asymm {s s' : Standing} (h : s.Beats s') : ¬ s'.Beats s := by
  rintro (hlt' | ⟨heq', hlt'⟩) <;> rcases h with hlt | ⟨heq, hlt⟩
  · exact UInt32.lt_asymm hlt hlt'
  · exact UInt32.lt_irrefl _ (heq ▸ hlt')
  · exact UInt32.lt_irrefl _ (heq' ▸ hlt)
  · exact Nat.lt_asymm hlt hlt'

/-- The router in use beats all others that stand. -/
theorem Agrees.beats (h : t.Agrees history) {node : String} {p : Pid}
    (hp : t.route node = some p) :
    ∃ s, standing? history node p = some s ∧
      ∀ q s', q ≠ p → standing? history node q = some s' → s.Beats s' := by
  rcases Option.map_eq_some_iff.mp hp with ⟨best, hbest, rfl⟩
  rcases cheapest_senior (h.ordered node) hbest with ⟨hmem, hsenior⟩
  rcases (h.stands node best).mp hmem with ⟨s, hs, rfl⟩
  refine ⟨s, hs, fun q s' hne hs' => ?_⟩
  rcases h.route_mem hs' with ⟨hmem', rfl⟩
  -- The other one costs more, or stands further back, and that is to be younger.
  rcases hsenior s'.route hmem' hne with hlt | ⟨heq, s₀, s₀', hs₀, hs₀', hlt⟩
  · exact Or.inl hlt
  · rw [hs, Option.some.injEq] at hs₀
    rw [hs', Option.some.injEq] at hs₀'
    subst hs₀ hs₀'
    exact Or.inr ⟨heq, hlt⟩

/-- A node cannot be reached if nobody stands for it. -/
theorem Agrees.route_eq_none_iff (h : t.Agrees history) {node : String} :
    t.route node = none ↔ ∀ p, standing? history node p = none := by
  rw [route, Option.map_eq_none_iff, cheapest_eq_none_iff, List.eq_nil_iff_forall_not_mem]
  constructor
  · intro hnil p
    rcases hs : standing? history node p with _ | s
    · rfl
    · exact absurd (h.route_mem hs).1 (hnil s.route)
  · intro hnone r hr
    rcases (h.stands node r).mp hr with ⟨s, hs, -⟩
    exact absurd hs (by simp [hnone])

/-- A router is in use exactly if it stands and beats all others. -/
theorem Agrees.route_eq_some_iff (h : t.Agrees history) {node : String} {p : Pid} :
    t.route node = some p ↔ ∃ s, standing? history node p = some s ∧
      ∀ q s', q ≠ p → standing? history node q = some s' → s.Beats s' := by
  refine ⟨h.beats, ?_⟩
  rintro ⟨s, hs, hbeats⟩
  rcases hroute : t.route node with _ | q
  · exact absurd hs (by simp [h.route_eq_none_iff.mp hroute])
  · rcases h.beats hroute with ⟨s', hs', hbeats'⟩
    by_cases hne : q = p
    · rw [hne]
    · -- Two routers cannot beat each other.
      exact absurd (hbeats' p s (Ne.symm hne) hs) (hbeats q s' hne hs').asymm

/-! ## Lists of nodes -/

/-- The keys that are left are those whose values pass. -/
theorem mem_keys_filter {κ ν : Type} [DecidableEq κ] {d : Dict κ ν} {test : κ → ν → Bool} {k : κ} :
    k ∈ (d.filter test).keys ↔ ∃ v, d.get? k = some v ∧ test k v = true := by
  rw [Dict.mem_keys_iff, Dict.get?_filter]
  rcases d.get? k with _ | v <;> simp

/-- The nodes for which some of the routes pass a test. -/
theorem mem_keys_routes {t : RouterTable} {test : Route → Bool} {node : String} :
    node ∈ (t.routes.filter fun _ routes => routes.any test).keys ↔
      ∃ r ∈ t.routesTo node, test r = true := by
  rw [mem_keys_filter, routesTo]
  rcases t.routes.get? node with _ | routes
  · simp
  · simp [List.any_eq_true]

/-- A router serves the nodes to which it has a route. -/
theorem mem_servedBy {t : RouterTable} {router : Pid} {node : String} :
    node ∈ t.servedBy router ↔ ∃ r ∈ t.routesTo node, r.router = router := by
  rw [servedBy]
  exact mem_keys_routes.trans (by simp)

/-- A node is visible if one of its routes is not hidden. -/
theorem mem_visible {t : RouterTable} {node : String} :
    node ∈ t.visible ↔ ∃ r ∈ t.routesTo node, r.options.hidden = false := by
  rw [visible, (List.mergeSort_perm _ Text.le).mem_iff]
  exact mem_keys_routes.trans (by simp)

/-! ## The law of routes -/

/-- What can be relied on about the routes of a table with a history. -/
structure RouteLaw (t : RouterTable) (history : List Request) : Prop where
  /-- The router in use is the cheapest of those that stand, the senior one of equally cheap
      ones. -/
  used : ∀ node p, t.route node = some p ↔ ∃ s, standing? history node p = some s ∧
    ∀ q s', q ≠ p → standing? history node q = some s' → s.Beats s'
  /-- There is no router to use only if none stands. -/
  unused : ∀ node, t.route node = none ↔ ∀ p, standing? history node p = none
  /-- The routes are those that stand. -/
  stands : ∀ node r, r ∈ t.routesTo node ↔
    ∃ s, standing? history node r.router = some s ∧ s.route = r
  /-- No router has two routes to a node. -/
  once : ∀ node, ((t.routesTo node).map Route.router).Nodup
  /-- A router that is registered again keeps its place, and its cost and options change. -/
  again : ∀ node route, (∃ r ∈ t.routesTo node, r.router = route.router) →
    (t.register node route).routesTo node =
      (t.routesTo node).map fun r => if r.router = route.router then route else r
  /-- A router that is registered for the first time, or again after it was removed, comes
      last. -/
  anew : ∀ node route, (∀ r ∈ t.routesTo node, r.router ≠ route.router) →
    (t.register node route).routesTo node = t.routesTo node ++ [route]
  /-- The routes to other nodes stay as they are. -/
  apart : ∀ node route node', node' ≠ node →
    (t.register node route).routesTo node' = t.routesTo node'
  /-- When a router is removed its routes go, on every node. The others stay, in their order,
      and no node loses its number. -/
  removed : ∀ p, (∀ node, (t.unregister p).routesTo node =
    (t.routesTo node).filter fun r => r.router ≠ p) ∧ (t.unregister p).nodes = t.nodes
  /-- The nodes that are reported then are those that it served, each once. -/
  reported : ∀ p, (t.servedBy p).Nodup ∧
    ∀ node, node ∈ t.servedBy p ↔ ∃ r ∈ t.routesTo node, r.router = p
  /-- The nodes that can be listed are those with a route that is not hidden, each once and
      in order. -/
  listed : t.visible.Pairwise (Text.le · ·) ∧ t.visible.Nodup ∧
    ∀ node, node ∈ t.visible ↔ ∃ r ∈ t.routesTo node, r.options.hidden = false

/-- After every history, the routes of a table are what the history says. -/
theorem routeLaw (localName : String) (history : List Request) :
    ((new localName).replay history).RouteLaw history := by
  have h := agrees_replay localName history
  -- Only the agreement counts from here on.
  generalize (new localName).replay history = t at h
  refine ⟨fun node p => h.route_eq_some_iff, fun node => h.route_eq_none_iff, h.stands, h.nodup,
    fun node route hserved => ?_, fun node route hfree => ?_, fun node route node' hne => ?_,
    fun p => ⟨routesTo_unregister t p, rfl⟩, fun p => ⟨?_, fun node => mem_servedBy⟩,
    List.pairwise_mergeSort Text.le_trans Text.le_total _, ?_, fun node => mem_visible⟩
  · rw [routesTo_register, if_pos rfl, upsert_eq_map (h.nodup node) hserved]
  · rw [routesTo_register, if_pos rfl, upsert_eq_append hfree]
  · rw [routesTo_register, if_neg hne]
  · exact (t.routes.filter _).nodup
  · exact (List.mergeSort_perm _ Text.le).nodup_iff.mpr (t.routes.filter _).nodup

end RouterTable

end Actors
