import Actors.Pattern
import Actors.Predicate

/-!
# What a Match Means

A pattern with names matches a term if there are terms for its names such that
the pattern matches with these terms in place of the names. Collecting the names
from left to right finds these terms, and there is only one choice of them: each
name stands for the part of the term at which it is found.

The collected bindings grow and never change. So a choice of terms that works
for a whole row of patterns agrees with the bindings collected so far, which is
the invariant that carries the induction, both ways: a choice that agrees is
never run against, and bindings that are complete are a choice that works.

The other way to match looks at the shape alone. It is all there is to say if
every name occurs once, since then no name is found bound.

## Main definitions

* `Pattern.names`: The names of a pattern, each as often as it occurs.
* `Pattern.fill`: A pattern with terms in place of its names.
* `Bindings.value`: What a name stands for.
* `Bindings.Agrees`: A choice of terms says what the bindings say.

## Theorems

* `bindInto_capture_iff`: A name is bound, or bound already to the same term.
* `get?_bindInto`: Bindings grow by the names of the pattern and never change.
* `fits_fill_iff`: A choice of terms works exactly if it agrees with what is collected.
* `bind_only_choice`: Which bindings are found, and when none are.
* `isSome_bindInto_of_nodup`: The shape decides if every name occurs once.
* `one_answer`: All ways to match give the same answer.
-/

namespace Actors

namespace Bindings

/-- What a name stands for. A name that is not bound stands for the empty list. -/
def value (b : Bindings) (name : String) : Term := (b.get? name).getD .nil

/-- A choice of terms says what the bindings say. -/
def Agrees (b : Bindings) (s : String → Term) : Prop := ∀ name t, b.get? name = some t → s name = t

end Bindings

namespace Pattern

mutual

/-- The names of a pattern, each as often as it occurs. -/
def names : Pattern → List String
  | .capture name => [name]
  | .tuple ps => namesAll ps
  | .list ps => namesAll ps
  | .literal _ => []
  | .wildcard => []

/-- The names of some patterns. -/
def namesAll : List Pattern → List String
  | [] => []
  | p :: ps => names p ++ namesAll ps

end

mutual

/-- A pattern with terms in place of its names. -/
def fill (s : String → Term) : Pattern → Pattern
  | .capture name => .literal (s name)
  | .tuple ps => .tuple (fillAll s ps)
  | .list ps => .list (fillAll s ps)
  | .literal t => .literal t
  | .wildcard => .wildcard

/-- Some patterns with terms in place of their names. -/
def fillAll (s : String → Term) : List Pattern → List Pattern
  | [] => []
  | p :: ps => fill s p :: fillAll s ps

end

/-! ## One level of a match -/

theorem bindInto_tuple (ps : List Pattern) (t : Term) (b : Bindings) :
    bindInto (.tuple ps) t b = t.asTuple?.bind fun ts => bindAll ps ts b := by
  cases t <;> rfl

theorem bindInto_list (ps : List Pattern) (t : Term) (b : Bindings) :
    bindInto (.list ps) t b = t.asList?.bind fun ts => bindAll ps ts b := by
  cases t <;> rfl

theorem bindInto_literal (t' t : Term) (b : Bindings) :
    bindInto (.literal t') t b = if t' = t then some b else none := by
  rw [bindInto]

/-- A name is bound to the term, or it is bound to the term already. -/
theorem bindInto_capture_iff {name : String} {t : Term} {b b' : Bindings} :
    bindInto (.capture name) t b = some b' ↔
      (b.get? name = some t ∧ b' = b) ∨ (b.get? name = none ∧ b' = b.insert name t) := by
  rw [bindInto]
  rcases b.get? name with _ | bound
  · simp [eq_comm]
  · by_cases h : bound = t
    · simp [h, eq_comm]
    · simp [h]

/-- Patterns are gone through from left to right, and each finds what those before it have bound. -/
theorem bindAll_cons (p : Pattern) (ps : List Pattern) (t : Term) (ts : List Term) (b : Bindings) :
    bindAll (p :: ps) (t :: ts) b = (bindInto p t b).bind fun b' => bindAll ps ts b' := by
  rw [bindAll]
  rcases bindInto p t b with _ | b' <;> rfl

theorem fits_tuple (ps : List Pattern) (t : Term) :
    fits (.tuple ps) t = t.asTuple?.any (fitsAll ps) := by
  cases t <;> rfl

theorem fits_list (ps : List Pattern) (t : Term) :
    fits (.list ps) t = t.asList?.any (fitsAll ps) := by
  cases t <;> rfl

/-! ## Bindings grow -/

mutual

/-- What is bound stays bound to the same term, and the names that are bound in
    the end are those that were bound before and those of the pattern. -/
theorem get?_bindInto (p : Pattern) (t : Term) (b b' : Bindings) (h : bindInto p t b = some b')
    (name : String) :
    (∀ u, b.get? name = some u → b'.get? name = some u) ∧
      ((b'.get? name).isSome ↔ (b.get? name).isSome ∨ name ∈ p.names) := by
  cases p with
  | wildcard =>
      rw [bindInto, Option.some.injEq] at h
      simp [h, names]
  | literal t' =>
      rw [bindInto_literal, Option.ite_none_right_eq_some, Option.some.injEq] at h
      simp [h.2, names]
  | capture name' =>
      rw [names, List.mem_singleton]
      rcases bindInto_capture_iff.mp h with ⟨hbound, rfl⟩ | ⟨hfree, rfl⟩
      · refine ⟨fun _ hu => hu, Or.inl, ?_⟩
        rintro (hold | rfl)
        · exact hold
        · rw [hbound]
          rfl
      · -- The name was free, and is the only one that is bound here.
        rw [Dict.get?_insert]
        by_cases hname : name = name'
        · simp [hname, hfree]
        · simp [hname]
  | tuple ps =>
      rw [bindInto_tuple, Option.bind_eq_some_iff] at h
      rcases h with ⟨ts, -, h⟩
      exact get?_bindAll ps ts b b' h name
  | list ps =>
      rw [bindInto_list, Option.bind_eq_some_iff] at h
      rcases h with ⟨ts, -, h⟩
      exact get?_bindAll ps ts b b' h name

theorem get?_bindAll (ps : List Pattern) (ts : List Term) (b b' : Bindings)
    (h : bindAll ps ts b = some b') (name : String) :
    (∀ u, b.get? name = some u → b'.get? name = some u) ∧
      ((b'.get? name).isSome ↔ (b.get? name).isSome ∨ name ∈ namesAll ps) := by
  match ps, ts with
  | [], [] =>
      rw [bindAll, Option.some.injEq] at h
      simp [h, namesAll]
  | [], _ :: _ => exact absurd h (by simp [bindAll])
  | _ :: _, [] => exact absurd h (by simp [bindAll])
  | p :: ps, t :: ts =>
      rw [bindAll_cons, Option.bind_eq_some_iff] at h
      rcases h with ⟨b₁, hfirst, hrest⟩
      -- What the first pattern bound stays while the others are gone through.
      have h₁ := get?_bindInto p t b b₁ hfirst name
      have h₂ := get?_bindAll ps ts b₁ b' hrest name
      refine ⟨fun u hu => h₂.1 u (h₁.1 u hu), ?_⟩
      rw [h₂.2, h₁.2, namesAll, List.mem_append, or_assoc]

end

theorem agrees_of_bindAll {ps : List Pattern} {ts : List Term} {b b' : Bindings}
    (h : bindAll ps ts b = some b') {s : String → Term} (hs : b'.Agrees s) : b.Agrees s :=
  fun name u hu => hs name u ((get?_bindAll ps ts b b' h name).1 u hu)

/-! ## A choice of terms -/

mutual

/-- A choice of terms that agrees with what has been collected works for a
    pattern exactly if it agrees with what is collected then. -/
theorem fits_fill_iff (s : String → Term) (p : Pattern) (t : Term) (b : Bindings)
    (hs : b.Agrees s) :
    (p.fill s).fits t = true ↔ ∃ b', bindInto p t b = some b' ∧ b'.Agrees s := by
  cases p with
  | wildcard => exact iff_of_true rfl ⟨b, rfl, hs⟩
  | literal t' =>
      rw [fill, fits, decide_eq_true_iff]
      constructor
      · rintro rfl
        exact ⟨b, (bindInto_literal t' t' b).trans (if_pos rfl), hs⟩
      · rintro ⟨b', h, -⟩
        rw [bindInto_literal, Option.ite_none_right_eq_some] at h
        exact h.1
  | capture name =>
      rw [fill, fits, decide_eq_true_iff]
      constructor
      · intro heq
        rcases hbound : b.get? name with _ | u
        · refine ⟨b.insert name t, bindInto_capture_iff.mpr (Or.inr ⟨hbound, rfl⟩), ?_⟩
          intro name' u hu
          rw [Dict.get?_insert] at hu
          split at hu
          next hname => exact hname ▸ heq.trans (Option.some.inj hu)
          next => exact hs name' u hu
        · -- The name stands for the same term already, since the choice agrees.
          have hu : u = t := (hs name u hbound).symm.trans heq
          exact ⟨b, bindInto_capture_iff.mpr (Or.inl ⟨hu ▸ hbound, rfl⟩), hs⟩
      · rintro ⟨b', h, hs'⟩
        rcases bindInto_capture_iff.mp h with ⟨hbound, rfl⟩ | ⟨-, rfl⟩
        · exact hs' name t hbound
        · exact hs' name t ((Dict.get?_insert _ _ _ _).trans (if_pos rfl))
  | tuple ps =>
      rw [fill, fits_tuple, bindInto_tuple]
      rcases t.asTuple? with _ | ts
      · simp
      · exact fitsAll_fillAll_iff s ps ts b hs
  | list ps =>
      rw [fill, fits_list, bindInto_list]
      rcases t.asList? with _ | ts
      · simp
      · exact fitsAll_fillAll_iff s ps ts b hs

/-- The same for patterns in a row. What agrees with the end agrees with everything collected on the
    way, so the parts can be taken one by one. -/
theorem fitsAll_fillAll_iff (s : String → Term) (ps : List Pattern) (ts : List Term) (b : Bindings)
    (hs : b.Agrees s) :
    fitsAll (fillAll s ps) ts = true ↔ ∃ b', bindAll ps ts b = some b' ∧ b'.Agrees s := by
  match ps, ts with
  | [], [] => exact iff_of_true rfl ⟨b, rfl, hs⟩
  | [], _ :: _ => simp [fillAll, fitsAll, bindAll]
  | _ :: _, [] => simp [fillAll, fitsAll, bindAll]
  | p :: ps, t :: ts =>
      rw [fillAll, fitsAll, Bool.and_eq_true, fits_fill_iff s p t b hs]
      constructor
      · rintro ⟨⟨b₁, hfirst, hs₁⟩, hrest⟩
        rcases (fitsAll_fillAll_iff s ps ts b₁ hs₁).mp hrest with ⟨b', hrest', hs'⟩
        refine ⟨b', ?_, hs'⟩
        rw [bindAll_cons, hfirst]
        exact hrest'
      · rintro ⟨b', h, hs'⟩
        rw [bindAll_cons, Option.bind_eq_some_iff] at h
        rcases h with ⟨b₁, hfirst, hrest⟩
        have hs₁ := agrees_of_bindAll hrest hs'
        exact ⟨⟨b₁, hfirst, hs₁⟩, (fitsAll_fillAll_iff s ps ts b₁ hs₁).mpr ⟨b', hrest, hs'⟩⟩

end

mutual

/-- A pattern with terms in place of its names has no names. -/
theorem names_fill (s : String → Term) (p : Pattern) : (p.fill s).names = [] := by
  cases p with
  | tuple ps => exact namesAll_fillAll s ps
  | list ps => exact namesAll_fillAll s ps
  | _ => rfl

theorem namesAll_fillAll (s : String → Term) (ps : List Pattern) :
    namesAll (fillAll s ps) = [] := by
  cases ps with
  | nil => rfl
  | cons p ps => rw [fillAll, namesAll, names_fill s p, namesAll_fillAll s ps, List.append_nil]

end

mutual

theorem hasCaptures_eq_false_iff (p : Pattern) : p.hasCaptures = false ↔ p.names = [] := by
  cases p with
  | tuple ps => exact anyHasCaptures_eq_false_iff ps
  | list ps => exact anyHasCaptures_eq_false_iff ps
  | _ => simp [hasCaptures, names]

theorem anyHasCaptures_eq_false_iff (ps : List Pattern) :
    anyHasCaptures ps = false ↔ namesAll ps = [] := by
  cases ps with
  | nil => exact iff_of_true rfl rfl
  | cons p ps =>
      rw [anyHasCaptures, namesAll, Bool.or_eq_false_iff, List.append_eq_nil_iff,
        hasCaptures_eq_false_iff p, anyHasCaptures_eq_false_iff ps]

end

theorem accepts_of_names_nil {p : Pattern} (h : p.names = []) (t : Term) :
    p.accepts t = p.fits t := by
  rw [accepts, (hasCaptures_eq_false_iff p).mpr h, if_neg (by simp)]

/-! ## What is found -/

theorem agrees_empty (s : String → Term) : Bindings.Agrees ∅ s :=
  fun _ _ h => absurd h (by simp)

theorem agrees_value (b : Bindings) : b.Agrees b.value :=
  fun name u hu => by rw [Bindings.value, hu, Option.getD_some]

/-- A choice of terms works exactly if names are found that stand for these terms. -/
theorem accepts_fill_iff (s : String → Term) (p : Pattern) (t : Term) :
    (p.fill s).accepts t = true ↔ ∃ b, p.bind t = some b ∧ b.Agrees s := by
  rw [accepts_of_names_nil (names_fill s p)]
  exact fits_fill_iff s p t ∅ (agrees_empty s)

/-- The names that are bound are those of the pattern. -/
theorem isSome_get?_bind {p : Pattern} {t : Term} {b : Bindings} (h : p.bind t = some b)
    (name : String) : (b.get? name).isSome ↔ name ∈ p.names := by
  rw [(get?_bindInto p t ∅ b h name).2]
  simp

/-- Bindings agree with a choice of terms exactly if they are that choice, for
    the names of the pattern. -/
theorem agrees_iff_of_bind {p : Pattern} {t : Term} {b : Bindings} (h : p.bind t = some b)
    (s : String → Term) :
    b.Agrees s ↔ ∀ name, b.get? name = if name ∈ p.names then some (s name) else none := by
  constructor
  · intro hs name
    have hkey := isSome_get?_bind h name
    -- A name that is not bound is none of the pattern.
    rcases hu : b.get? name with _ | u
    · rw [hu] at hkey
      rw [if_neg (mt hkey.mpr (by simp))]
    · rw [hu] at hkey
      rw [if_pos (hkey.mp rfl), hs name u hu]
  · intro hs name u hu
    rw [hs name, Option.ite_none_right_eq_some, Option.some.injEq] at hu
    exact hu.2

/-- The bindings that are found are those for all names of the pattern, and for
    nothing else, with which in place of the names the pattern matches. Whatever
    choice of terms makes the pattern match is the one that is found, and nothing
    is found only if there is no such choice. -/
theorem bind_only_choice (p : Pattern) (t : Term) :
    (∀ b : Bindings, (∃ b', p.bind t = some b' ∧ ∀ name, b'.get? name = b.get? name) ↔
      (∀ name, (b.get? name).isSome ↔ name ∈ p.names) ∧ (p.fill b.value).accepts t = true) ∧
    (∀ s : String → Term, (p.fill s).accepts t = true ↔
      ∃ b, p.bind t = some b ∧
        ∀ name, b.get? name = if name ∈ p.names then some (s name) else none) ∧
    (p.bind t = none ↔ ∀ s : String → Term, (p.fill s).accepts t = false) := by
  refine ⟨fun b => ⟨?_, ?_⟩, fun s => ?_, ?_, ?_⟩
  · rintro ⟨b', h, hsame⟩
    have hvalue : b'.value = b.value := funext fun name => by
      rw [Bindings.value, hsame, Bindings.value]
    refine ⟨fun name => hsame name ▸ isSome_get?_bind h name, ?_⟩
    exact (accepts_fill_iff b.value p t).mpr ⟨b', h, hvalue ▸ agrees_value b'⟩
  · rintro ⟨hkeys, haccepts⟩
    rcases (accepts_fill_iff b.value p t).mp haccepts with ⟨b', h, hagrees⟩
    refine ⟨b', h, fun name => ?_⟩
    rw [(agrees_iff_of_bind h b.value).mp hagrees name, Bindings.value]
    have hkey := hkeys name
    rcases hu : b.get? name with _ | u
    · rw [hu] at hkey
      rw [if_neg (mt hkey.mpr (by simp))]
    · rw [hu] at hkey
      rw [if_pos (hkey.mp rfl), Option.getD_some]
  · rw [accepts_fill_iff]
    exact exists_congr fun b => and_congr_right fun h => agrees_iff_of_bind h s
  · intro h s
    rw [← Bool.not_eq_true, accepts_fill_iff, h]
    simp
  · intro h
    rcases hbind : p.bind t with _ | b
    · rfl
    · -- What is found would be a choice that works.
      have haccepts := (accepts_fill_iff b.value p t).mpr ⟨b, hbind, agrees_value b⟩
      exact absurd (haccepts.symm.trans (h b.value)) (by simp)

example : ((Pattern.tuple [.capture "x", .list [.capture "x", .capture "y"]]).bind
    (.tuple [.int 1, .list [.int 1, .nil]])).map (·.entries) =
    some [("x", .int 1), ("y", .nil)] := by decide

/-! ## The shape alone -/

mutual

/-- Where no name occurs twice or is bound before, the shape decides. -/
theorem isSome_bindInto_of_nodup (p : Pattern) (t : Term) (b : Bindings) (hp : p.names.Nodup)
    (hb : ∀ name ∈ p.names, b.get? name = none) : (bindInto p t b).isSome = p.fits t := by
  cases p with
  | wildcard => rfl
  | literal t' =>
      rw [bindInto_literal, fits]
      split <;> simp [*]
  -- A name that is free takes any term, so it is no different from a wildcard.
  | capture name =>
      rw [bindInto, hb name List.mem_cons_self]
      rfl
  | tuple ps =>
      rw [bindInto_tuple, fits_tuple]
      rcases t.asTuple? with _ | ts
      · rfl
      · exact isSome_bindAll_of_nodup ps ts b hp hb
  | list ps =>
      rw [bindInto_list, fits_list]
      rcases t.asList? with _ | ts
      · rfl
      · exact isSome_bindAll_of_nodup ps ts b hp hb

theorem isSome_bindAll_of_nodup (ps : List Pattern) (ts : List Term) (b : Bindings)
    (hps : (namesAll ps).Nodup) (hb : ∀ name ∈ namesAll ps, b.get? name = none) :
    (bindAll ps ts b).isSome = fitsAll ps ts := by
  match ps, ts with
  | [], [] => rfl
  | [], _ :: _ => rfl
  | _ :: _, [] => rfl
  | p :: ps, t :: ts =>
      rw [namesAll, List.nodup_append] at hps
      rw [namesAll] at hb
      have hfirst := isSome_bindInto_of_nodup p t b hps.1 fun name hname =>
        hb name (List.mem_append_left _ hname)
      rw [bindAll_cons, fitsAll, ← hfirst]
      rcases h : bindInto p t b with _ | b₁
      · rfl
      · -- The first pattern binds only names of its own.
        refine isSome_bindAll_of_nodup ps ts b₁ hps.2.1 fun name hname => ?_
        have hkey := (get?_bindInto p t b b₁ h name).2
        rw [hb name (List.mem_append_right _ hname)] at hkey
        rw [← Option.not_isSome_iff_eq_none, hkey]
        rintro (hold | hown)
        · exact absurd hold (by simp)
        · exact hps.2.2 name hown name hname rfl

end

theorem isSome_bind_of_nodup {p : Pattern} (h : p.names.Nodup) (t : Term) :
    (p.bind t).isSome = p.fits t :=
  isSome_bindInto_of_nodup p t ∅ h fun name _ => Dict.get?_empty name

/-- Whether a pattern matches a term does not depend on how it is asked: by the
    names that are found, by the cheaper way where there are no names, or by the
    test it is compiled to. The shape alone says the same if every name occurs once. -/
theorem one_answer (p : Pattern) (t : Term) :
    p.accepts t = (p.bind t).isSome ∧
    (Predicate.pattern p).test t = .ofBool (p.bind t).isSome ∧
    p.accepts t = (if p.hasCaptures = false then p.fits t else (p.bind t).isSome) ∧
    (p.hasCaptures = false ↔ p.names = []) ∧
    (p.names.Nodup → p.fits t = (p.bind t).isSome) := by
  -- Without names the cheaper way is taken, and there it makes no difference.
  have haccepts : p.accepts t = (p.bind t).isSome := by
    rcases h : p.hasCaptures with _ | _
    · have hnames := (hasCaptures_eq_false_iff p).mp h
      have hnodup : p.names.Nodup := hnames ▸ List.nodup_nil
      rw [accepts_of_names_nil hnames, isSome_bind_of_nodup hnodup]
    · rw [accepts, if_pos h]
  refine ⟨haccepts, by rw [Predicate.test, haccepts], ?_, hasCaptures_eq_false_iff p,
    fun hnodup => (isSome_bind_of_nodup hnodup t).symm⟩
  rcases h : p.hasCaptures with _ | _
  · rw [if_pos rfl, accepts_of_names_nil ((hasCaptures_eq_false_iff p).mp h)]
  · rw [if_neg (by simp), haccepts]

/-- The names of this pattern are different, so its shape alone tells that it matches. -/
theorem one_answer_pair :
    (Pattern.tuple [.capture "x", .list [.capture "y", .wildcard]]).names.Nodup ∧
    (Pattern.tuple [.capture "x", .list [.capture "y", .wildcard]]).fits
      (.tuple [.int 1, .list [.int 1, .nil]]) = true ∧
    ((Pattern.tuple [.capture "x", .list [.capture "y", .wildcard]]).bind
      (.tuple [.int 1, .list [.int 1, .nil]])).isSome = true := by
  have hfits := (one_answer (.tuple [.capture "x", .list [.capture "y", .wildcard]])
    (.tuple [.int 1, .list [.int 1, .nil]])).2.2.2.2 (by decide)
  exact ⟨by decide, by decide, hfits.symm.trans (by decide)⟩

end Pattern

end Actors
