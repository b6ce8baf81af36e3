/-!
# Finite Maps in Insertion Order

A finite map kept as the list of its entries. No key occurs twice, and the
type says so, so a property of the entries is a property of the map. An
entry keeps its place when its value is replaced, and a new key goes to the
end: the order of the entries is the order in which the map is walked.

Everything below is stated through one view, `get?`. An operation is known by
what it does to `get?` at every key, and no proof needs to open it again.

## Main definitions

* `Dict`: A finite map with its entries in order.
* `Dict.get?`: The value held under a key.
* `Dict.insert`: Holds a value under a key.
* `Dict.modify`: Changes the value under a key that is held.
* `Dict.erase`: Forgets a key.
* `Dict.filter`: Keeps the entries that pass a test.
* `Dict.total`: What the values come to when each is measured.

## Theorems

* `get?_insert`, `get?_modify`, `get?_erase`: The operations through the view.
* `mem_entries_iff`: The entries are exactly what `get?` finds.
* `mem_keys_iff`: The keys are exactly where `get?` finds something.
-/

namespace Actors

/-- A finite map from `κ` to `ν`, as a list of entries without a repeated key. -/
structure Dict (κ : Type u) (ν : Type v) where
  /-- The entries, oldest key first. -/
  entries : List (κ × ν)
  /-- No key occurs twice. -/
  nodup : (entries.map Prod.fst).Nodup

namespace Dict

variable {κ : Type u} {ν : Type v}

/-- The map that holds nothing. -/
def empty : Dict κ ν := ⟨[], List.nodup_nil⟩

instance : EmptyCollection (Dict κ ν) := ⟨empty⟩

instance : Inhabited (Dict κ ν) := ⟨empty⟩

/-- The keys, oldest first. -/
def keys (d : Dict κ ν) : List κ := d.entries.map Prod.fst

/-- The values, by the age of their keys. -/
def values (d : Dict κ ν) : List ν := d.entries.map Prod.snd

/-- How many keys are held. -/
def size (d : Dict κ ν) : Nat := d.entries.length

/-- What the values come to when each is measured. -/
def total (d : Dict κ ν) (measure : ν → Nat) : Nat :=
  d.entries.foldr (fun e n => measure e.2 + n) 0

/-- The entries that pass a test, in their order. -/
def filter (d : Dict κ ν) (test : κ → ν → Bool) : Dict κ ν where
  entries := d.entries.filter fun e => test e.1 e.2
  nodup := d.nodup.sublist ((List.filter_sublist (l := d.entries)).map Prod.fst)

variable [DecidableEq κ]

/-- The value held under a key, if there is one. -/
def get? (d : Dict κ ν) (k : κ) : Option ν := d.entries.lookup k

/-- Whether a key is held. -/
def contains (d : Dict κ ν) (k : κ) : Bool := (d.get? k).isSome

/-- Changes the value under a key, and nothing if the key is not held. -/
def modify (d : Dict κ ν) (k : κ) (f : ν → ν) : Dict κ ν where
  entries := d.entries.map fun e => if e.1 = k then (e.1, f e.2) else e
  nodup := by
    have h : (d.entries.map fun e => if e.1 = k then (e.1, f e.2) else e).map Prod.fst =
        d.entries.map Prod.fst := by
      rw [List.map_map]
      refine List.map_congr_left fun e _ => ?_
      by_cases h : e.1 = k <;> simp [h]
    rw [h]
    exact d.nodup

/-- Forgets a key and its value. -/
def erase (d : Dict κ ν) (k : κ) : Dict κ ν := d.filter fun k' _ => k' ≠ k

/-- Looking a key up finds nothing exactly when no entry carries it. -/
theorem get?_eq_none_iff {d : Dict κ ν} {k : κ} :
    d.get? k = none ↔ k ∉ d.entries.map Prod.fst := by
  rw [get?, List.lookup_eq_none_iff]
  constructor
  · intro h hk
    rcases List.mem_map.mp hk with ⟨e, he, rfl⟩
    exact absurd (h e he) (by simp)
  · intro h e he
    refine bne_iff_ne.mpr fun hk => h ?_
    exact hk ▸ List.mem_map_of_mem he

/-- Holds a value under a key, in the place of the key if it is held already
    and at the end if it is not. -/
def insert (d : Dict κ ν) (k : κ) (v : ν) : Dict κ ν :=
  if h : d.get? k = none then
    { entries := d.entries ++ [(k, v)]
      nodup := by
        rw [List.map_append, List.nodup_append]
        refine ⟨d.nodup, by simp, fun a ha b hb hab => ?_⟩
        rw [List.map_singleton, List.mem_singleton] at hb
        rw [hab, hb] at ha
        exact get?_eq_none_iff.mp h ha }
  else d.modify k fun _ => v

/-- The map with the given entries, a later one replacing an earlier one of
    the same key. -/
def ofList (entries : List (κ × ν)) : Dict κ ν :=
  entries.foldl (fun d e => d.insert e.1 e.2) ∅

/-! ## The view -/

@[simp] theorem get?_empty (k : κ) : (∅ : Dict κ ν).get? k = none := rfl

/-- An entry is one that `get?` finds, since its key stands only there. -/
theorem mem_entries_iff {d : Dict κ ν} {k : κ} {v : ν} :
    (k, v) ∈ d.entries ↔ d.get? k = some v := by
  rcases d with ⟨entries, nodup⟩
  simp only [get?]
  induction entries with
  | nil => simp only [List.not_mem_nil, List.lookup_nil, reduceCtorEq]
  | cons e rest ih =>
      rcases e with ⟨k', v'⟩
      rw [List.map_cons, List.nodup_cons] at nodup
      rw [List.mem_cons, List.lookup_cons, ih nodup.2]
      by_cases hk : k = k'
      · subst hk
        -- The key stands at the head, so the tail cannot hold it.
        have hnone : rest.lookup k = none :=
          (get?_eq_none_iff (d := ⟨rest, nodup.2⟩)).mpr nodup.1
        simp only [hnone, beq_self_eq_true, reduceCtorEq, or_false, Prod.mk.injEq, true_and,
          Option.some.injEq]
        exact eq_comm
      · simp only [beq_eq_false_iff_ne.mpr hk, Prod.mk.injEq, hk, false_and, false_or]

theorem mem_keys_iff {d : Dict κ ν} {k : κ} : k ∈ d.keys ↔ (d.get? k).isSome := by
  rw [Option.isSome_iff_ne_none, ne_eq, get?_eq_none_iff, Classical.not_not, keys]

theorem get?_filter (d : Dict κ ν) (test : κ → ν → Bool) (k : κ) :
    (d.filter test).get? k = (d.get? k).filter (test k) := by
  rcases h : (d.filter test).get? k with _ | v
  · rcases h' : d.get? k with _ | v
    · rfl
    · -- The entry was there and was dropped, so it failed the test.
      by_cases ht : test k v = true
      · have hm : (k, v) ∈ (d.filter test).entries :=
          List.mem_filter.mpr ⟨mem_entries_iff.mpr h', ht⟩
        rw [mem_entries_iff.mp hm] at h
        exact absurd h (by simp)
      · simp only [Option.filter_some, ht, Bool.false_eq_true, if_false]
  · have hm := List.mem_filter.mp (mem_entries_iff.mpr h)
    rw [mem_entries_iff.mp hm.1, Option.filter_some, if_pos hm.2]

theorem get?_erase (d : Dict κ ν) (k k' : κ) :
    (d.erase k).get? k' = if k' = k then none else d.get? k' := by
  rw [erase, get?_filter]
  by_cases h : k' = k
  · rcases d.get? k' <;> simp [h]
  · rcases d.get? k' <;> simp [h]

theorem get?_modify (d : Dict κ ν) (k k' : κ) (f : ν → ν) :
    (d.modify k f).get? k' = if k' = k then (d.get? k').map f else d.get? k' := by
  rcases d with ⟨entries, nodup⟩
  simp only [get?, modify]
  clear nodup
  induction entries with
  | nil => simp
  | cons e rest ih =>
      rcases e with ⟨k₁, v₁⟩
      by_cases h₁ : k₁ = k
      · subst h₁
        by_cases h : k' = k₁
        · subst h; simp
        · rw [if_neg h] at ih
          simp only [List.map_cons, if_true, List.lookup_cons, beq_eq_false_iff_ne.mpr h, ih,
            if_neg h]
      · by_cases h : k' = k₁
        · subst h
          simp [h₁]
        · simp only [List.map_cons, if_neg h₁, List.lookup_cons, beq_eq_false_iff_ne.mpr h, ih]

theorem get?_insert (d : Dict κ ν) (k k' : κ) (v : ν) :
    (d.insert k v).get? k' = if k' = k then some v else d.get? k' := by
  by_cases hk : d.get? k = none
  · rw [insert, dif_pos hk]
    simp only [get?, List.lookup_append] at hk ⊢
    by_cases h : k' = k
    · subst h; simp [hk]
    · simp [h, List.lookup_cons, beq_eq_false_iff_ne.mpr h]
  · rw [insert, dif_neg hk, get?_modify]
    by_cases h : k' = k
    · subst h
      rcases Option.ne_none_iff_exists'.mp hk with ⟨w, hw⟩
      simp [hw]
    · rw [if_neg h, if_neg h]

end Dict

end Actors
