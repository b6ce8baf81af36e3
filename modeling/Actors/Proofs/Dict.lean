import Actors.Dict

/-!
# More About Finite Maps

What the order of the entries does not matter for, and how a measure of all
values changes when one of them does.

## Theorems

* `get?_of_perm`: The order of the entries does not matter for the view.
* `get?_erase_self`, `get?_of_erase`: What is held after a key was forgotten.
* `erase_insert`: A new key that is forgotten leaves no trace.
* `total_modify`, `total_erase`: The total after one value changed or went.
-/

namespace Actors

namespace Dict

variable {κ : Type u} {ν : Type v} [DecidableEq κ]

theorem get?_of_perm {d d' : Dict κ ν} (h : d.entries.Perm d'.entries) (k : κ) :
    d.get? k = d'.get? k := by
  -- Whether a key is there, and with which value, is a matter of membership only.
  rcases hk : d'.get? k with _ | v
  · rw [get?_eq_none_iff] at hk ⊢
    exact fun hmem => hk ((h.map Prod.fst).mem_iff.mp hmem)
  · rw [← mem_entries_iff] at hk ⊢
    exact h.mem_iff.mpr hk

theorem get?_insert_of_ne (d : Dict κ ν) {k k' : κ} (v : ν) (h : k' ≠ k) :
    (d.insert k v).get? k' = d.get? k' := (get?_insert d k k' v).trans (if_neg h)

theorem get?_erase_of_ne (d : Dict κ ν) {k k' : κ} (h : k' ≠ k) :
    (d.erase k).get? k' = d.get? k' := (get?_erase d k k').trans (if_neg h)

theorem get?_erase_self (d : Dict κ ν) (k : κ) : (d.erase k).get? k = none :=
  (get?_erase d k k).trans (if_pos rfl)

theorem get?_of_erase {d : Dict κ ν} {k k' : κ} {v : ν} (h : (d.erase k).get? k' = some v) :
    k' ≠ k ∧ d.get? k' = some v := by
  rw [get?_erase] at h
  split at h
  next => exact absurd h (by simp)
  next hne => exact ⟨hne, h⟩

/-- Changing a key that is not there changes nothing. -/
theorem map_entries_of_not_mem {entries : List (κ × ν)} {k : κ} (h : k ∉ entries.map Prod.fst)
    (f : ν → ν) : (entries.map fun e => if e.1 = k then (e.1, f e.2) else e) = entries := by
  refine (List.map_congr_left fun e he => ?_).trans (List.map_id entries)
  have hne : e.1 ≠ k := fun heq => h (heq ▸ List.mem_map_of_mem he)
  rw [if_neg hne]
  rfl

theorem filter_entries_of_not_mem {entries : List (κ × ν)} {k : κ}
    (h : k ∉ entries.map Prod.fst) : (entries.filter fun e => e.1 ≠ k) = entries := by
  refine List.filter_eq_self.mpr fun e he => ?_
  have hne : e.1 ≠ k := fun heq => h (heq ▸ List.mem_map_of_mem he)
  exact decide_eq_true hne

theorem modify_of_get?_none {d : Dict κ ν} {k : κ} (h : d.get? k = none) (f : ν → ν) :
    d.modify k f = d := by
  rcases d with ⟨entries, nodup⟩
  simp only [modify, map_entries_of_not_mem (get?_eq_none_iff.mp h)]

theorem erase_of_get?_none {d : Dict κ ν} {k : κ} (h : d.get? k = none) : d.erase k = d := by
  rcases d with ⟨entries, nodup⟩
  simp only [erase, filter, filter_entries_of_not_mem (get?_eq_none_iff.mp h)]

/-- To forget a key that was not held before is to undo holding it. -/
theorem erase_insert {d : Dict κ ν} {k : κ} (h : d.get? k = none) (v : ν) :
    (d.insert k v).erase k = d := by
  have hentries : ((d.insert k v).erase k).entries = d.entries := by
    rw [insert, dif_pos h]
    change ((d.entries ++ [(k, v)]).filter fun e => e.1 ≠ k) = d.entries
    rw [List.filter_append, filter_entries_of_not_mem (get?_eq_none_iff.mp h),
      List.filter_cons_of_neg (by simp), List.filter_nil, List.append_nil]
  -- Equal lists make equal tables, whatever the proofs they carry.
  rcases hd : (d.insert k v).erase k with ⟨entries, nodup⟩
  rw [hd] at hentries
  subst hentries
  rfl

theorem total_modify {d : Dict κ ν} {k : κ} {v : ν} (h : d.get? k = some v) (f : ν → ν)
    (measure : ν → Nat) :
    (d.modify k f).total measure + measure v = d.total measure + measure (f v) := by
  rcases d with ⟨entries, nodup⟩
  simp only [get?, modify, total] at h ⊢
  induction entries with
  | nil => exact absurd h (by simp)
  | cons e rest ih =>
      rw [List.map_cons, List.nodup_cons] at nodup
      rw [List.map_cons, List.foldr_cons, List.foldr_cons]
      by_cases hk : e.1 = k
      · rw [List.lookup_cons, hk, beq_self_eq_true] at h
        rw [hk] at nodup
        -- A key stands once, so the rest is not changed.
        rw [map_entries_of_not_mem nodup.1, if_pos hk, Option.some.inj h]
        dsimp only
        omega
      · rw [List.lookup_cons, beq_eq_false_iff_ne.mpr (Ne.symm hk)] at h
        have hrest := ih nodup.2 h
        rw [if_neg hk]
        omega

theorem total_erase {d : Dict κ ν} {k : κ} {v : ν} (h : d.get? k = some v)
    (measure : ν → Nat) : (d.erase k).total measure + measure v = d.total measure := by
  rcases d with ⟨entries, nodup⟩
  simp only [get?, erase, filter, total] at h ⊢
  induction entries with
  | nil => exact absurd h (by simp)
  | cons e rest ih =>
      rw [List.map_cons, List.nodup_cons] at nodup
      by_cases hk : e.1 = k
      · rw [List.lookup_cons, hk, beq_self_eq_true] at h
        rw [hk] at nodup
        -- A key stands once, so nothing else goes with it.
        rw [List.filter_cons_of_neg (by simp [hk]), filter_entries_of_not_mem nodup.1,
          List.foldr_cons, Option.some.inj h]
        omega
      · rw [List.lookup_cons, beq_eq_false_iff_ne.mpr (Ne.symm hk)] at h
        have hrest := ih nodup.2 h
        rw [List.filter_cons_of_pos (by simp [hk]), List.foldr_cons, List.foldr_cons]
        omega

end Dict

end Actors
