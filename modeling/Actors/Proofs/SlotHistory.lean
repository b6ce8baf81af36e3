import Actors.Proofs.ProcessTable
import Mathlib.Data.List.Nodup
import Mathlib.Logic.ExistsUnique

/-!
# Slots and Their History

A process table in use. Beside the table there are books: the pairs that were given to
entries and the pairs that were given to nobody, the pairs that were removed, and the
handles that are held. The table knows none of this. It has slots with generations, a
list of free slots, and a number. That it answers as the books would have it is the
invariant `Balanced`, which every request keeps.

An entry has as many handles as were given out with it and looked up since, less those
that were dropped. With the last one it goes out of reach, but it stays in its slot, and
the table still says so when it is removed.

Generations have 32 bits, and nothing in what follows depends on how far they have got. A
slot at the last one is given out like any other and retires when it is given back.

## Main definitions

* `ProcessTable.Use`, `ProcessTable.Uses`: What a slot is used for.
* `ProcessTable.HasNumber`: There is a slot number that could be given out.
* `ProcessTable.Ages`: No slot goes back to an earlier generation.
* `Custody`: A table and the books on it.
* `Custody.Balanced`: The table answers as the books would have it.
* `Custody.TableLaw`: What can be relied on about a table in use.

## Theorems

* `unique_use`: A slot has exactly one use.
* `insert_error_iff`: When there is no room for an entry.
* `ages_step`, `ages_run`: Generations after a request and after a run.
* `balanced_step`, `balanced_run`: The books balance after a request and after a run.
* `tableLaw`: Slots, pairs and handles after every history.
-/

namespace Actors

namespace ProcessTable

variable {t t' : ProcessTable}

/-! ## What slots are used for -/

/-- What a slot can be used for. -/
inductive Use where
  /-- It waits to be given out. -/
  | free
  /-- There is an entry in it. -/
  | occupied
  /-- It is not given out any more. -/
  | retired

/-- Whether a slot is used in some way. -/
def Uses (t : ProcessTable) (id : UInt32) : Use → Prop
  | .free => t.free.count id = 1 ∧ ∃ serial, t.slot? id = some ⟨serial, .none⟩
  | .occupied => id ∉ t.free ∧ ∃ slot, t.slot? id = some slot ∧ slot.occupant ≠ .none
  | .retired => id ∉ t.free ∧ t.slot? id = some ⟨maxWord, .none⟩

/-- A slot has exactly one use. -/
theorem unique_use (h : t.Arranged none) {id : UInt32} (hid : id.toNat < t.slots.length) :
    ∃! use, t.Uses id use := by
  rcases hs : t.slot? id with _ | ⟨serial, o⟩
  · exact absurd (List.getElem?_eq_none_iff.mp hs) (Nat.not_le.mpr hid)
  · by_cases hfree : id ∈ t.free
    · have hcount : t.free.count id = 1 := List.count_eq_one_of_mem h.free_nodup hfree
      rcases (h.free_slot id hfree).2 with ⟨serial', hslot⟩
      refine ⟨.free, ⟨hcount, serial', hslot⟩, fun use huse => ?_⟩
      cases use with
      | free => rfl
      | occupied => exact absurd hfree huse.1
      | retired => exact absurd hfree huse.1
    · have hnone : t.free.count id ≠ 1 := by
        rw [List.count_eq_zero_of_not_mem hfree]
        exact Nat.zero_ne_one
      by_cases ho : o = .none
      · -- A slot that holds nothing and is not listed has used up its generations.
        subst ho
        have hmax : serial = maxWord := h.retired id _ hs rfl hfree (by simp)
        subst hmax
        refine ⟨.retired, ⟨hfree, hs⟩, fun use huse => ?_⟩
        cases use with
        | free => exact absurd huse.1 hnone
        | occupied =>
            rcases huse.2 with ⟨slot, hslot, hocc⟩
            rw [hs, Option.some.injEq] at hslot
            rw [← hslot] at hocc
            exact absurd rfl hocc
        | retired => rfl
      · refine ⟨.occupied, ⟨hfree, _, hs, ho⟩, fun use huse => ?_⟩
        cases use with
        | free => exact absurd huse.1 hnone
        | occupied => rfl
        | retired =>
            have hslot := huse.2
            rw [hs, Option.some.injEq, Slot.mk.injEq] at hslot
            exact absurd hslot.2 ho

/-! ## When there is no room -/

/-- There is a slot number that could be given out. -/
def HasNumber (t : ProcessTable) : Prop := t.free ≠ [] ∨ t.slots.length ≤ maxWord.toNat

/-- While there is a number a claim succeeds. -/
theorem exists_claim (h : t.HasNumber) : ∃ id t', t.claim = (.ok id, t') := by
  rcases claim_cases t with ⟨id, rest, -, hc⟩ | ⟨hfree, hlen, -⟩ | ⟨-, -, hc⟩
  · exact ⟨id, _, hc⟩
  · rcases h with hne | hle
    · exact absurd hfree hne
    · exact absurd hlen (Nat.not_lt.mpr hle)
  · exact ⟨_, _, hc⟩

/-- A table is full when its limit is reached. Without a limit it never is. -/
theorem isFull_iff : t.isFull = true ↔ ∃ max, t.limit = some max ∧ max ≤ t.live := by
  rw [isFull]
  rcases t.limit with _ | max <;> simp

/-- As long as there are slot numbers, an entry is refused at the limit and only there. -/
theorem insert_error_iff (h : t.HasNumber) :
    (∃ e, t.insert.1 = .error e) ↔ ∃ max, t.limit = some max ∧ max ≤ t.live := by
  rw [← isFull_iff, insert]
  by_cases hfull : t.isFull = true
  · rw [if_pos hfull]
    exact iff_of_true ⟨_, rfl⟩ hfull
  · rcases exists_claim h with ⟨id, t', hc⟩
    rw [if_neg hfull, hc]
    exact iff_of_false (by simp) hfull

/-! ## Generations -/

/-- No slot goes back to an earlier generation. -/
def Ages (t t' : ProcessTable) : Prop :=
  ∀ id slot, t.slot? id = some slot → ∃ slot', t'.slot? id = some slot' ∧ slot.serial ≤ slot'.serial

/-- A table that stays the same goes back to nothing. -/
theorem Ages.refl (t : ProcessTable) : t.Ages t :=
  fun _ slot h => ⟨slot, h, UInt32.le_refl slot.serial⟩

/-- Generations go up along a chain of changes. -/
theorem Ages.trans {t'' : ProcessTable} (h : t.Ages t') (h' : t'.Ages t'') : t.Ages t'' := by
  intro id slot hs
  rcases h id slot hs with ⟨slot₁, hs₁, hle₁⟩
  rcases h' id slot₁ hs₁ with ⟨slot₂, hs₂, hle₂⟩
  exact ⟨slot₂, hs₂, UInt32.le_trans hle₁ hle₂⟩

/-- A change of one slot to the same generation or a later one. -/
theorem Ages.of_slot {id : UInt32} {old : Slot} (new : Slot) (hs : t.slot? id = some old)
    (hle : old.serial ≤ new.serial)
    (h : ∀ i, t'.slot? i = if i = id then some new else t.slot? i) : t.Ages t' := by
  intro i slot hi
  rw [h]
  split
  next heq =>
    rw [heq, hs, Option.some.injEq] at hi
    exact ⟨new, rfl, hi ▸ hle⟩
  next => exact ⟨slot, hi, UInt32.le_refl slot.serial⟩

/-- The next generation is not an earlier one, not even at the last, where the slot stays. -/
theorem le_nextSerial (serial : UInt32) : serial ≤ nextSerial serial := by
  by_cases h : serial = maxWord
  · rw [nextSerial, if_pos h]
    exact UInt32.le_refl serial
  · rw [UInt32.le_iff_toNat_le, toNat_nextSerial h]
    exact Nat.le_succ serial.toNat

/-- A slot is given back in the next generation. -/
theorem ages_giveBack {id : UInt32} {slot : Slot} (hs : t.slot? id = some slot) :
    t.Ages (t.giveBack id) := .of_slot _ hs (le_nextSerial slot.serial) (slot?_giveBack hs)

/-- To claim a slot changes no generation. Either a free slot is taken as it is, or one is added. -/
theorem ages_claim {id : UInt32} (h : t.Arranged none) (hc : t.claim = (.ok id, t')) :
    t.Ages t' ∧ ∃ slot, t'.slot? id = some slot := by
  rcases claims_claim h hc with ⟨serial, hclaims⟩
  refine ⟨?_, _, hclaims.slot⟩
  rcases claim_cases t with ⟨id', rest, -, hclaim⟩ | ⟨-, -, hclaim⟩ | ⟨-, hlen, hclaim⟩
  · rw [hclaim, Prod.mk.injEq] at hc
    rw [← hc.2]
    exact .refl t
  · exact absurd (hclaim.symm.trans hc) (by simp)
  · rw [hclaim, Prod.mk.injEq] at hc
    rw [← hc.2]
    intro i slot hi
    -- The new slot stands behind all others.
    have hlt := lt_of_slot? hi
    exact ⟨slot, (List.getElem?_append_left hlt).trans hi, UInt32.le_refl slot.serial⟩

/-- The entry comes into the generation that was claimed. -/
theorem ages_insert (h : t.Arranged none) : t.Ages t.insert.2 := by
  rw [insert]
  split
  next => exact .refl t
  next =>
    split
    next e t₁ hc =>
      rw [(claim_error hc).2]
      exact .refl t
    next id t₁ hc =>
      rcases ages_claim h hc with ⟨hages, slot, hs⟩
      refine hages.trans ?_
      exact .of_slot ⟨t₁.serialOf id, .reachable⟩ hs
        (by rw [serialOf_eq hs]; exact UInt32.le_refl _) (slot?_setSlot hs _)

/-- The claimed slot is given back. -/
theorem ages_mint (h : t.Arranged none) : t.Ages t.mint.2 := by
  rw [mint]
  split
  next e t₁ hc =>
    rw [(claim_error hc).2]
    exact .refl t
  next id t₁ hc =>
    rcases ages_claim h hc with ⟨hages, slot, hs⟩
    exact hages.trans (ages_giveBack hs)

/-- The slot of the entry is given back. -/
theorem ages_remove (t : ProcessTable) (id serial : UInt32) : t.Ages (t.remove id serial).2 := by
  rcases remove_cases t id serial with ⟨-, hr⟩ | ⟨slot, hs, -, -, hr⟩ <;> rw [hr]
  · exact .refl t
  · exact ages_giveBack (t := { t with live := t.live - 1 }) hs

/-- An entry out of reach is still in its generation. -/
theorem ages_abandon (t : ProcessTable) (id serial : UInt32) : t.Ages (t.abandon id serial) := by
  rcases abandon_cases t id serial with ⟨-, ha⟩ | ⟨hs, ha⟩ <;> rw [ha]
  · exact .refl t
  · exact .of_slot ⟨serial, .abandoned⟩ hs (UInt32.le_refl serial) (slot?_setSlot hs _)

end ProcessTable

/-! ## A table in use -/

/-- A table and the books on it. -/
structure Custody where
  /-- The table. -/
  table : ProcessTable
  /-- The pairs that were given to entries. -/
  issued : List (UInt32 × UInt32)
  /-- The pairs that were given to nobody. -/
  minted : List (UInt32 × UInt32)
  /-- The pairs that were removed. -/
  removed : List (UInt32 × UInt32)
  /-- The handles that are held, each by the pair of its entry. -/
  handles : List (UInt32 × UInt32)

namespace Custody

open ProcessTable

/-- What can be asked of a table, or done with a handle. -/
inductive Request where
  /-- An entry is put into a slot, and comes with a handle. -/
  | insert
  /-- A pair is taken that no entry will have. -/
  | mint
  /-- An entry is looked up. If it is found there is a handle to it more. -/
  | get (id serial : UInt32)
  /-- The slot of an entry is freed. -/
  | remove (id serial : UInt32)
  /-- A handle to an entry is dropped. -/
  | drop (id serial : UInt32)

/-- A new table. -/
def start (limit : Option Nat) : Custody := ⟨.new limit, [], [], [], []⟩

/-- The last handle of an entry that is dropped takes the entry out of reach. -/
def drop (c : Custody) (id serial : UInt32) : Custody :=
  let handles := c.handles.erase (id, serial)
  if (id, serial) ∈ c.handles ∧ (id, serial) ∉ handles then
    { c with table := c.table.abandon id serial, handles }
  else { c with handles }

/-- The table and the books after a request. -/
def step (c : Custody) : Request → Custody
  | .insert =>
      match c.table.insert with
      | (.ok pair, table) =>
          { c with table, issued := pair :: c.issued, handles := pair :: c.handles }
      | (.error _, table) => { c with table }
  | .mint =>
      match c.table.mint with
      | (.ok pair, table) => { c with table, minted := pair :: c.minted }
      | (.error _, table) => { c with table }
  | .get id serial =>
      if c.table.resolves id serial then { c with handles := (id, serial) :: c.handles } else c
  | .remove id serial =>
      match c.table.remove id serial with
      | (true, table) => { c with table, removed := (id, serial) :: c.removed }
      | (false, table) => { c with table }
  | .drop id serial => c.drop id serial

/-- The table and the books after some requests. -/
def run (c : Custody) (history : List Request) : Custody := history.foldl step c

/-- A history in two parts. -/
theorem run_append (c : Custody) (before after : List Request) :
    c.run (before ++ after) = (c.run before).run after := List.foldl_append

/-- The table answers as the books would have it. -/
structure Balanced (c : Custody) : Prop where
  /-- The slots are in order. -/
  sound : c.table.Sound
  /-- What was given out is spent. -/
  spent : ∀ pair ∈ c.issued ++ c.minted, c.table.Spent pair.1 pair.2
  /-- Nothing was given out twice. -/
  unique : (c.issued ++ c.minted).Nodup
  /-- What was removed had been given to an entry. -/
  removed_issued : ∀ pair ∈ c.removed, pair ∈ c.issued
  /-- Nothing was removed twice. -/
  removed_once : c.removed.Nodup
  /-- There are entries for the pairs that were issued and not removed. -/
  occupied_iff : ∀ id serial, c.table.occupant id serial ≠ .none ↔
    (id, serial) ∈ c.issued ∧ (id, serial) ∉ c.removed
  /-- Those are in reach that have a handle. -/
  reachable_iff : ∀ id serial, c.table.occupant id serial = .reachable ↔
    (id, serial) ∈ c.issued ∧ (id, serial) ∉ c.removed ∧ (id, serial) ∈ c.handles

/-- A new table has nothing in it, and the books are empty. -/
theorem balanced_start (limit : Option Nat) : (start limit).Balanced := by
  have hnone : ∀ id serial, (start limit).table.occupant id serial = .none := by
    intro id serial
    rcases hs : (start limit).table.slot? id with _ | slot
    · rw [occupant, hs]
    · have hmem := List.mem_of_getElem? hs
      rw [start, new, List.mem_singleton] at hmem
      rw [occupant_eq hs, hmem, ite_self]
  refine ⟨sound_new limit, fun pair h => absurd h List.not_mem_nil, List.nodup_nil,
    fun pair h => absurd h List.not_mem_nil, List.nodup_nil, fun id serial => ?_,
    fun id serial => ?_⟩ <;> rw [hnone]
  · exact iff_of_false (fun h => h rfl) fun h => absurd h.1 List.not_mem_nil
  · exact iff_of_false (by simp) fun h => absurd h.1 List.not_mem_nil

/-! ## The books after a request -/

variable {c : Custody}

/-- A pair that is given out was never given out before. -/
theorem Balanced.not_mem (h : c.Balanced) {id serial : UInt32}
    (hfresh : ¬ c.table.Spent id serial) :
    (id, serial) ∉ c.issued ++ c.minted ∧ (id, serial) ∉ c.removed := by
  have hnot : (id, serial) ∉ c.issued ++ c.minted := fun hmem => hfresh (h.spent _ hmem)
  refine ⟨hnot, fun hmem => hnot ?_⟩
  exact List.mem_append_left c.minted (h.removed_issued _ hmem)

/-- The new pair is entered as given out, and as held by whoever asked for it. -/
theorem balanced_insert (h : c.Balanced) : (c.step .insert).Balanced := by
  rw [step]
  split
  next pair table hi =>
    rcases pair with ⟨id, serial⟩
    rcases issues_insert h.sound hi with ⟨hissues, hocc⟩
    -- Neither book knows the pair, as it was not spent.
    rcases h.not_mem hissues.fresh with ⟨hnew, hkept⟩
    refine ⟨hissues.sound, fun pair hpair => ?_, ?_, fun pair hpair => ?_, h.removed_once,
      fun i s => ?_, fun i s => ?_⟩
    · rw [hissues.spent]
      rcases List.mem_cons.mp hpair with rfl | hold
      · exact Or.inr ⟨rfl, rfl⟩
      · exact Or.inl (h.spent pair hold)
    · exact List.nodup_cons.mpr ⟨hnew, h.unique⟩
    · exact List.mem_cons_of_mem _ (h.removed_issued pair hpair)
    · change table.occupant i s ≠ .none ↔ (i, s) ∈ (id, serial) :: c.issued ∧ (i, s) ∉ c.removed
      rw [hocc, List.mem_cons, Prod.mk.injEq]
      split
      next heq =>
        rw [heq.1, heq.2]
        exact iff_of_true (by simp) ⟨Or.inl ⟨rfl, rfl⟩, hkept⟩
      next hne =>
        rw [h.occupied_iff, or_iff_right hne]
    · change table.occupant i s = .reachable ↔ (i, s) ∈ (id, serial) :: c.issued ∧
        (i, s) ∉ c.removed ∧ (i, s) ∈ (id, serial) :: c.handles
      rw [hocc, List.mem_cons, List.mem_cons, Prod.mk.injEq]
      split
      next heq =>
        rw [heq.1, heq.2]
        exact iff_of_true rfl ⟨Or.inl ⟨rfl, rfl⟩, hkept, Or.inl ⟨rfl, rfl⟩⟩
      next hne =>
        rw [h.reachable_iff, or_iff_right hne, or_iff_right hne]
  next e table hi =>
    rw [(insert_error hi).2]
    exact h

/-- A minted pair is booked as given out without an entry, so nothing can be found under it. -/
theorem balanced_mint (h : c.Balanced) : (c.step .mint).Balanced := by
  rw [step]
  split
  next pair table hm =>
    rcases pair with ⟨id, serial⟩
    rcases issues_mint h.sound hm with ⟨hissues, hocc⟩
    have hnew := (h.not_mem hissues.fresh).1
    refine ⟨hissues.sound, fun pair hpair => ?_, ?_, h.removed_issued, h.removed_once,
      fun i s => ?_, fun i s => ?_⟩
    · rw [hissues.spent]
      rcases List.mem_append.mp hpair with hold | hpair
      · exact Or.inl (h.spent pair (List.mem_append_left _ hold))
      · rcases List.mem_cons.mp hpair with rfl | hold
        · exact Or.inr ⟨rfl, rfl⟩
        · exact Or.inl (h.spent pair (List.mem_append_right _ hold))
    · exact List.nodup_middle.mpr (List.nodup_cons.mpr ⟨hnew, h.unique⟩)
    · rw [← h.occupied_iff, ← hocc]
    · rw [← h.reachable_iff, ← hocc]
  next e table hm =>
    rw [(mint_error hm).2]
    exact h

/-- Who gets an entry holds one more handle of it. -/
theorem balanced_get (h : c.Balanced) (id serial : UInt32) : (c.step (.get id serial)).Balanced := by
  rw [step]
  split
  next hfound =>
    refine ⟨h.sound, h.spent, h.unique, h.removed_issued, h.removed_once, h.occupied_iff,
      fun i s => ?_⟩
    -- The entry was in reach, so it had a handle already.
    have hheld := ((h.reachable_iff id serial).mp (of_decide_eq_true hfound)).2.2
    have hmem : (i, s) ∈ (id, serial) :: c.handles ↔ (i, s) ∈ c.handles := by
      rw [List.mem_cons, or_iff_right_of_imp]
      rintro heq
      rwa [heq]
    rw [hmem]
    exact h.reachable_iff i s
  next => exact h

/-- A removal says whether there was an entry, in reach or not. -/
theorem remove_fst_iff (t : ProcessTable) (id serial : UInt32) :
    (t.remove id serial).1 = true ↔ t.occupant id serial ≠ .none := by
  rw [ProcessTable.remove]
  split
  next ho => exact iff_of_false (by simp) fun hne => hne ho
  next ho => exact iff_of_true rfl ho

/-- A removed pair is booked as removed, and by `removed_once` it was not before. -/
theorem balanced_remove (h : c.Balanced) (id serial : UInt32) :
    (c.step (.remove id serial)).Balanced := by
  -- What the table says is known before the two outcomes are told apart.
  have hanswer := remove_fst_iff c.table id serial
  have hsound := sound_remove h.sound id serial
  have hspent := spent_remove h.sound id serial
  have hocc := occupant_remove c.table id serial
  rw [step]
  split
  next table hr =>
    rw [hr] at hanswer hsound hspent hocc
    rcases (h.occupied_iff id serial).mp (hanswer.mp rfl) with ⟨hissued, hkept⟩
    refine ⟨hsound, fun pair hpair => (hspent _ _).mpr (h.spent pair hpair), h.unique,
      fun pair hpair => ?_, List.nodup_cons.mpr ⟨hkept, h.removed_once⟩, fun i s => ?_,
      fun i s => ?_⟩
    · rcases List.mem_cons.mp hpair with rfl | hold
      · exact hissued
      · exact h.removed_issued pair hold
    · change table.occupant i s ≠ .none ↔ (i, s) ∈ c.issued ∧ (i, s) ∉ (id, serial) :: c.removed
      rw [hocc, List.mem_cons, Prod.mk.injEq, not_or]
      split
      next heq => exact iff_of_false (fun hne => hne rfl) fun hand => hand.2.1 heq
      next hne =>
        rw [h.occupied_iff, and_iff_right hne]
    · change table.occupant i s = .reachable ↔ (i, s) ∈ c.issued ∧
        (i, s) ∉ (id, serial) :: c.removed ∧ (i, s) ∈ c.handles
      rw [hocc, List.mem_cons, Prod.mk.injEq, not_or]
      split
      next heq => exact iff_of_false (by simp) fun hand => hand.2.1.1 heq
      next hne =>
        rw [h.reachable_iff, and_iff_right hne]
  next table hr =>
    -- There was no such entry, so the table is what it was.
    rcases remove_cases c.table id serial with ⟨-, hr'⟩ | ⟨slot, -, -, -, hr'⟩
    · rw [hr', Prod.mk.injEq] at hr
      rw [← hr.2]
      exact h
    · exact absurd (hr'.symm.trans hr) (by simp)

/-- A handle goes. The entry gets out of reach with the last one, and stays in reach otherwise. -/
theorem balanced_drop (h : c.Balanced) (id serial : UInt32) :
    (c.step (.drop id serial)).Balanced := by
  have hother : ∀ i s, (i, s) ≠ (id, serial) →
      ((i, s) ∈ c.handles.erase (id, serial) ↔ (i, s) ∈ c.handles) :=
    fun i s hne => List.mem_erase_of_ne hne
  rw [step, drop]
  split
  next hlast =>
    refine ⟨sound_abandon h.sound id serial,
      fun pair hpair => (spent_abandon _ _ _ _ _).mpr (h.spent pair hpair), h.unique,
      h.removed_issued, h.removed_once, fun i s => ?_, fun i s => ?_⟩
    · -- Out of reach or not, the entry keeps its slot.
      rw [← h.occupied_iff, occupant_abandon]
      split
      next heq =>
        rw [heq.1, heq.2.1, heq.2.2]
        exact iff_of_true (by simp) (by simp)
      next => rfl
    · change (c.table.abandon id serial).occupant i s = .reachable ↔ (i, s) ∈ c.issued ∧
        (i, s) ∉ c.removed ∧ (i, s) ∈ c.handles.erase (id, serial)
      rw [occupant_abandon]
      by_cases heq : (i, s) = (id, serial)
      · rw [Prod.mk.injEq] at heq
        rw [heq.1, heq.2]
        refine iff_of_false ?_ fun hand => hlast.2 hand.2.2
        by_cases ho : c.table.occupant id serial = .reachable <;> simp [ho]
      · rw [hother i s heq, ← h.reachable_iff, if_neg]
        exact fun hand => heq (Prod.ext hand.1 hand.2.1)
  -- A handle is left, so nothing changes for the table.
  next hmore =>
    refine ⟨h.sound, h.spent, h.unique, h.removed_issued, h.removed_once, h.occupied_iff,
      fun i s => ?_⟩
    have hmem : (i, s) ∈ c.handles.erase (id, serial) ↔ (i, s) ∈ c.handles := by
      by_cases heq : (i, s) = (id, serial)
      · rw [heq]
        refine ⟨List.mem_of_mem_erase, fun hheld => ?_⟩
        exact Decidable.of_not_not fun hnot => hmore ⟨hheld, hnot⟩
      · exact hother i s heq
    rw [hmem]
    exact h.reachable_iff i s

/-- The books balance after every request. -/
theorem balanced_step (h : c.Balanced) (r : Request) : (c.step r).Balanced := by
  cases r with
  | insert => exact balanced_insert h
  | mint => exact balanced_mint h
  | get id serial => exact balanced_get h id serial
  | remove id serial => exact balanced_remove h id serial
  | drop id serial => exact balanced_drop h id serial

/-- The books balance after every history. -/
theorem balanced_run (h : c.Balanced) (history : List Request) : (c.run history).Balanced := by
  induction history generalizing c with
  | nil => exact h
  | cons r rest ih => exact ih (balanced_step h r)

/-- The table after a request is the one that the operation of the table leaves behind. -/
theorem ages_step (h : c.Balanced) (r : Request) : c.table.Ages (c.step r).table := by
  cases r with
  | insert =>
      have hages := ages_insert h.sound.arranged
      rw [step]
      split
      next hi => rwa [hi] at hages
      next hi => rwa [hi] at hages
  | mint =>
      have hages := ages_mint h.sound.arranged
      rw [step]
      split
      next hm => rwa [hm] at hages
      next hm => rwa [hm] at hages
  | get id serial =>
      rw [step]
      split <;> exact .refl c.table
  | remove id serial =>
      have hages := ages_remove c.table id serial
      rw [step]
      split
      next hr => rwa [hr] at hages
      next hr => rwa [hr] at hages
  | drop id serial =>
      rw [step, drop]
      split
      next => exact ages_abandon c.table id serial
      next => exact .refl c.table

/-- In no history a slot goes back to an earlier generation. -/
theorem ages_run (h : c.Balanced) (history : List Request) :
    c.table.Ages (c.run history).table := by
  induction history generalizing c with
  | nil => exact .refl c.table
  | cons r rest ih => exact (ages_step h r).trans (ih (balanced_step h r))

/-- No request changes the limit. -/
theorem limit_step (h : c.Balanced) (r : Request) : (c.step r).table.limit = c.table.limit := by
  cases r with
  | insert =>
      rw [step]
      split
      next hi => exact (issues_insert h.sound hi).1.limit
      next hi => rw [(insert_error hi).2]
  | mint =>
      rw [step]
      split
      next hm => exact (issues_mint h.sound hm).1.limit
      next hm => rw [(mint_error hm).2]
  | get id serial =>
      rw [step]
      split <;> rfl
  | remove id serial =>
      have hlimit := limit_remove c.table id serial
      rw [step]
      split
      next hr => rwa [hr] at hlimit
      next hr => rwa [hr] at hlimit
  | drop id serial =>
      rw [step, drop]
      split
      next =>
        rcases abandon_cases c.table id serial with ⟨-, ha⟩ | ⟨-, ha⟩ <;> rw [ha]
        rfl
      next => rfl

/-- No history changes the limit. -/
theorem limit_run (h : c.Balanced) (history : List Request) :
    (c.run history).table.limit = c.table.limit := by
  induction history generalizing c with
  | nil => rfl
  | cons r rest ih => exact (ih (balanced_step h r)).trans (limit_step h r)

/-! ## The law of slots -/

/-- What can be relied on about a table with a limit, or without one, after a history. -/
structure TableLaw (limit : Option Nat) (history : List Request) (c : Custody) : Prop where
  /-- Slot zero is retired from the start, so it is neither free nor occupied. -/
  zero : c.table.Uses 0 .retired
  /-- Every slot is free, occupied or retired, and only one of them. -/
  unique_use : ∀ id, id.toNat < c.table.slots.length → ∃! use, c.table.Uses id use
  /-- Only slots are listed as free. -/
  listed : ∀ id ∈ c.table.free, c.table.Uses id .free
  /-- No slot has gone back to an earlier generation since any moment of the history. -/
  ages : ∀ before after, history = before ++ after →
    ((start limit).run before).table.Ages c.table
  /-- The number of entries is the number of occupied slots. -/
  counted : c.table.live = c.table.slots.countP Slot.isOccupied
  /-- It does not exceed the limit. -/
  limited : ∀ max, limit = some max → c.table.live ≤ max
  /-- No pair is given out twice. -/
  unique_pair : (c.issued ++ c.minted).Nodup
  /-- An entry is found exactly if its pair was issued and not removed and it has a handle. -/
  found_iff : ∀ id serial, c.table.resolves id serial = true ↔
    (id, serial) ∈ c.issued ∧ (id, serial) ∉ c.removed ∧ (id, serial) ∈ c.handles
  /-- A pair can be removed exactly if it was issued and not removed, with a handle to its
      entry or without one. -/
  removable_iff : ∀ id serial, (c.table.remove id serial).1 = true ↔
    (id, serial) ∈ c.issued ∧ (id, serial) ∉ c.removed
  /-- No pair is removed twice. -/
  removed_once : c.removed.Nodup
  /-- As long as there are slot numbers, an entry is refused at the limit and only there. -/
  refused_iff : c.table.HasNumber →
    ((∃ e, c.table.insert.1 = .error e) ↔ ∃ max, limit = some max ∧ max ≤ c.table.live)
  /-- An entry that is refused leaves the table as it is. -/
  refused : ∀ e, c.table.insert.1 = .error e → c.table.insert = (.error .systemLimit, c.table)

/-- After every history of a new table, its slots and its answers are in step with what was
    given out, removed and dropped. -/
theorem tableLaw (limit : Option Nat) (history : List Request) :
    ((start limit).run history).TableLaw limit history := by
  have h := balanced_run (balanced_start limit) history
  have hlimit : ((start limit).run history).table.limit = limit :=
    limit_run (balanced_start limit) history
  -- Generations only go up from any earlier moment, not only from the start.
  have hages : ∀ before after, history = before ++ after →
      ((start limit).run before).table.Ages ((start limit).run history).table := by
    rintro before after rfl
    have hbefore := balanced_run (balanced_start limit) before
    have hlater := ages_run hbefore after
    rwa [run_append]
  -- From here on only the balance counts, not how the table came about.
  generalize (start limit).run history = c at h hlimit hages
  have harranged := h.sound.arranged
  refine ⟨⟨fun hfree => (harranged.free_slot 0 hfree).1 rfl, harranged.zero⟩,
    fun id hid => ProcessTable.unique_use harranged hid, fun id hid => ?_, hages, h.sound.live_eq,
    fun max hmax => h.sound.live_le max (hlimit.trans hmax), h.unique, fun id serial => ?_,
    fun id serial => ?_, h.removed_once, fun hnumber => ?_, fun e he => ?_⟩
  · exact ⟨List.count_eq_one_of_mem harranged.free_nodup hid, (harranged.free_slot id hid).2⟩
  · rw [resolves, decide_eq_true_iff]
    exact h.reachable_iff id serial
  · rw [remove_fst_iff]
    exact h.occupied_iff id serial
  · rw [← hlimit]
    exact insert_error_iff hnumber
  · rcases hi : c.table.insert with ⟨r, table⟩
    rw [hi] at he
    change r = .error e at he
    subst he
    rcases insert_error hi with ⟨rfl, rfl⟩
    rfl

end Custody

end Actors
