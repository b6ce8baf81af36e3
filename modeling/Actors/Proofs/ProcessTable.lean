import Actors.ProcessTable

/-!
# The Slots of a Process Table

Every slot of a process table but slot zero is free, occupied or retired, and
nothing else. A slot that is free is listed once and holds nothing, one that is
retired has used up its generations, and the number of entries is the number
of occupied slots.

From this follows what a table is for. A slot in a generation is *spent* when
it has been given out, and spent pairs are never given out again: `insert` and
`mint` give out a pair that was not spent and make it spent, and `remove`
leaves the spent pairs as they are. That a freed slot goes up one generation
shows in the proof only here, in `spent_giveBack`.

A slot is taken in two moves, with the slot claimed in between. `Arranged`
therefore allows for one slot that is on its way.

## Main definitions

* `ProcessTable.Arranged`: Every slot but a claimed one is free, occupied or
  retired.
* `ProcessTable.Sound`: The same without exception, and the entries are counted.
* `ProcessTable.Spent`: A slot in a generation that has been given out.
* `ProcessTable.Issues`: A pair is given out.

## Theorems

* `sound_new`: A new table is sound.
* `issues_insert`, `issues_mint`: A pair that is given out is a new one.
* `sound_remove`, `spent_remove`, `occupant_remove`: What freeing a slot does.
* `sound_abandon`, `spent_abandon`, `occupant_abandon`: What letting go of an entry does.
* `mem_occupied_iff`: The list of the entries in reach.
* `pairwise_occupied`, `occupied_remove`: Its order, also after a slot was freed.
-/

namespace Actors

/-- Whether there is an entry in a slot. -/
def Slot.isOccupied (s : Slot) : Bool := s.occupant ≠ .none

namespace ProcessTable

/-- Every slot is free, occupied, retired, or the one that was just claimed. -/
structure Arranged (t : ProcessTable) (claimed : Option UInt32) : Prop where
  /-- Slot zero is retired from the start. -/
  zero : t.slot? 0 = some ⟨maxWord, .none⟩
  /-- Slots have numbers of 32 bits. -/
  bound : t.slots.length ≤ UInt32.size
  /-- A free slot is listed once. -/
  free_nodup : t.free.Nodup
  /-- A free slot holds nothing. -/
  free_slot : ∀ id ∈ t.free, id ≠ 0 ∧ ∃ serial, t.slot? id = some ⟨serial, .none⟩
  /-- A slot that holds nothing and is not free has used up its generations. -/
  retired : ∀ id slot, t.slot? id = some slot → slot.occupant = .none → id ∉ t.free →
    claimed ≠ some id → slot.serial = maxWord

/-- Every slot is free, occupied or retired, and the entries are counted. -/
structure Sound (t : ProcessTable) : Prop where
  arranged : t.Arranged none
  live_eq : t.live = t.slots.countP Slot.isOccupied
  live_le : ∀ limit, t.limit = some limit → t.live ≤ limit

/-- A slot in a generation that has been given out. -/
def Spent (t : ProcessTable) (id serial : UInt32) : Prop :=
  ∃ slot, t.slot? id = some slot ∧ (serial < slot.serial ∨ serial = slot.serial ∧ id ∉ t.free)

/-! ## Single slots -/

/-- A slot that is there is one of the table's. -/
theorem lt_of_slot? {t : ProcessTable} {id : UInt32} {slot : Slot} (h : t.slot? id = some slot) :
    id.toNat < t.slots.length := (List.getElem?_eq_some_iff.mp h).1

/-- Writing one slot leaves the others alone. Slot numbers are words, so two that name one position
    are one. -/
theorem slot?_setSlot {t : ProcessTable} {id : UInt32} {slot : Slot}
    (h : t.slot? id = some slot) (new : Slot) (i : UInt32) :
    (t.setSlot id new).slot? i = if i = id then some new else t.slot? i := by
  have hlt := lt_of_slot? h
  simp only [slot?, setSlot, List.getElem?_set]
  by_cases hi : i = id
  · rw [if_pos hi, hi, if_pos rfl, if_pos hlt]
  · rw [if_neg hi, if_neg (fun heq => hi (UInt32.toNat_inj.mp heq.symm))]

/-- The generation of a slot that is there can be read off it. -/
theorem serialOf_eq {t : ProcessTable} {id : UInt32} {slot : Slot}
    (h : t.slot? id = some slot) : t.serialOf id = slot.serial := by
  rw [serialOf, h, Option.getD_some]

/-- Writing a slot changes the number of entries by what goes out and what comes in. It is stated as
    an equation of sums, since the entries are natural numbers and one of them may go. -/
theorem countP_setSlot {t : ProcessTable} {id : UInt32} {slot : Slot}
    (h : t.slot? id = some slot) (new : Slot) :
    (t.setSlot id new).slots.countP Slot.isOccupied + (if slot.isOccupied then 1 else 0) =
      t.slots.countP Slot.isOccupied + (if new.isOccupied then 1 else 0) := by
  rcases List.getElem?_eq_some_iff.mp h with ⟨hlt, hget⟩
  -- The old entry of the slot is among those counted.
  have hpos : (if slot.isOccupied then 1 else 0) ≤ t.slots.countP Slot.isOccupied := by
    split
    next hocc => exact List.countP_pos_iff.mpr ⟨slot, List.mem_of_getElem? h, hocc⟩
    next => exact Nat.zero_le _
  simp only [setSlot]
  rw [List.countP_set hlt, hget]
  omega

/-- Who asks for a slot in another generation finds nobody. -/
theorem occupant_eq {t : ProcessTable} {id serial : UInt32} {slot : Slot}
    (h : t.slot? id = some slot) :
    t.occupant id serial = if slot.serial = serial then slot.occupant else .none := by
  rw [occupant, h]

/-- A slot that is occupied is not among the free ones, so its pair is spent. -/
theorem spent_of_occupant {t : ProcessTable} {c : Option UInt32} (h : t.Arranged c)
    {id serial : UInt32} (ho : t.occupant id serial ≠ .none) : t.Spent id serial := by
  rcases hs : t.slot? id with _ | slot
  · rw [occupant, hs] at ho
    exact absurd rfl ho
  · rw [occupant_eq hs] at ho
    split at ho
    next heq =>
      refine ⟨slot, hs, Or.inr ⟨heq.symm, fun hfree => ?_⟩⟩
      rcases (h.free_slot id hfree).2 with ⟨serial', hslot⟩
      rw [hs, Option.some.injEq] at hslot
      rw [hslot] at ho
      exact ho rfl
    next => exact absurd rfl ho

/-- With a generation of a slot all earlier ones are spent. -/
theorem Spent.of_le {t : ProcessTable} {id serial s : UInt32} (h : t.Spent id serial)
    (hs : s ≤ serial) : t.Spent id s := by
  rcases h with ⟨slot, hslot, hlt | ⟨heq, hfree⟩⟩
  · exact ⟨slot, hslot, Or.inl (UInt32.lt_of_le_of_lt hs hlt)⟩
  · rcases UInt32.lt_or_eq_of_le (heq ▸ hs) with hlt | heq'
    · exact ⟨slot, hslot, Or.inl hlt⟩
    · exact ⟨slot, hslot, Or.inr ⟨heq', hfree⟩⟩

/-- Beyond the generation a slot is in nothing is spent. -/
theorem Spent.le_of_occupant {t : ProcessTable} {id serial s : UInt32} (h : t.Spent id s)
    (ho : t.occupant id serial ≠ .none) : s ≤ serial := by
  rcases h with ⟨slot, hslot, hs⟩
  rw [occupant_eq hslot] at ho
  split at ho
  next heq =>
    rw [← heq]
    rcases hs with hlt | ⟨rfl, -⟩
    · exact UInt32.le_of_lt hlt
    · exact UInt32.le_refl _
  next => exact absurd rfl ho

/-- Slot zero is retired from the start. -/
theorem Sound.spent_zero {t : ProcessTable} (h : t.Sound) (serial : UInt32) :
    t.Spent 0 serial := by
  have hlast : t.Spent 0 maxWord :=
    ⟨_, h.arranged.zero, Or.inr ⟨rfl, fun hfree => (h.arranged.free_slot 0 hfree).1 rfl⟩⟩
  refine hlast.of_le ?_
  rw [UInt32.le_iff_toNat_le]
  exact Nat.le_of_lt_succ serial.toNat_lt

/-! ## A slot is claimed -/

/-- A slot is claimed from the free ones as long as there are any, and only then at the end of the
    table. It fails when both are used up. -/
theorem claim_cases (t : ProcessTable) :
    (∃ id rest, t.free = id :: rest ∧ t.claim = (.ok id, { t with free := rest })) ∨
    (t.free = [] ∧ maxWord.toNat < t.slots.length ∧ t.claim = (.error .systemLimit, t)) ∨
    (t.free = [] ∧ t.slots.length ≤ maxWord.toNat ∧
      t.claim = (.ok t.slots.length.toUInt32, { t with slots := t.slots ++ [⟨0, .none⟩] })) := by
  rcases hfree : t.free with _ | ⟨id, rest⟩
  · by_cases hlen : maxWord.toNat < t.slots.length
    · refine Or.inr (Or.inl ⟨rfl, hlen, ?_⟩)
      simp only [claim, hfree, if_pos hlen]
    · refine Or.inr (Or.inr ⟨rfl, Nat.le_of_not_lt hlen, ?_⟩)
      simp only [claim, hfree, if_neg hlen]
  · refine Or.inl ⟨id, rest, rfl, ?_⟩
    simp only [claim, hfree]

/-- What holds of a table from which a slot was claimed. -/
structure Claims (t t' : ProcessTable) (id serial : UInt32) : Prop where
  arranged : t'.Arranged (some id)
  nonzero : id ≠ 0
  slot : t'.slot? id = some ⟨serial, .none⟩
  not_free : id ∉ t'.free
  fresh : ¬ t.Spent id serial
  spent : ∀ i s, t'.Spent i s ↔ t.Spent i s ∨ (i = id ∧ s = serial)
  occupant : ∀ i s, t'.occupant i s = t.occupant i s
  count : t'.slots.countP Slot.isOccupied = t.slots.countP Slot.isOccupied
  live : t'.live = t.live
  limit : t'.limit = t.limit

/-- A free slot is claimed in the generation it was given back in. -/
theorem claims_free {t : ProcessTable} (h : t.Arranged none) {id : UInt32} {rest : List UInt32}
    (hfree : t.free = id :: rest) :
    ∃ serial, Claims t { t with free := rest } id serial := by
  have hmem : id ∈ t.free := by rw [hfree]; exact List.mem_cons_self
  have hnodup := h.free_nodup
  rw [hfree, List.nodup_cons] at hnodup
  rcases h.free_slot id hmem with ⟨hzero, serial, hslot⟩
  have hsub : ∀ i, i ∈ rest → i ∈ t.free := fun i hi => hfree ▸ List.mem_cons_of_mem id hi
  refine ⟨serial, ?_, hzero, hslot, hnodup.1, ?_, ?_, fun _ _ => rfl, rfl, rfl, rfl⟩
  · refine ⟨h.zero, h.bound, hnodup.2, fun i hi => h.free_slot i (hsub i hi), ?_⟩
    intro i slot hs ho hi hclaimed
    -- Only the slot that was claimed left the list.
    refine h.retired i slot hs ho (fun hold => ?_) (by simp)
    rw [hfree, List.mem_cons] at hold
    rcases hold with rfl | hold
    · exact hclaimed rfl
    · exact hi hold
  · -- A free slot has given out its earlier generations only.
    rintro ⟨slot, hs, hlt | ⟨-, hnot⟩⟩
    · rw [hslot, Option.some.injEq] at hs
      rw [← hs] at hlt
      exact absurd hlt (UInt32.lt_irrefl serial)
    · exact hnot hmem
  · intro i s
    -- Both ways: what is spent afterwards was spent, or is the pair itself.
    constructor
    · rintro ⟨slot, hs, hlt | ⟨heq, hnot⟩⟩
      · exact Or.inl ⟨slot, hs, Or.inl hlt⟩
      · by_cases hi : i = id
        · rw [hi] at hs
          have hs' := hslot.symm.trans hs
          rw [Option.some.injEq] at hs'
          rw [← hs'] at heq
          exact Or.inr ⟨hi, heq⟩
        · refine Or.inl ⟨slot, hs, Or.inr ⟨heq, fun hold => ?_⟩⟩
          rw [hfree, List.mem_cons] at hold
          exact hold.elim hi hnot
    · rintro (⟨slot, hs, hlt | ⟨heq, hnot⟩⟩ | ⟨rfl, rfl⟩)
      · exact ⟨slot, hs, Or.inl hlt⟩
      · exact ⟨slot, hs, Or.inr ⟨heq, fun hi => hnot (hsub i hi)⟩⟩
      · exact ⟨_, hslot, Or.inr ⟨rfl, hnodup.1⟩⟩

/-- The slot that a new slot number names is the one at the end. -/
theorem slot?_append {t : ProcessTable} (hlen : t.slots.length ≤ maxWord.toNat) (i : UInt32) :
    ({ t with slots := t.slots ++ [⟨0, .none⟩] } : ProcessTable).slot? i =
      if i = t.slots.length.toUInt32 then some ⟨0, .none⟩ else t.slot? i := by
  have hnat : t.slots.length.toUInt32.toNat = t.slots.length :=
    UInt32.toNat_ofNat_of_lt' (Nat.lt_of_le_of_lt hlen (by decide))
  simp only [slot?]
  by_cases hi : i = t.slots.length.toUInt32
  · rw [if_pos hi, hi, hnat, List.getElem?_append_right (Nat.le_refl _), Nat.sub_self]
    rfl
  · rw [if_neg hi]
    have hne : i.toNat ≠ t.slots.length := by
      rw [← hnat]
      exact fun heq => hi (UInt32.toNat_inj.mp heq)
    by_cases hlt : i.toNat < t.slots.length
    · rw [List.getElem?_append_left hlt]
    · -- Beyond the new slot there is nothing in either table.
      rw [List.getElem?_eq_none (by simp; omega), List.getElem?_eq_none (by omega)]

/-- A new slot is claimed in generation zero. The number is a word, so the table has to be short
    enough for it to be the length. -/
theorem claims_new {t : ProcessTable} (h : t.Arranged none) (hfree : t.free = [])
    (hlen : t.slots.length ≤ maxWord.toNat) :
    Claims t { t with slots := t.slots ++ [⟨0, .none⟩] } t.slots.length.toUInt32 0 := by
  have hnat : t.slots.length.toUInt32.toNat = t.slots.length :=
    UInt32.toNat_ofNat_of_lt' (Nat.lt_of_le_of_lt hlen (by decide))
  have hslot := slot?_append hlen
  -- The table ends before the new slot, so nothing of it was given out.
  have hnone : t.slot? t.slots.length.toUInt32 = none := by
    rw [slot?, hnat]
    exact List.getElem?_eq_none (Nat.le_refl _)
  have hzero : t.slots.length.toUInt32 ≠ 0 := by
    intro heq
    rw [heq, h.zero] at hnone
    exact absurd hnone (by simp)
  have hspent : ∀ s, ¬ t.Spent t.slots.length.toUInt32 s := by
    rintro s ⟨slot, hs, -⟩
    rw [hnone] at hs
    exact absurd hs (by simp)
  refine ⟨?_, hzero, by rw [hslot, if_pos rfl], by simp [hfree], hspent 0, ?_, ?_, ?_, rfl, rfl⟩
  · refine ⟨by rw [hslot, if_neg hzero.symm, h.zero], ?_, h.free_nodup, ?_, ?_⟩
    · simp only [List.length_append, List.length_singleton]
      have hword : UInt32.size = maxWord.toNat + 1 := rfl
      omega
    · intro i hi
      rw [hfree] at hi
      exact absurd hi List.not_mem_nil
    · -- Of the new slot generation zero is spent now, and nothing else.
      intro i slot hs ho hi hclaimed
      rw [hslot, if_neg (fun heq => hclaimed (congrArg some heq.symm))] at hs
      exact h.retired i slot hs ho hi (by simp)
  · intro i s
    by_cases hi : i = t.slots.length.toUInt32
    · rw [hi]
      constructor
      · rintro ⟨slot, hs, hlt | ⟨heq, -⟩⟩
        · rw [hslot, if_pos rfl, Option.some.injEq] at hs
          rw [← hs] at hlt
          exact absurd hlt (UInt32.not_lt_zero)
        · rw [hslot, if_pos rfl, Option.some.injEq] at hs
          rw [← hs] at heq
          exact Or.inr ⟨rfl, heq⟩
      · rintro (hold | ⟨-, rfl⟩)
        · exact absurd hold (hspent s)
        · exact ⟨_, by rw [hslot, if_pos rfl], Or.inr ⟨rfl, by simp [hfree]⟩⟩
    · -- All other slots are what they were.
      simp only [Spent, hslot, hi, if_false, false_and, or_false]
  · intro i s
    by_cases hi : i = t.slots.length.toUInt32
    · rw [hi, occupant, hslot, if_pos rfl, occupant, hnone]
      simp only [ite_self]
    · rw [occupant, hslot, if_neg hi, occupant]
  · simp [Slot.isOccupied]

/-- A claim takes a pair that was not spent. -/
theorem claims_claim {t t' : ProcessTable} (h : t.Arranged none) {id : UInt32}
    (hc : t.claim = (.ok id, t')) : ∃ serial, Claims t t' id serial := by
  rcases claim_cases t with ⟨id', rest, hfree, hclaim⟩ | ⟨-, -, hclaim⟩ | ⟨hfree, hlen, hclaim⟩
  · rw [hclaim, Prod.mk.injEq, Except.ok.injEq] at hc
    rw [← hc.1, ← hc.2]
    exact claims_free h hfree
  · exact absurd (hclaim.symm.trans hc) (by simp)
  · rw [hclaim, Prod.mk.injEq, Except.ok.injEq] at hc
    rw [← hc.1, ← hc.2]
    exact ⟨0, claims_new h hfree hlen⟩

/-- A claim that fails leaves the table as it was. -/
theorem claim_error {t t' : ProcessTable} {e : Failure} (hc : t.claim = (.error e, t')) :
    e = .systemLimit ∧ t' = t := by
  rcases claim_cases t with ⟨id, rest, -, hclaim⟩ | ⟨-, -, hclaim⟩ | ⟨-, -, hclaim⟩
  · exact absurd (hclaim.symm.trans hc) (by simp)
  · rw [hclaim, Prod.mk.injEq, Except.error.injEq] at hc
    exact ⟨hc.1.symm, hc.2.symm⟩
  · exact absurd (hclaim.symm.trans hc) (by simp)

/-! ## A slot is given back -/

/-- The generation in which a slot is given back. -/
def nextSerial (serial : UInt32) : UInt32 := if serial = maxWord then serial else serial + 1

/-- Below the last generation the next one is one more, without wrapping. -/
theorem toNat_nextSerial {serial : UInt32} (h : serial ≠ maxWord) :
    (nextSerial serial).toNat = serial.toNat + 1 := by
  have hne : serial.toNat ≠ maxWord.toNat := fun heq => h (UInt32.toNat_inj.mp heq)
  have hlt := serial.toNat_lt
  have hword : maxWord.toNat = 2 ^ 32 - 1 := rfl
  rw [nextSerial, if_neg h, UInt32.toNat_add]
  change (serial.toNat + 1) % 2 ^ 32 = serial.toNat + 1
  omega

/-- A slot is given back in its next generation. After the last generation it is emptied, but does
    not get back to the free ones. -/
theorem giveBack_eq {t : ProcessTable} {id : UInt32} {slot : Slot} (h : t.slot? id = some slot) :
    t.giveBack id = { t.setSlot id ⟨nextSerial slot.serial, .none⟩ with
      free := if slot.serial = maxWord then t.free else id :: t.free } := by
  rw [giveBack, serialOf_eq h, nextSerial]
  by_cases hmax : slot.serial = maxWord
  · simp only [if_pos hmax]
    rfl
  · simp only [if_neg hmax]

/-- Giving a slot back does not count the entries. -/
theorem live_giveBack {t : ProcessTable} {id : UInt32} {slot : Slot} (h : t.slot? id = some slot) :
    (t.giveBack id).live = t.live := by
  rw [giveBack_eq h]
  rfl

/-- Nor does it touch the limit. -/
theorem limit_giveBack {t : ProcessTable} {id : UInt32} {slot : Slot} (h : t.slot? id = some slot) :
    (t.giveBack id).limit = t.limit := by
  rw [giveBack_eq h]
  rfl

/-- Only the slot that is given back changes. -/
theorem slot?_giveBack {t : ProcessTable} {id : UInt32} {slot : Slot}
    (h : t.slot? id = some slot) (i : UInt32) :
    (t.giveBack id).slot? i =
      if i = id then some ⟨nextSerial slot.serial, .none⟩ else t.slot? i := by
  rw [giveBack_eq h]
  exact slot?_setSlot h _ i

/-- Nobody is in the slot any more, and the others are where they were. -/
theorem occupant_giveBack {t : ProcessTable} {id : UInt32} {slot : Slot}
    (h : t.slot? id = some slot) (i s : UInt32) :
    (t.giveBack id).occupant i s =
      if i = id ∧ s = slot.serial then .none else t.occupant i s := by
  by_cases hi : i = id
  · rw [occupant, slot?_giveBack h, if_pos hi, hi, occupant_eq h]
    by_cases hs : s = slot.serial
    · simp only [hs, and_self, if_true, ite_self]
    · simp only [hs, and_false, ite_self, if_neg (Ne.symm hs)]
  · rw [occupant, slot?_giveBack h, if_neg hi, if_neg (fun hc => hi hc.1), occupant]

/-- Freeing a slot changes nothing about what was given out: the generation it
    had is behind it, or it is retired. -/
theorem spent_giveBack {t : ProcessTable} {id : UInt32} {slot : Slot}
    (h : t.slot? id = some slot) (hfree : id ∉ t.free) (i s : UInt32) :
    (t.giveBack id).Spent i s ↔ t.Spent i s := by
  have hlist : (t.giveBack id).free = if slot.serial = maxWord then t.free else id :: t.free := by
    rw [giveBack_eq h]
  by_cases hi : i = id
  · rw [hi]
    simp only [Spent, slot?_giveBack h, if_true, h, Option.some.injEq, exists_eq_left', hlist]
    by_cases hmax : slot.serial = maxWord
    · simp only [nextSerial, if_pos hmax]
    · simp only [if_neg hmax, List.mem_cons_self, not_true_eq_false, and_false, or_false, hfree,
        not_false_eq_true, and_true]
      -- What was at or below the old generation is below the next one.
      have hnext := toNat_nextSerial hmax
      rw [UInt32.lt_iff_toNat_lt, UInt32.lt_iff_toNat_lt, ← UInt32.toNat_inj]
      omega
  · have hmem : i ∈ (t.giveBack id).free ↔ i ∈ t.free := by
      rw [hlist]
      split
      · rfl
      · rw [List.mem_cons, or_iff_right hi]
    simp only [Spent, slot?_giveBack h, if_neg hi, hmem]

/-- A slot that is given back is free, or retired if it had its last generation. So nothing is left
    claimed. -/
theorem arranged_giveBack {t : ProcessTable} {c : Option UInt32} {id : UInt32} {slot : Slot}
    (h : t.Arranged c) (hc : c = none ∨ c = some id) (hs : t.slot? id = some slot) (hid : id ≠ 0)
    (hfree : id ∉ t.free) : (t.giveBack id).Arranged none := by
  have hlist : (t.giveBack id).free = if slot.serial = maxWord then t.free else id :: t.free := by
    rw [giveBack_eq hs]
  refine ⟨?_, ?_, ?_, ?_, ?_⟩
  · rw [slot?_giveBack hs, if_neg hid.symm, h.zero]
  · rw [giveBack_eq hs]
    simp only [setSlot, List.length_set]
    exact h.bound
  · rw [hlist]
    split
    · exact h.free_nodup
    · -- The slot comes to the list only if it has a generation left.
      exact List.nodup_cons.mpr ⟨hfree, h.free_nodup⟩
  · intro i hi
    rw [slot?_giveBack hs]
    by_cases heq : i = id
    · exact ⟨heq ▸ hid, _, if_pos heq⟩
    · rw [if_neg heq]
      refine h.free_slot i ?_
      rw [hlist] at hi
      split at hi
      · exact hi
      · exact (List.mem_cons.mp hi).resolve_left heq
  · intro i slot' hslot ho hi _
    rw [slot?_giveBack hs] at hslot
    rw [hlist] at hi
    split at hslot
    next heq =>
      -- Only a slot that is at its last generation is kept off the list.
      rw [Option.some.injEq] at hslot
      rw [← hslot, nextSerial]
      split at hi
      next hmax => rw [if_pos hmax, hmax]
      next => exact absurd (heq ▸ List.mem_cons_self) hi
    next hne =>
      refine h.retired i slot' hslot ho (fun hmem => ?_) ?_
      · split at hi
        · exact hi hmem
        · exact hi (List.mem_cons_of_mem id hmem)
      · rcases hc with rfl | rfl
        · simp
        · exact fun heq => hne (Option.some.injEq _ _ ▸ heq).symm

/-- The entry in the slot, if there was one, is missing from the count. -/
theorem count_giveBack {t : ProcessTable} {id : UInt32} {slot : Slot}
    (h : t.slot? id = some slot) :
    (t.giveBack id).slots.countP Slot.isOccupied + (if slot.isOccupied then 1 else 0) =
      t.slots.countP Slot.isOccupied := by
  have hcount := countP_setSlot h ⟨nextSerial slot.serial, .none⟩
  rw [giveBack_eq h]
  simpa [Slot.isOccupied] using hcount

/-! ## The operations -/

/-- A new table has nothing but slot zero, which is retired from the start. -/
theorem sound_new (limit : Option Nat) : (new limit).Sound where
  arranged :=
    { zero := rfl
      bound := show 1 ≤ UInt32.size by decide
      free_nodup := List.nodup_nil
      free_slot := fun id h => absurd h List.not_mem_nil
      retired := by
        intro id slot hs _ _ _
        have hmem := List.mem_of_getElem? hs
        rw [new, List.mem_singleton] at hmem
        rw [hmem] }
  live_eq := rfl
  live_le := fun _ _ => Nat.zero_le _

/-- A pair is given out: it was not spent before, and now it is. -/
structure Issues (t t' : ProcessTable) (id serial : UInt32) : Prop where
  sound : t'.Sound
  fresh : ¬ t.Spent id serial
  spent : ∀ i s, t'.Spent i s ↔ t.Spent i s ∨ (i = id ∧ s = serial)
  limit : t'.limit = t.limit

/-- A pair that is minted is spent from then on, and no entry was made for it. -/
theorem issues_mint {t t' : ProcessTable} (h : t.Sound) {id serial : UInt32}
    (hm : t.mint = (.ok (id, serial), t')) :
    Issues t t' id serial ∧ ∀ i s, t'.occupant i s = t.occupant i s := by
  rw [mint] at hm
  split at hm
  next => exact absurd hm (by simp)
  next id' t₁ hclaim =>
    rcases claims_claim h.arranged hclaim with ⟨serial', hc⟩
    have hserial : t₁.serialOf id' = serial' := serialOf_eq hc.slot
    rw [Prod.mk.injEq, Except.ok.injEq, Prod.mk.injEq, hserial] at hm
    rcases hm with ⟨⟨rfl, rfl⟩, rfl⟩
    have hcount := count_giveBack hc.slot
    have hlive := live_giveBack hc.slot
    have hlimit := limit_giveBack hc.slot
    -- A pair is minted by a claim that is given back at once.
    refine ⟨⟨⟨arranged_giveBack hc.arranged (Or.inr rfl) hc.slot hc.nonzero hc.not_free, ?_, ?_⟩,
      hc.fresh, ?_, hlimit.trans hc.limit⟩, ?_⟩
    · rw [hlive, hc.live, h.live_eq, ← hc.count, ← hcount]
      rfl
    · intro limit hlim
      rw [hlive, hc.live]
      exact h.live_le limit (by rw [← hc.limit, ← hlimit, hlim])
    · intro i s
      rw [spent_giveBack hc.slot hc.not_free, hc.spent]
    · intro i s
      rw [occupant_giveBack hc.slot, hc.occupant]
      split
      next heq =>
        -- The pair was not spent, so nothing was there to begin with.
        rcases Decidable.em (t.occupant i s = .none) with hnone | hocc
        · exact hnone.symm
        · rw [heq.1, heq.2] at hocc
          exact absurd (spent_of_occupant h.arranged hocc) hc.fresh
      next => rfl

/-- A mint that fails leaves the table as it was. -/
theorem mint_error {t t' : ProcessTable} {e : Failure} (hm : t.mint = (.error e, t')) :
    e = .systemLimit ∧ t' = t := by
  rw [mint] at hm
  split at hm
  next t₁ hclaim =>
    rw [Prod.mk.injEq, Except.error.injEq] at hm
    rw [← hm.1, ← hm.2]
    exact claim_error hclaim
  next => exact absurd hm (by simp)

/-- An entry moves into a claimed slot, or an entry in a slot changes. -/
theorem arranged_setSlot {t : ProcessTable} {c : Option UInt32} {id serial : UInt32}
    {o o' : Occupant} (h : t.Arranged c) (hc : c = none ∨ c = some id)
    (hs : t.slot? id = some ⟨serial, o⟩) (hid : id ≠ 0) (hfree : id ∉ t.free) (ho' : o' ≠ .none) :
    (t.setSlot id ⟨serial, o'⟩).Arranged none := by
  have hslot := slot?_setSlot hs ⟨serial, o'⟩
  refine ⟨by rw [hslot, if_neg hid.symm, h.zero], ?_, h.free_nodup, ?_, ?_⟩
  · simp only [setSlot, List.length_set]
    exact h.bound
  · intro i hi
    have hne : i ≠ id := fun heq => hfree (heq ▸ hi)
    rw [hslot, if_neg hne]
    exact h.free_slot i hi
  · intro i slot hget ho hi _
    rw [hslot] at hget
    split at hget
    next =>
      rw [Option.some.injEq] at hget
      rw [← hget] at ho
      exact absurd ho ho'
    next hne =>
      refine h.retired i slot hget ho hi ?_
      -- If the slot was the claimed one it is occupied now, so no slot is left claimed.
      rcases hc with rfl | rfl
      · simp
      · exact fun heq => hne (Option.some.inj heq).symm

/-- Who is in a slot does not count for whether it was given out. -/
theorem spent_setSlot {t : ProcessTable} {id serial : UInt32} {o o' : Occupant}
    (hs : t.slot? id = some ⟨serial, o⟩) (i s : UInt32) :
    (t.setSlot id ⟨serial, o'⟩).Spent i s ↔ t.Spent i s := by
  have hslot := slot?_setSlot hs ⟨serial, o'⟩
  by_cases hi : i = id
  · rw [hi]
    simp only [Spent, hslot, if_true, hs, Option.some.injEq, exists_eq_left']
    rfl
  · simp only [Spent, hslot, if_neg hi]
    rfl

/-- The entry is found under its pair, and the other entries under theirs. -/
theorem occupant_setSlot {t : ProcessTable} {id serial : UInt32} {o o' : Occupant}
    (hs : t.slot? id = some ⟨serial, o⟩) (i s : UInt32) :
    (t.setSlot id ⟨serial, o'⟩).occupant i s =
      if i = id ∧ s = serial then o' else t.occupant i s := by
  have hslot := slot?_setSlot hs ⟨serial, o'⟩
  by_cases hi : i = id
  · rw [occupant, hslot, if_pos hi, hi]
    by_cases hserial : s = serial
    · simp only [hserial, if_true, and_self]
    · -- Another generation of the slot held nothing before, either.
      simp only [hserial, if_neg (Ne.symm hserial), and_false, if_false]
      rw [occupant_eq hs, if_neg (Ne.symm hserial)]
  · rw [occupant, hslot, if_neg hi, if_neg (fun hc => hi hc.1), occupant]

/-- An entry gets a pair that was not spent, and is found under it. -/
theorem issues_insert {t t' : ProcessTable} (h : t.Sound) {id serial : UInt32}
    (hi : t.insert = (.ok (id, serial), t')) :
    Issues t t' id serial ∧
      ∀ i s, t'.occupant i s = if i = id ∧ s = serial then .reachable else t.occupant i s := by
  rw [insert] at hi
  split at hi
  next => exact absurd hi (by simp)
  next hfull =>
    split at hi
    next => exact absurd hi (by simp)
    next id' t₁ hclaim =>
      rcases claims_claim h.arranged hclaim with ⟨serial', hc⟩
      have hserial : t₁.serialOf id' = serial' := serialOf_eq hc.slot
      rw [Prod.mk.injEq, Except.ok.injEq, Prod.mk.injEq, hserial] at hi
      rcases hi with ⟨⟨rfl, rfl⟩, rfl⟩
      have hcount := countP_setSlot hc.slot ⟨serial', .reachable⟩
      have hone : (t₁.setSlot id' ⟨serial', .reachable⟩).slots.countP Slot.isOccupied =
          t₁.slots.countP Slot.isOccupied + 1 := by simpa [Slot.isOccupied] using hcount
      have harranged : (t₁.setSlot id' ⟨serial', .reachable⟩).Arranged none :=
        arranged_setSlot hc.arranged (Or.inr rfl) hc.slot hc.nonzero hc.not_free (by simp)
      refine ⟨⟨⟨⟨harranged.zero, harranged.bound, harranged.free_nodup, harranged.free_slot,
        harranged.retired⟩, ?_, ?_⟩, hc.fresh, ?_, hc.limit⟩, ?_⟩
      · change t₁.live + 1 = _
        rw [hone, hc.live, h.live_eq, ← hc.count]
      · intro limit hlim
        change t₁.live + 1 ≤ limit
        have hlim' : t.limit = some limit := hc.limit ▸ hlim
        -- There was room for one more.
        rw [isFull, hlim', decide_eq_true_iff] at hfull
        rw [hc.live]
        omega
      · intro i s
        rw [← hc.spent]
        exact spent_setSlot hc.slot i s
      · intro i s
        rw [← hc.occupant]
        exact occupant_setSlot hc.slot i s

/-- An insertion that fails leaves the table as it was, be it for the limit or for want of slots. -/
theorem insert_error {t t' : ProcessTable} {e : Failure} (hi : t.insert = (.error e, t')) :
    e = .systemLimit ∧ t' = t := by
  rw [insert] at hi
  split at hi
  next =>
    rw [Prod.mk.injEq, Except.error.injEq] at hi
    exact ⟨hi.1.symm, hi.2.symm⟩
  next =>
    split at hi
    next t₁ hclaim =>
      rw [Prod.mk.injEq, Except.error.injEq] at hi
      rw [← hi.1, ← hi.2]
      exact claim_error hclaim
    next => exact absurd hi (by simp)

/-! ## An entry is removed -/

/-- Removing what is not there changes nothing, and removing an entry gives its
    slot back. -/
theorem remove_cases (t : ProcessTable) (id serial : UInt32) :
    (t.occupant id serial = .none ∧ t.remove id serial = (false, t)) ∨
    ∃ slot, t.slot? id = some slot ∧ slot.serial = serial ∧ slot.occupant ≠ .none ∧
      t.remove id serial = (true, { t with live := t.live - 1 }.giveBack id) := by
  by_cases ho : t.occupant id serial = .none
  · exact Or.inl ⟨ho, by rw [remove, if_pos ho]⟩
  · refine Or.inr ?_
    rcases hs : t.slot? id with _ | slot
    · rw [occupant, hs] at ho
      exact absurd rfl ho
    · have ho' := ho
      rw [occupant_eq hs] at ho'
      split at ho'
      next hserial => exact ⟨slot, rfl, hserial, ho', by rw [remove, if_neg ho]⟩
      next => exact absurd rfl ho'

/-- An occupied slot is not among the free ones, which are empty. -/
theorem not_free_of_occupied {t : ProcessTable} {c : Option UInt32} (h : t.Arranged c)
    {id : UInt32} {slot : Slot} (hs : t.slot? id = some slot) (ho : slot.occupant ≠ .none) :
    id ∉ t.free := by
  intro hfree
  rcases (h.free_slot id hfree).2 with ⟨serial, hslot⟩
  rw [hs, Option.some.injEq] at hslot
  rw [hslot] at ho
  exact ho rfl

/-- Slot zero is never occupied. -/
theorem ne_zero_of_occupied {t : ProcessTable} {c : Option UInt32} (h : t.Arranged c)
    {id : UInt32} {slot : Slot} (hs : t.slot? id = some slot) (ho : slot.occupant ≠ .none) :
    id ≠ 0 := by
  intro hid
  rw [hid, h.zero, Option.some.injEq] at hs
  rw [← hs] at ho
  exact ho rfl

/-- Removing keeps the count and the limit: there is one entry less, and it was counted. -/
theorem sound_remove {t : ProcessTable} (h : t.Sound) (id serial : UInt32) :
    (t.remove id serial).2.Sound := by
  rcases remove_cases t id serial with ⟨-, hr⟩ | ⟨slot, hs, -, ho, hr⟩
  · rwa [hr]
  · rw [hr]
    have hs' : ({ t with live := t.live - 1 } : ProcessTable).slot? id = some slot := hs
    have harr : ({ t with live := t.live - 1 } : ProcessTable).Arranged none :=
      ⟨h.arranged.zero, h.arranged.bound, h.arranged.free_nodup, h.arranged.free_slot,
        h.arranged.retired⟩
    have hcount := count_giveBack hs'
    have hocc : slot.isOccupied = true := by simpa [Slot.isOccupied] using ho
    rw [if_pos hocc] at hcount
    have hlive : (({ t with live := t.live - 1 } : ProcessTable).giveBack id).live = t.live - 1 :=
      live_giveBack hs'
    have hlimit : (({ t with live := t.live - 1 } : ProcessTable).giveBack id).limit = t.limit :=
      limit_giveBack hs'
    -- The entry was counted, so there was one to take off.
    refine ⟨arranged_giveBack harr (Or.inl rfl) hs' (ne_zero_of_occupied h.arranged hs ho)
      (not_free_of_occupied h.arranged hs ho), ?_, ?_⟩
    · have hall := h.live_eq
      change _ = t.slots.countP Slot.isOccupied at hcount
      change (({ t with live := t.live - 1 } : ProcessTable).giveBack id).live =
        (({ t with live := t.live - 1 } : ProcessTable).giveBack id).slots.countP Slot.isOccupied
      rw [hlive]
      omega
    · intro limit hlim
      rw [hlimit] at hlim
      have hle := h.live_le limit hlim
      rw [hlive]
      omega

/-- What was given out stays so when its entry is removed. -/
theorem spent_remove {t : ProcessTable} (h : t.Sound) (id serial i s : UInt32) :
    (t.remove id serial).2.Spent i s ↔ t.Spent i s := by
  rcases remove_cases t id serial with ⟨-, hr⟩ | ⟨slot, hs, -, ho, hr⟩
  · rw [hr]
  · rw [hr]
    exact spent_giveBack (t := { t with live := t.live - 1 }) hs
      (not_free_of_occupied h.arranged hs ho) i s

/-- After removing, nobody is found under the pair. -/
theorem occupant_remove (t : ProcessTable) (id serial i s : UInt32) :
    (t.remove id serial).2.occupant i s =
      if i = id ∧ s = serial then .none else t.occupant i s := by
  rcases remove_cases t id serial with ⟨ho, hr⟩ | ⟨slot, hs, rfl, -, hr⟩
  · rw [hr]
    split
    next heq => rw [heq.1, heq.2, ho]
    next => rfl
  · rw [hr]
    exact occupant_giveBack (t := { t with live := t.live - 1 }) hs i s

/-- Removing does not touch the limit. -/
@[simp] theorem limit_remove (t : ProcessTable) (id serial : UInt32) :
    (t.remove id serial).2.limit = t.limit := by
  rcases remove_cases t id serial with ⟨-, hr⟩ | ⟨slot, hs, -, -, hr⟩
  · rw [hr]
  · have hs' : ({ t with live := t.live - 1 } : ProcessTable).slot? id = some slot := hs
    rw [hr]
    exact limit_giveBack hs'

/-! ## An entry is abandoned -/

/-- What is in reach is an entry in its generation. -/
theorem slot?_of_resolves {t : ProcessTable} {id serial : UInt32}
    (h : t.resolves id serial = true) : t.slot? id = some ⟨serial, .reachable⟩ := by
  have ho : t.occupant id serial = .reachable := of_decide_eq_true h
  rcases hs : t.slot? id with _ | ⟨serial', o⟩
  · rw [occupant, hs] at ho
    exact absurd ho (by simp)
  · rw [occupant_eq hs] at ho
    split at ho
    next heq => rw [← heq, ← ho]
    next => exact absurd ho (by simp)

/-- Only an entry in reach can be abandoned. It keeps its slot and its generation. -/
theorem abandon_cases (t : ProcessTable) (id serial : UInt32) :
    (t.occupant id serial ≠ .reachable ∧ t.abandon id serial = t) ∨
    (t.slot? id = some ⟨serial, .reachable⟩ ∧
      t.abandon id serial = t.setSlot id ⟨serial, .abandoned⟩) := by
  rw [abandon]
  split
  next h => exact Or.inr ⟨slot?_of_resolves h, rfl⟩
  next h => exact Or.inl ⟨fun ho => h (decide_eq_true ho), rfl⟩

/-- An abandoned entry keeps its slot and is still counted. -/
theorem sound_abandon {t : ProcessTable} (h : t.Sound) (id serial : UInt32) :
    (t.abandon id serial).Sound := by
  rcases abandon_cases t id serial with ⟨-, ha⟩ | ⟨hs, ha⟩ <;> rw [ha]
  · exact h
  · have ho : (Slot.mk serial .reachable).occupant ≠ .none := by simp
    have hcount := countP_setSlot hs ⟨serial, .abandoned⟩
    refine ⟨arranged_setSlot h.arranged (Or.inl rfl) hs (ne_zero_of_occupied h.arranged hs ho)
      (not_free_of_occupied h.arranged hs ho) (by simp), ?_, h.live_le⟩
    -- The entry is counted as before, in reach or not.
    exact h.live_eq.trans (Nat.add_right_cancel hcount).symm

/-- Abandoning gives out nothing. -/
theorem spent_abandon (t : ProcessTable) (id serial i s : UInt32) :
    (t.abandon id serial).Spent i s ↔ t.Spent i s := by
  rcases abandon_cases t id serial with ⟨-, ha⟩ | ⟨hs, ha⟩ <;> rw [ha]
  exact spent_setSlot hs i s

/-- Only an entry in reach gets out of it. -/
theorem occupant_abandon (t : ProcessTable) (id serial i s : UInt32) :
    (t.abandon id serial).occupant i s =
      if i = id ∧ s = serial ∧ t.occupant id serial = .reachable then .abandoned
      else t.occupant i s := by
  rcases abandon_cases t id serial with ⟨ho, ha⟩ | ⟨hs, ha⟩ <;> rw [ha]
  · rw [if_neg fun hand => ho hand.2.2]
  · have ho : t.occupant id serial = .reachable := by rw [occupant_eq hs, if_pos rfl]
    rw [occupant_setSlot hs]
    simp only [ho, and_true]

/-! ## The entries in reach -/

/-- The table is short enough for its positions to be words. -/
theorem toNat_toUInt32 {t : ProcessTable} {c : Option UInt32} (h : t.Arranged c) {i : Nat}
    (hi : i < t.slots.length) : i.toUInt32.toNat = i :=
  UInt32.toNat_ofNat_of_lt' (Nat.lt_of_lt_of_le hi h.bound)

/-- What is listed is what is in reach. -/
theorem mem_occupied_iff {t : ProcessTable} {c : Option UInt32} (h : t.Arranged c)
    {id serial : UInt32} : (id, serial) ∈ t.occupied ↔ t.occupant id serial = .reachable := by
  rw [occupied, List.mem_filterMap]
  constructor
  · rintro ⟨⟨slot, i⟩, hmem, heq⟩
    rw [List.mem_zipIdx_iff_getElem?] at hmem
    dsimp only at heq
    split at heq
    next hreach =>
      rw [Option.some.injEq, Prod.mk.injEq] at heq
      have hi := (List.getElem?_eq_some_iff.mp hmem).1
      have hs : t.slot? id = some slot := by
        rw [slot?, ← heq.1, toNat_toUInt32 h hi]
        exact hmem
      rw [occupant_eq hs, if_pos heq.2]
      exact hreach
    next => exact absurd heq (by simp)
  · -- The other way round, the entry is at the position that its slot number names.
    intro ho
    rcases hs : t.slot? id with _ | slot
    · rw [occupant, hs] at ho
      exact absurd ho (by simp)
    · rw [occupant_eq hs] at ho
      split at ho
      next hserial =>
        refine ⟨(slot, id.toNat), List.mem_zipIdx_iff_getElem?.mpr hs, ?_⟩
        simp only [if_pos ho, hserial, Nat.toUInt32, UInt32.ofNat_toNat]
      next => exact absurd ho (by simp)

/-- The entries are listed by slot. -/
theorem pairwise_occupied {t : ProcessTable} {c : Option UInt32} (h : t.Arranged c) :
    t.occupied.Pairwise fun e e' => e.1 < e'.1 := by
  -- The list goes through the slots in order, and each slot contributes one entry or none.
  have hincreasing : t.slots.zipIdx.Pairwise fun e e' => e.2 < e'.2 := by
    rw [← List.pairwise_map, List.zipIdx_map_snd]
    exact List.pairwise_lt_range'
  rw [occupied]
  refine List.pairwise_filterMap.mpr (hincreasing.imp_of_mem ?_)
  rintro ⟨s, i⟩ ⟨s', i'⟩ hi hi' hlt e he e' he'
  rw [List.mem_zipIdx_iff_getElem?] at hi hi'
  have hbound := (List.getElem?_eq_some_iff.mp hi).1
  have hbound' := (List.getElem?_eq_some_iff.mp hi').1
  dsimp only at he he' hlt hbound hbound'
  split at he
  next =>
    split at he'
    next =>
      rw [Option.some.injEq] at he he'
      rw [← he, ← he', UInt32.lt_iff_toNat_lt, toNat_toUInt32 h hbound, toNat_toUInt32 h hbound']
      exact hlt
    next => exact absurd he' (by simp)
  next => exact absurd he (by simp)

/-- Nothing is listed twice, as every slot has one entry. -/
theorem nodup_occupied {t : ProcessTable} {c : Option UInt32} (h : t.Arranged c) :
    t.occupied.Nodup := by
  refine List.Pairwise.imp (fun hlt heq => ?_) (pairwise_occupied h)
  rw [heq] at hlt
  exact UInt32.lt_irrefl _ hlt

/-- An entry that is removed is not listed any more, and the others are listed as before. -/
theorem occupied_remove {t : ProcessTable} (h : t.Sound) (id serial : UInt32) :
    (t.remove id serial).2.occupied = t.occupied.filter fun e => e ≠ (id, serial) := by
  have harranged := (sound_remove h id serial).arranged
  have hmem : ∀ e, e ∈ (t.remove id serial).2.occupied ↔
      e ∈ t.occupied.filter fun e => e ≠ (id, serial) := by
    rintro ⟨i, s⟩
    rw [List.mem_filter, mem_occupied_iff harranged, mem_occupied_iff h.arranged, occupant_remove,
      decide_eq_true_iff, ne_eq, Prod.mk.injEq]
    split
    next heq => simp [heq]
    next hne => simp [hne]
  -- Both lists are in the order of the slots, so having the same entries they are equal.
  have hperm := (List.perm_ext_iff_of_nodup (nodup_occupied harranged)
    ((nodup_occupied h.arranged).filter _)).mpr hmem
  refine hperm.eq_of_pairwise (fun e e' _ _ hlt hlt' => ?_) (pairwise_occupied harranged)
    ((pairwise_occupied h.arranged).filter _)
  exact absurd hlt' (UInt32.lt_asymm hlt)

/-- There are as many listed as there are slots with an entry in reach. -/
theorem length_occupied (t : ProcessTable) :
    t.occupied.length = t.slots.countP fun s => s.occupant = .reachable := by
  have hslots : t.slots.countP (fun s => s.occupant = .reachable) =
      t.slots.zipIdx.countP fun e => e.1.occupant = .reachable := by
    rw [← Function.comp_def (fun s : Slot => decide (s.occupant = .reachable)) Prod.fst,
      ← List.countP_map, List.zipIdx_map_fst]
  rw [occupied, List.length_filterMap_eq_countP, hslots]
  refine List.countP_congr fun e _ => ?_
  by_cases ho : e.1.occupant = .reachable
  · simp only [ho, if_true, Option.isSome_some, decide_true]
  · simp only [ho, if_false, Option.isSome_none, decide_false, Bool.false_eq_true]

end ProcessTable

end Actors
