import Actors.Proofs.Atom
import Actors.Proofs.Term.Order

/-!
# Numbers and Texts Say the Same

A term with numbered atoms and the term with their texts are two forms of one
thing. Within a table each gives the other back, and the forms agree on how
two terms compare: where the numbered form looks at texts, so does the other,
and where it does not, because the numbers are the same, the texts are the
same too. So the order of two terms is the same in every table that spells
them alike.

## Main definitions

* `OrderLaws`: What is asked of the order of some values.

## Theorems

* `spell_of_grows`: A table that grows spells a term as it did.
* `spell_inj`: Different terms of a table have different texts.
* `number_spell`, `spell_number`: Either form gives the other back.
* `order_spell`: Both forms compare alike.
* `ordered_by_contents`: The order is total, and by contents alone.
-/

namespace Actors

namespace NumberedTerm

open Interner

variable {t t' : Interner}

theorem length_spellAll (t : Interner) (as : List NumberedTerm) :
    (spellAll t as).length = as.length := by
  induction as with
  | nil => rfl
  | cons a rest ih => rw [spellAll, List.length_cons, ih, List.length_cons]

mutual

theorem known_of_grows (hg : t.Grows t') (a : NumberedTerm) (h : a.isKnown t = true) :
    a.isKnown t' = true := by
  cases a with
  | atom a => exact Atom.known_of_grows hg h
  | tuple elements => exact allKnown_of_grows hg elements h
  | list elements => exact allKnown_of_grows hg elements h
  | _ => rfl

theorem allKnown_of_grows (hg : t.Grows t') (as : List NumberedTerm)
    (h : areKnown t as = true) : areKnown t' as = true := by
  cases as with
  | nil => rfl
  | cons a rest =>
      rw [areKnown, Bool.and_eq_true] at h ⊢
      exact ⟨known_of_grows hg a h.1, allKnown_of_grows hg rest h.2⟩

end

mutual

/-- A table that grows spells a term as it did. -/
theorem spell_of_grows (hg : t.Grows t') (a : NumberedTerm) (h : a.isKnown t = true) :
    a.spell t' = a.spell t := by
  cases a with
  | atom a => rw [spell, spell, Atom.text_of_grows hg h]
  | tuple elements => rw [spell, spell, spellAll_of_grows hg elements h]
  | list elements => rw [spell, spell, spellAll_of_grows hg elements h]
  | _ => rfl

theorem spellAll_of_grows (hg : t.Grows t') (as : List NumberedTerm)
    (h : areKnown t as = true) : spellAll t' as = spellAll t as := by
  cases as with
  | nil => rfl
  | cons a rest =>
      rw [areKnown, Bool.and_eq_true] at h
      rw [spellAll, spellAll, spell_of_grows hg a h.1, spellAll_of_grows hg rest h.2]

end

mutual

/-- The texts of a term give the term back, and intern nothing. -/
theorem number_spell (a : NumberedTerm) (h : a.isKnown t = true) :
    (a.spell t).number t = (a, t) := by
  cases a with
  | atom a => rw [spell, Term.number, Atom.new_text h]
  | tuple elements => rw [spell, Term.number, numberAll_spellAll elements h]
  | list elements => rw [spell, Term.number, numberAll_spellAll elements h]
  | _ => rfl

theorem numberAll_spellAll (as : List NumberedTerm) (h : areKnown t as = true) :
    Term.numberAll t (spellAll t as) = (as, t) := by
  cases as with
  | nil => rfl
  | cons a rest =>
      rw [areKnown, Bool.and_eq_true] at h
      rw [spellAll, Term.numberAll, number_spell a h.1]
      dsimp only
      rw [numberAll_spellAll rest h.2]

end

/-- Different terms of a table have different texts. -/
theorem spell_inj {a b : NumberedTerm} (ha : a.isKnown t = true) (hb : b.isKnown t = true) :
    a.spell t = b.spell t ↔ a = b := by
  refine ⟨fun h => ?_, fun h => h ▸ rfl⟩
  have hboth := number_spell a ha
  rw [h, number_spell b hb, Prod.mk.injEq] at hboth
  exact hboth.1.symm

/-! ## Both forms compare alike -/

mutual

theorem order_spell (t : Interner) (a b : NumberedTerm) :
    order t a b = Term.order (a.spell t) (b.spell t) := by
  cases a <;> cases b
  -- Only atoms and what holds terms look at the table.
  case atom.atom a b => exact Atom.order_eq t a b
  case tuple.tuple as bs =>
    rw [order, spell, spell, Term.order, length_spellAll, length_spellAll, orderList_spellAll]
  case list.list as bs => rw [order, spell, spell, Term.order, orderList_spellAll]
  all_goals rfl

theorem orderList_spellAll (t : Interner) (as bs : List NumberedTerm) :
    orderList t as bs = Term.orderList (spellAll t as) (spellAll t bs) := by
  cases as with
  | nil => cases bs <;> rfl
  | cons a as =>
      cases bs with
      | nil => rfl
      | cons b bs =>
          rw [orderList, spellAll, spellAll, Term.orderList, order_spell, orderList_spellAll]

end

end NumberedTerm

namespace Term

open NumberedTerm Interner

mutual

theorem grows_number (t : Interner) (s : Term) : t.Grows (s.number t).2 := by
  cases s with
  | atom name => exact Atom.grows_new t name
  | tuple elements => exact grows_numberAll t elements
  | list elements => exact grows_numberAll t elements
  | _ => exact .refl t

theorem grows_numberAll (t : Interner) (ss : List Term) : t.Grows (numberAll t ss).2 := by
  cases ss with
  | nil => exact .refl t
  | cons s rest => exact (grows_number t s).trans (grows_numberAll _ rest)

end

mutual

/-- A term that was given numbers is known, and spelled as it was. -/
theorem spell_number (t : Interner) (s : Term) (h : (s.number t).2.size ≤ UInt32.size) :
    (s.number t).1.isKnown (s.number t).2 = true ∧ (s.number t).1.spell (s.number t).2 = s := by
  cases s with
  | atom name => exact ⟨Atom.known_new h, congrArg Term.atom (Atom.text_new h)⟩
  | tuple elements =>
      rcases spellAll_numberAll t elements h with ⟨hk, hs⟩
      exact ⟨hk, congrArg Term.tuple hs⟩
  | list elements =>
      rcases spellAll_numberAll t elements h with ⟨hk, hs⟩
      exact ⟨hk, congrArg Term.list hs⟩
  | _ => exact ⟨rfl, rfl⟩

theorem spellAll_numberAll (t : Interner) (ss : List Term)
    (h : (numberAll t ss).2.size ≤ UInt32.size) :
    areKnown (numberAll t ss).2 (numberAll t ss).1 = true ∧
      spellAll (numberAll t ss).2 (numberAll t ss).1 = ss := by
  cases ss with
  | nil => exact ⟨rfl, rfl⟩
  | cons s rest =>
      -- The table goes on growing after the first term, which keeps what it means.
      have hg := grows_numberAll (s.number t).2 rest
      rcases spell_number t s (Nat.le_trans hg.size h) with ⟨hk, hs⟩
      rcases spellAll_numberAll (s.number t).2 rest h with ⟨hks, hss⟩
      have hfirst := (spell_of_grows hg _ hk).trans hs
      refine ⟨?_, List.cons_eq_cons.mpr ⟨hfirst, hss⟩⟩
      exact Bool.and_eq_true_iff.mpr ⟨NumberedTerm.known_of_grows hg _ hk, hks⟩

end

end Term

/-! ## The order -/

/-- What is asked of the order of some values. -/
structure OrderLaws {α : Type} (valid : α → Prop) (cmp : α → α → Ordering) : Prop where
  /-- Reversing two values reverses how they compare. -/
  swap : ∀ a b, cmp b a = (cmp a b).swap
  /-- What stands before or beside a value stands so to all that come after it. -/
  trans : ∀ a b c, (cmp a b).isLE = true → (cmp b c).isLE = true → (cmp a c).isLE = true
  /-- Only the same values are equal. -/
  eq_iff : ∀ a b, valid a → valid b → (cmp a b = .eq ↔ a = b)

theorem Term.orderLaws : OrderLaws (fun _ => True) Term.order where
  swap := Term.order_swap
  trans := Term.order_isLE_trans
  eq_iff _ _ _ _ := Term.order_eq_iff

/-- The laws hold in every table, since they hold of the texts. -/
theorem NumberedTerm.orderLaws (t : Interner) :
    OrderLaws (fun a => a.isKnown t = true) (NumberedTerm.order t) where
  swap a b := by rw [order_spell, order_spell, Term.order_swap]
  trans a b c := by
    rw [order_spell, order_spell, order_spell]
    exact Term.order_isLE_trans _ _ _
  eq_iff a b ha hb := by rw [order_spell, Term.order_eq_iff, spell_inj ha hb]

/-- The order of terms is total, calls only the same terms equal and has the
    kinds one after the other. So has the order of the terms of a table, which
    is that of their texts and the same in all tables. Equal terms feed a hash
    function alike. -/
theorem ordered_by_contents :
    OrderLaws (fun _ => True) Term.order ∧
    (∀ t, ∃ k ∈ Term.kinds, k t) ∧
    (Term.kinds.Pairwise fun k k' => ∀ a b, k a → k' b → Term.order a b = .lt) ∧
    (∀ a b, Term.order a b = .eq → a.hashInput = b.hashInput) ∧
    (∀ t, OrderLaws (fun a => a.isKnown t = true) (NumberedTerm.order t)) ∧
    (∀ t a b, a.isKnown t = true → b.isKnown t = true → NumberedTerm.order t a b = .eq →
      a.hashInput = b.hashInput) ∧
    (∀ t a b, NumberedTerm.order t a b = Term.order (a.spell t) (b.spell t)) ∧
    ∀ (t t' : Interner) (a b a' b' : NumberedTerm), a.spell t = a'.spell t' →
      b.spell t = b'.spell t' → NumberedTerm.order t a b = NumberedTerm.order t' a' b' := by
  refine ⟨Term.orderLaws, fun t => ?_, Term.kinds_pairwise, fun a b h => ?_,
    NumberedTerm.orderLaws, fun t a b ha hb h => ?_, NumberedTerm.order_spell, ?_⟩
  · rcases Term.kinds_rank t with ⟨k, hk, ht⟩
    exact ⟨k, List.mem_of_getElem? hk, ht⟩
  · rw [Term.order_eq_iff.mp h]
  · rw [((NumberedTerm.orderLaws t).eq_iff a b ha hb).mp h]
  · intro t t' a b a' b' ha hb
    rw [NumberedTerm.order_spell, NumberedTerm.order_spell, ha, hb]

/-- Two tables that met the same two names in a different order. -/
theorem order_of_two_tables :
    NumberedTerm.order (.ofNames ["b", "a"] (by decide)) (.tuple [.atom ⟨0⟩, .int 1])
        (.tuple [.atom ⟨1⟩, .int 2]) =
      NumberedTerm.order (.ofNames ["a", "b"] (by decide)) (.tuple [.atom ⟨1⟩, .int 1])
        (.tuple [.atom ⟨0⟩, .int 2]) :=
  ordered_by_contents.2.2.2.2.2.2.2 _ _ _ _ _ _ rfl rfl

end Actors
