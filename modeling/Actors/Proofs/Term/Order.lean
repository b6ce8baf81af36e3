import Actors.Proofs.Binary64
import Actors.Term.Order

/-!
# The Order of Terms Is Total

Two terms are compared by their shapes first, which is everything but their
elements, and by their elements if the shapes are the same. A shape is a row of
keys, each with an order of its own, and what a kind of term lacks is the same
for all terms of the kind. So the order of shapes is the order of rows, and what
remains is one induction over the elements.

Integers and floats interleave because both have a place among the floats. An
integer is rounded to get one. That never contradicts the values of two
integers, so the integers keep their order although they are compared by place
first. Text and raw bytes interleave by their bytes in the same way.

## Main definitions

* `Term.elements`: The elements of a tuple or list.
* `Term.shapeOrder`: The order by everything else.
* `Term.kinds`: The kinds of terms, in the order in which they stand.

## Theorems

* `compare_int`: Integers keep their order when they are rounded first.
* `order_eq_shapeOrder`: Shapes first, elements second.
* `order_swap`: Reversing the terms reverses the order.
* `order_isLE_trans`: The order is transitive.
* `kinds_pairwise`: The kinds stand one after the other.
-/

namespace Actors

namespace Term

/-- The elements of a tuple or list. -/
def elements : Term → List Term
  | .tuple es => es
  | .list es => es
  | _ => []

/-- The place of a number among the floats, once it is rounded to one. -/
def floatPlace : Term → Int
  | .int n => (Binary64.ofInt n.toInt).totalKey
  | .float x => x.totalKey
  | _ => 0

/-- Which of two kinds that share a place comes first. -/
def subrank : Term → Nat
  | .float _ | .binary _ => 1
  | _ => 0

/-- The value of an integer. -/
def intValue : Term → Int
  | .int n => n.toInt
  | _ => 0

/-- The bytes of whatever is spelled in bytes. -/
def spelling : Term → List UInt8
  | .atom s => Text.bytes s
  | .text s => Text.bytes s
  | .binary bytes => bytes
  | _ => []

/-- The parts of an identifier, as those of a process name. -/
def parts : Term → Pid
  | .pid p => p
  | .ref r => ⟨r.node, r.id, r.serial, r.creation⟩
  | _ => default

/-- The size of a tuple. -/
def arity : Term → Nat
  | .tuple es => es.length
  | _ => 0

/-- Terms compared by everything but their elements. What a kind lacks is the
    same for all terms of the kind. -/
def shapeOrder : Term → Term → Ordering :=
  compareLex (compareOn rank) <| compareLex (compareOn floatPlace) <|
    compareLex (compareOn spelling) <| compareLex (compareOn subrank) <|
    compareLex (compareOn intValue) <| compareLex (compareOn arity) <|
    compareLex (compareOn (·.parts.node)) <| compareLex (compareOn (·.parts.id)) <|
    compareLex (compareOn (·.parts.serial)) (compareOn (·.parts.creation))

instance : Std.TransCmp shapeOrder := by
  unfold shapeOrder
  infer_instance

/-- Rounding never says the opposite of the values. -/
theorem place_then_value_of_lt {a b : Int64} (h : a < b) :
    (compare (int a).floatPlace (int b).floatPlace).then (compare a.toInt b.toInt) = .lt := by
  rw [Int64.lt_iff_toInt_lt] at h
  have hplace := Binary64.totalKey_ofInt_mono a.le_toInt b.toInt_lt (Int.le_of_lt h)
  rcases Int.lt_or_eq_of_le hplace with hlt | heq
  · rw [floatPlace, floatPlace, Std.compare_eq_lt.mpr hlt]
    rfl
  · -- Two integers that round to one float are told apart by their values.
    rw [floatPlace, floatPlace, heq, Std.compare_self, Ordering.eq_then]
    exact Std.compare_eq_lt.mpr h

/-- Integers compare by their places among the floats first, as far as those go. -/
theorem compare_int (a b : Int64) :
    compare a b = (compare (int a).floatPlace (int b).floatPlace).then
      (compare a.toInt b.toInt) := by
  rcases hab : compare a b with _ | _ | _
  · exact (place_then_value_of_lt (Std.compare_eq_lt.mp hab)).symm
  · rw [Std.compare_eq_iff_eq.mp hab, Std.compare_self, Std.compare_self]
    rfl
  · have hba := place_then_value_of_lt (Std.compare_eq_gt.mp hab)
    have hplace : compare (int a).floatPlace (int b).floatPlace =
        (compare (int b).floatPlace (int a).floatPlace).swap := Std.OrientedCmp.eq_swap
    have hvalue : compare a.toInt b.toInt = (compare b.toInt a.toInt).swap :=
      Std.OrientedCmp.eq_swap
    rw [hplace, hvalue, ← Ordering.swap_then, hba]
    rfl

/-- The order is that of the shapes, and among terms of one shape that of the elements. -/
theorem order_eq_shapeOrder (a b : Term) :
    order a b = (shapeOrder a b).then (orderList a.elements b.elements) := by
  cases a <;> cases b
  -- First the pairs that share a place. All others are told apart by it.
  case int.int a b =>
    simpa [order, shapeOrder, compareLex, compareOn, rank, subrank, intValue, spelling, parts,
      arity, elements, orderList] using compare_int a b
  case float.float | atom.atom | ref.ref | pid.pid | tuple.tuple | list.list | text.text |
      binary.binary =>
    simp [order, shapeOrder, compareLex, compareOn, rank, floatPlace, subrank, intValue, spelling,
      parts, arity, elements, Text.order, Binary64.totalOrder, Pid.order, Ref.order, orderList]
  case int.float | float.int | text.binary | binary.text =>
    simp only [order, shapeOrder, compareLex, compareOn, rank, floatPlace, subrank, intValue,
      spelling, parts, arity, elements, Binary64.totalOrder, orderList, Std.compare_self,
      Ordering.eq_then, Ordering.then_eq]
    rfl
  all_goals rfl

/-! ## Reversal -/

theorem orderList_nil_swap (bs : List Term) : orderList bs [] = (orderList [] bs).swap := by
  cases bs <;> rfl

mutual

/-- Reversing the terms reverses the order. -/
theorem order_swap (a b : Term) : order b a = (order a b).swap := by
  have hshape : shapeOrder b a = (shapeOrder a b).swap := Std.OrientedCmp.eq_swap
  rw [order_eq_shapeOrder, order_eq_shapeOrder a b, Ordering.swap_then, hshape]
  cases a with
  | tuple es => exact congrArg _ (orderList_swap es b.elements)
  | list es => exact congrArg _ (orderList_swap es b.elements)
  | _ => exact congrArg _ (orderList_nil_swap b.elements)

theorem orderList_swap (as bs : List Term) : orderList bs as = (orderList as bs).swap := by
  cases as with
  | nil => exact orderList_nil_swap bs
  | cons a as =>
      cases bs with
      | nil => rfl
      | cons b bs =>
          rw [orderList, orderList, Ordering.swap_then, order_swap a b, orderList_swap as bs]

end

/-! ## Transitivity -/

/-- Two comparisons, the second of which counts if the first gives nothing, are
    transitive if both are. -/
theorem isLE_then_trans {α : Type} {cmp : α → α → Ordering} [Std.TransCmp cmp] {a b c : α}
    {o o' o'' : Ordering} (hab : ((cmp a b).then o).isLE) (hbc : ((cmp b c).then o').isLE)
    (hrest : o.isLE → o'.isLE → o''.isLE) : ((cmp a c).then o'').isLE := by
  rw [Ordering.isLE_then_iff_or] at hab hbc ⊢
  -- If either of the first comparisons decides, so does that of the ends.
  rcases hab with hab | ⟨hab, ho⟩ <;> rcases hbc with hbc | ⟨hbc, ho'⟩
  · exact Or.inl (Std.TransCmp.lt_trans hab hbc)
  · exact Or.inl (Std.TransCmp.lt_of_lt_of_eq hab hbc)
  · exact Or.inl (Std.TransCmp.lt_of_eq_of_lt hab hbc)
  · exact Or.inr ⟨Std.TransCmp.eq_trans hab hbc, hrest ho ho'⟩

/-- What stands before a term stands before all that come after the term. -/
theorem order_lt_of_lt_of_isLE {a b c : Term} (hab : order a b = .lt) (hbc : (order b c).isLE)
    (hac : (order a c).isLE) : order a c = .lt := by
  rcases Ordering.isLE_iff_eq_lt_or_eq_eq.mp hac with hlt | heq
  · exact hlt
  · -- If the outer two were the same, the middle one would stand on both sides.
    rw [← order_eq_iff.mp heq, order_swap a b, hab] at hbc
    exact absurd hbc (by decide)

theorem orderList_nil_isLE (bs : List Term) : (orderList [] bs).isLE = true := by
  cases bs <;> rfl

mutual

/-- What stands before or beside a term stands so to all that come after the term. -/
theorem order_isLE_trans (a b c : Term) (hab : (order a b).isLE) (hbc : (order b c).isLE) :
    (order a c).isLE := by
  rw [order_eq_shapeOrder] at hab hbc ⊢
  -- Shapes are compared by keys, so only the elements need the induction.
  refine isLE_then_trans hab hbc ?_
  cases a with
  | tuple es => exact orderList_isLE_trans es b.elements c.elements
  | list es => exact orderList_isLE_trans es b.elements c.elements
  | _ => exact fun _ _ => orderList_nil_isLE c.elements

theorem orderList_isLE_trans (as bs cs : List Term) (hab : (orderList as bs).isLE)
    (hbc : (orderList bs cs).isLE) : (orderList as cs).isLE := by
  cases as with
  | nil => exact orderList_nil_isLE cs
  | cons a as =>
      rcases bs with _ | ⟨b, bs⟩
      · exact absurd hab (by simp [orderList])
      rcases cs with _ | ⟨c, cs⟩
      · exact absurd hbc (by simp [orderList])
      rw [orderList, Ordering.isLE_then_iff_or] at hab hbc ⊢
      have hfirst : (order b c).isLE := by
        rcases hbc with h | ⟨h, -⟩ <;> rw [h] <;> rfl
      rcases hab with hlt | ⟨heq, hrest⟩
      · -- The first elements decide.
        have hac := order_isLE_trans a b c (by rw [hlt]; rfl) hfirst
        exact Or.inl (order_lt_of_lt_of_isLE hlt hfirst hac)
      · -- The first elements of the first two lists are the same, and the rest decides.
        rw [order_eq_iff.mp heq]
        exact hbc.imp id fun h => ⟨h.1, orderList_isLE_trans as bs cs hrest h.2⟩

end

/-! ## Kinds -/

/-- The kinds of terms, in the order in which they stand. -/
def kinds : List (Term → Prop) :=
  [fun t => (∃ n, t = .int n) ∨ ∃ x, t = .float x,
    fun t => ∃ name, t = .atom name,
    fun t => ∃ r, t = .ref r,
    fun t => ∃ p, t = .pid p,
    fun t => ∃ es, t = .tuple es,
    fun t => ∃ es, t = .list es,
    fun t => (∃ s, t = .text s) ∨ ∃ bytes, t = .binary bytes]

theorem order_of_rank_lt {a b : Term} (h : a.rank < b.rank) : order a b = .lt := by
  rw [order_eq_shapeOrder, shapeOrder, compareLex, compareOn, Std.compare_eq_lt.mpr h]
  rfl

/-- The rank of a term is the place of its kind. -/
theorem kinds_rank (t : Term) : ∃ k, kinds[t.rank]? = some k ∧ k t := by
  cases t with
  | int n => exact ⟨_, rfl, Or.inl ⟨n, rfl⟩⟩
  | float x => exact ⟨_, rfl, Or.inr ⟨x, rfl⟩⟩
  | text s => exact ⟨_, rfl, Or.inl ⟨s, rfl⟩⟩
  | binary bytes => exact ⟨_, rfl, Or.inr ⟨bytes, rfl⟩⟩
  | _ => exact ⟨_, rfl, _, rfl⟩

theorem rank_of_kinds {i : Nat} {k : Term → Prop} (hk : kinds[i]? = some k) {t : Term} (ht : k t) :
    t.rank = i := by
  rcases i with _ | _ | _ | _ | _ | _ | _ | i
  case zero =>
    rw [← Option.some.inj hk] at ht
    rcases ht with ⟨n, rfl⟩ | ⟨x, rfl⟩ <;> rfl
  case succ.succ.succ.succ.succ.succ.zero =>
    rw [← Option.some.inj hk] at ht
    rcases ht with ⟨s, rfl⟩ | ⟨bytes, rfl⟩ <;> rfl
  case succ.succ.succ.succ.succ.succ.succ => exact absurd hk (by simp [kinds])
  all_goals
    rw [← Option.some.inj hk] at ht
    rcases ht with ⟨x, rfl⟩
    rfl

/-- The kinds stand one after the other. -/
theorem kinds_pairwise : kinds.Pairwise fun k k' => ∀ a b, k a → k' b → order a b = .lt := by
  rw [List.pairwise_iff_getElem]
  intro i j hi hj hij a b ha hb
  have hra := rank_of_kinds (List.getElem?_eq_getElem hi) ha
  have hrb := rank_of_kinds (List.getElem?_eq_getElem hj) hb
  exact order_of_rank_lt (by rwa [hra, hrb])

instance : Std.TransCmp order where
  eq_swap := order_swap _ _
  isLE_trans := order_isLE_trans _ _ _

instance : Std.LawfulEqCmp order where
  compare_self := order_self _
  eq_of_compare := order_eq_iff.mp

end Term

end Actors
