import Actors.Term
import Actors.Text.Utf8

/-!
# The Order of Terms

All terms stand in one order, so that terms of any kind can be sorted and kept
in ordered collections. Kinds come first: numbers before atoms before
references before process names before tuples before lists before text and
bytes. Inside a kind

* numbers compare by value; when an integer meets a float it is first rounded
  to a float, and if the two are then equal the integer comes first;
* atoms compare by their text, references and process names part by part;
* tuples compare by size, then element by element;
* lists compare element by element, a list before its own extensions;
* text and raw bytes compare by their bytes; if those are equal the text comes
  first.

Two terms are equal exactly when the order says so, and that is the case
exactly when they are the same value of the same kind.

## Main definitions

* `Term.rank`: The place of a kind among the kinds.
* `Term.order`: The order of terms.
* `Term.hashInput`: What a hash function is fed for a term.
* `Term.sort`: Terms in order, equal ones keeping their places.
* `Term.distinct`, `Term.hashDistinct`: One of each group of equal terms.

## Theorems

* `order_eq_iff`: The order calls two terms equal only if they are the same.
-/

namespace Actors

namespace Term

/-- The place of a kind among the kinds. Integers and floats share a place, and
    so do text and raw bytes. -/
def rank : Term → Nat
  | .int _ | .float _ => 0
  | .atom _ => 1
  | .ref _ => 2
  | .pid _ => 3
  | .tuple _ => 4
  | .list _ => 5
  | .text _ | .binary _ => 6

mutual

/-- The order of terms. -/
def order : Term → Term → Ordering
  | .int a, .int b => compare a b
  | .float a, .float b => a.totalOrder b
  | .int a, .float b => ((Binary64.ofInt a.toInt).totalOrder b).then .lt
  | .float a, .int b => (a.totalOrder (Binary64.ofInt b.toInt)).then .gt
  | .atom a, .atom b => Text.order a b
  | .ref a, .ref b => a.order b
  | .pid a, .pid b => a.order b
  | .tuple as, .tuple bs => (compare as.length bs.length).then (orderList as bs)
  | .list as, .list bs => orderList as bs
  | .text a, .text b => Text.order a b
  | .binary a, .binary b => compare a b
  | .text a, .binary b => (compare (Text.bytes a) b).then .lt
  | .binary a, .text b => (compare a (Text.bytes b)).then .gt
  | a, b => compare a.rank b.rank

/-- Terms compared element by element, a list before its own extensions. -/
def orderList : List Term → List Term → Ordering
  | [], [] => .eq
  | [], _ :: _ => .lt
  | _ :: _, [] => .gt
  | a :: as, b :: bs => (order a b).then (orderList as bs)

end

/-- Whether one term stands before or beside another. -/
def le (a b : Term) : Bool := (order a b).isLE

/-! ## Equality -/

mutual

theorem order_self (t : Term) : order t t = .eq := by
  cases t with
  | tuple elements => simp [order, orderList_self elements]
  | list elements => simp [order, orderList_self elements]
  | _ => simp [order, Binary64.totalOrder, Text.order_eq_iff, Pid.order_eq_iff, Ref.order_eq_iff]

theorem orderList_self (ts : List Term) : orderList ts ts = .eq := by
  cases ts with
  | nil => rfl
  | cons t rest => simp [orderList, order_self t, orderList_self rest]

end

theorem totalOrder_eq_iff {x y : Binary64} : x.totalOrder y = .eq ↔ x = y := by
  rcases x with ⟨x⟩
  rcases y with ⟨y⟩
  have hx := x.toNat_lt
  have hy := y.toNat_lt
  simp only [Binary64.totalOrder, Std.LawfulEqOrd.compare_eq_iff_eq, Binary64.totalKey,
    Binary64.mk.injEq, ← UInt64.toNat_inj]
  split <;> split <;> omega

mutual

theorem eq_of_order_eq (a b : Term) (h : order a b = .eq) : a = b := by
  cases a <;> cases b <;>
    simp [order, rank, Ordering.then_eq_eq, totalOrder_eq_iff, Text.order_eq_iff,
      Pid.order_eq_iff, Ref.order_eq_iff] at h ⊢ <;> try exact h
  case tuple.tuple as bs => exact eq_of_orderList_eq as bs h.2
  case list.list as bs => exact eq_of_orderList_eq as bs h

theorem eq_of_orderList_eq (as bs : List Term) (h : orderList as bs = .eq) : as = bs := by
  cases as with
  | nil => cases bs <;> simp [orderList] at h ⊢
  | cons a as =>
      cases bs with
      | nil => simp [orderList] at h
      | cons b bs =>
          rw [orderList, Ordering.then_eq_eq] at h
          rw [eq_of_order_eq a b h.1, eq_of_orderList_eq as bs h.2]

end

/-- The order calls two terms equal only if they are the same term. -/
theorem order_eq_iff {a b : Term} : order a b = .eq ↔ a = b :=
  ⟨eq_of_order_eq a b, fun h => h ▸ order_self a⟩

instance : DecidableEq Term := fun _ _ => decidable_of_iff _ order_eq_iff

/-! ## Hashing -/

/-- One piece of what a hash function is fed. -/
inductive HashWord where
  | kind (index : Nat)
  | length (n : Nat)
  | word (n : Nat)
  | text (s : String)
deriving DecidableEq, Repr

mutual

/-- What a hash function is fed for a term: its kind, then its contents, with
    the length in front of everything that can vary in length. -/
def hashInput : Term → List HashWord
  | .atom name => [.kind 0, .text name]
  | .int value => [.kind 1, .word value.toUInt64.toNat]
  | .float value => [.kind 2, .word value.bits.toNat]
  | .text value => [.kind 3, .text value]
  | .binary bytes => .kind 4 :: .length bytes.length :: bytes.map fun b => .word b.toNat
  | .pid p => .kind 5 :: [p.node, p.id, p.serial, p.creation].map fun n => .word n.toNat
  | .ref r => .kind 6 :: [r.node, r.id, r.serial, r.creation].map fun n => .word n.toNat
  | .tuple elements => .kind 7 :: .length elements.length :: hashInputList elements
  | .list elements => .kind 8 :: .length elements.length :: hashInputList elements

/-- What a hash function is fed for some terms, one after the other. -/
def hashInputList : List Term → List HashWord
  | [] => []
  | t :: rest => hashInput t ++ hashInputList rest

end

/-! ## Collections -/

/-- Terms in order, equal ones keeping their places. -/
def sort (ts : List Term) : List Term := ts.mergeSort le

/-- One of each group of terms that the order calls equal. -/
def distinct : List Term → List Term
  | [] => []
  | t :: rest =>
      let others := distinct rest
      if others.any fun u => order t u == .eq then others else t :: others

/-- One of each group of terms that are equal and feed a hash function alike. -/
def hashDistinct : List Term → List Term
  | [] => []
  | t :: rest =>
      let others := hashDistinct rest
      if others.any fun u => t.hashInput == u.hashInput && order t u == .eq then others
      else t :: others

/-- The greatest of some terms, the last of them if several are. -/
def greatest? : List Term → Option Term
  | [] => none
  | t :: rest => some (rest.foldl (fun m u => if le m u then u else m) t)

/-- The least of some terms, the first of them if several are. -/
def least? : List Term → Option Term
  | [] => none
  | t :: rest => some (rest.foldl (fun m u => if le m u then m else u) t)

end Term

end Actors
