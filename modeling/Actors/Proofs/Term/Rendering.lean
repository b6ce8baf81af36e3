import Actors.Proofs.Text.Quoted
import Actors.Term.Order
import Actors.Term.Rendering

/-!
# Reading Terms Back

Whether the text of a term says which term it is. Terms of integers, texts and
bytes can always be told apart, however they are nested. A term shows its kind by
its first character, and its end by a closing mark or by what stands behind it:
a border, that is, a comma or a closing bracket, or nothing at all.

An atom between quotes is the exception. A quote inside it is written as it is,
so a quote that is followed by a border looks like the end of the atom, and one
atom then looks like two. Without such atoms, all terms that hold no floats and
no identifiers can be told apart. Texts may hold
quotes, commas and brackets, and so may atoms as long as no quote stands directly
in front of a border.

## Main definitions

* `Term.leaves`: What a term is made of, without tuples and lists.
* `Term.isPlain`: Not a float and not an identifier.
* `Term.isWhole`: Not an atom that looks like it ends early.
* `Term.Legible`: A term of plain and whole leaves.
* `Term.Found`: A term that is found in one way in front of a border.

## Theorems

* `FloatStyle.integer_inj`, `renderAtom_inj`, `separated_inj`: The parts of the notation.
* `mark_render`: The first character of a term says of which kind it is.
* `found`: Every legible term is found.
* `display_eq_iff`: Legible terms have the same text only if they are equal.
* `display_torn`: An atom that looks like two.
* `ambiguous_display`: Two terms that look the same.
-/

namespace Actors

open Rendering Text

variable {r r' : List Char}

/-! ## Numbers -/

/-- Two integers are the same if neither has digits behind it. -/
theorem FloatStyle.integer_inj {m n : Int} (hr : Stops Char.isDigit r) (hr' : Stops Char.isDigit r')
    (h : integer m ++ r = integer n ++ r') : m = n ∧ r = r' := by
  -- A minus sign is not a digit.
  have hsign : ∀ (k : Nat) (s s' : List Char), '-' :: s ≠ Nat.toDigits 10 k ++ s' := by
    intro k s s' heq
    rcases toDigits_eq_cons k with ⟨d, ds, hk, hd⟩
    rw [hk, List.cons_append, List.cons.injEq] at heq
    rw [← heq.1] at hd
    exact absurd hd (by decide)
  rw [integer, integer] at h
  split at h
  next hm =>
    split at h
    next hn =>
      rcases decimal_inj hr hr' (List.cons.inj h).2 with ⟨habs, hrest⟩
      exact ⟨by omega, hrest⟩
    next => exact absurd h (hsign _ _ _)
  next hm =>
    split at h
    next => exact absurd h.symm (hsign _ _ _)
    next hn =>
      rcases decimal_inj hr hr' h with ⟨habs, hrest⟩
      exact ⟨by omega, hrest⟩

namespace Rendering

/-! ## Elements with commas between them -/

/-- After the first element, each one stands behind a separator. -/
theorem separated_cons (separator x : List Char) (xs : List (List Char)) :
    separated separator (x :: xs) = x ++ xs.flatMap (separator ++ ·) := by
  induction xs generalizing x with
  | nil => simp [separated]
  | cons y ys ih =>
      rw [separated, ih, List.flatMap_cons, List.append_assoc, List.append_assoc]
      simp

section Separated

variable {α : Type} {write : α → List Char} {close : Char}

/-- What stands behind an element: a comma, or what closes the row. -/
theorem stops_rest {test : Char → Bool} (hcomma : test ',' = false) (hclose : test close = false)
    (xs : List (List Char)) (r : List Char) : Stops test (xs.flatMap ([','] ++ ·) ++ close :: r) := by
  cases xs with
  | nil => exact .cons hclose r
  | cons x xs => exact .cons hcomma _

/-- Rows of elements are the same if each element is found in front of a comma and
    in front of what closes the row. -/
theorem flatMap_inj {test : Char → Bool} {as bs : List α} (hcomma : test ',' = false)
    (hclose : test close = false) (hne : close ≠ ',')
    (hwrite : ∀ a ∈ as, ∀ b ∈ bs, ∀ r r', Stops test r → Stops test r' →
      write a ++ r = write b ++ r' → a = b ∧ r = r')
    (h : (as.map write).flatMap ([','] ++ ·) ++ close :: r =
      (bs.map write).flatMap ([','] ++ ·) ++ close :: r') : as = bs ∧ r = r' := by
  induction as generalizing bs with
  | nil =>
      cases bs with
      | nil => exact ⟨rfl, (List.cons.inj h).2⟩
      | cons b bs => exact absurd (List.cons.inj h).1 hne
  | cons a as ih =>
      cases bs with
      | nil => exact absurd (List.cons.inj h).1.symm hne
      | cons b bs =>
          simp only [List.map_cons, List.flatMap_cons, List.cons_append, List.nil_append,
            List.append_assoc, List.cons.injEq, true_and] at h
          -- What stands behind the element starts with a comma or closes the row. In both cases the
          -- element ends there.
          rcases hwrite a List.mem_cons_self b List.mem_cons_self _ _
            (stops_rest hcomma hclose _ r) (stops_rest hcomma hclose _ r') h with ⟨rfl, hrest⟩
          rcases ih (fun a ha b hb => hwrite a (List.mem_cons_of_mem _ ha) b
            (List.mem_cons_of_mem _ hb)) hrest with ⟨rfl, hr⟩
          exact ⟨rfl, hr⟩

/-- Two rows of elements are the same if no element looks like what closes the row. -/
theorem separated_inj {test : Char → Bool} {as bs : List α} (hcomma : test ',' = false)
    (hclose : test close = false) (hne : close ≠ ',')
    (hstart : ∀ a ∈ as ++ bs, ∀ r r', write a ++ r ≠ close :: r')
    (hwrite : ∀ a ∈ as, ∀ b ∈ bs, ∀ r r', Stops test r → Stops test r' →
      write a ++ r = write b ++ r' → a = b ∧ r = r')
    (h : separated [','] (as.map write) ++ close :: r =
      separated [','] (bs.map write) ++ close :: r') : as = bs ∧ r = r' := by
  cases as with
  | nil =>
      cases bs with
      | nil => exact ⟨rfl, (List.cons.inj h).2⟩
      | cons b bs =>
          rw [List.map_cons, separated_cons, List.append_assoc] at h
          exact absurd h.symm (hstart b List.mem_cons_self _ _)
  | cons a as =>
      cases bs with
      | nil =>
          rw [List.map_cons, separated_cons, List.append_assoc] at h
          exact absurd h (hstart a List.mem_cons_self _ _)
      | cons b bs =>
          rw [List.map_cons, List.map_cons, separated_cons, separated_cons, List.append_assoc,
            List.append_assoc] at h
          -- The first elements agree, and the others stand behind a comma each.
          rcases hwrite a List.mem_cons_self b List.mem_cons_self _ _
            (stops_rest hcomma hclose _ r) (stops_rest hcomma hclose _ r') h with ⟨rfl, hrest⟩
          rcases flatMap_inj hcomma hclose hne (fun a ha b hb => hwrite a
            (List.mem_cons_of_mem _ ha) b (List.mem_cons_of_mem _ hb)) hrest with ⟨rfl, hr⟩
          exact ⟨rfl, hr⟩

end Separated

/-! ## Borders -/

/-- A character that stands behind an element of a tuple or list. -/
def isBorder (c : Char) : Bool := c == ',' || c == '\x7d' || c == ']'

/-- A text that starts with a border if it is not empty. -/
abbrev Bordered : List Char → Prop := Stops fun c => !isBorder c

theorem isBorder_iff {c : Char} : isBorder c = true ↔ c = ',' ∨ c = '\x7d' ∨ c = ']' := by
  simp [isBorder, or_assoc]

/-- A class without borders does not go on where a border has to stand. -/
theorem Bordered.stops (h : Bordered r) {test : Char → Bool} (hcomma : test ',' = false)
    (hbrace : test '\x7d' = false) (hbracket : test ']' = false) : Stops test r := by
  refine h.mono fun c hc => ?_
  rcases hb : isBorder c with _ | _
  · rfl
  · rcases isBorder_iff.mp hb with rfl | rfl | rfl
    · exact absurd hc (by simp [hcomma])
    · exact absurd hc (by simp [hbrace])
    · exact absurd hc (by simp [hbracket])

/-- A text in which no quote is followed by a border. -/
def hasNoTear : List Char → Bool
  | [] => true
  | c :: rest => !(c == '\'' && rest.head?.any isBorder) && hasNoTear rest

/-- Behind a quote inside such a text no border stands. -/
theorem not_border_of_hasNoTear {xs ys : List Char} {c : Char}
    (h : hasNoTear (xs ++ '\'' :: c :: ys) = true) : isBorder c = false := by
  induction xs with
  | nil =>
      rw [List.nil_append, hasNoTear, Bool.and_eq_true] at h
      simpa using h.1
  | cons x xs ih =>
      rw [List.cons_append, hasNoTear, Bool.and_eq_true] at h
      exact ih h.2

end Rendering

namespace Term

/-! ## Atoms -/

/-- A quote that is followed by a border is the last one, if no quote inside the atom is. -/
theorem eq_nil_of_hasNoTear {xs zs : List Char} (hz : hasNoTear (xs ++ zs) = true)
    (hr : Bordered r) (h : '\'' :: r = zs ++ '\'' :: r') : zs = [] := by
  rcases zs with _ | ⟨q, _ | ⟨c, zs⟩⟩
  · rfl
  · -- A single quote is followed by another one, which is no border.
    rw [(List.cons.inj h).2] at hr
    exact absurd (hr '\'' rfl) (by decide)
  · rcases List.cons.inj h with ⟨rfl, rfl⟩
    exact absurd (hr c rfl) (by simp [not_border_of_hasNoTear hz])

/-- Two quoted texts that end in front of a border end at the same place. -/
theorem quoted_inj {xs ys : List Char} (hx : hasNoTear xs = true) (hy : hasNoTear ys = true)
    (hr : Bordered r) (hr' : Bordered r') (h : xs ++ '\'' :: r = ys ++ '\'' :: r') :
    xs = ys ∧ r = r' := by
  -- One of the two is the longer one. It would have a quote in front of a border where the other
  -- one ends.
  rcases List.append_eq_append_iff.mp h with ⟨zs, rfl, hzs⟩ | ⟨zs, rfl, hzs⟩
  · rcases eq_nil_of_hasNoTear hy hr hzs with rfl
    exact ⟨(List.append_nil xs).symm, (List.cons.inj hzs).2⟩
  · rcases eq_nil_of_hasNoTear hx hr' hzs with rfl
    exact ⟨List.append_nil ys, (List.cons.inj hzs).2.symm⟩

/-- An atom without quotes is a word that starts with a small letter. -/
theorem bare_cases {name : List Char} (h : isBareAtom name = true) :
    (∃ c rest, name = c :: rest ∧ c.isLower = true) ∧ ∀ c ∈ name, isBareChar c = true := by
  cases name with
  | nil => exact absurd h (by decide)
  | cons c rest =>
      rw [isBareAtom, Bool.and_eq_true, List.all_eq_true] at h
      exact ⟨⟨c, rest, rfl, h.1⟩, h.2⟩

/-- A word is not taken for a quoted atom. -/
theorem bare_ne_quoted {name : List Char} (h : isBareAtom name = true) :
    name ++ r ≠ '\'' :: r' := by
  rcases (bare_cases h).1 with ⟨c, rest, rfl, hc⟩
  intro heq
  rw [(List.cons.inj heq).1] at hc
  exact absurd hc (by decide)

/-- Two atoms in front of a border are the same if neither looks like it ends early. -/
theorem renderAtom_inj {s s' : String} (hs : hasNoTear s.toList = true)
    (hs' : hasNoTear s'.toList = true) (hr : Bordered r) (hr' : Bordered r')
    (h : renderAtom s ++ r = renderAtom s' ++ r') : s = s' ∧ r = r' := by
  rw [renderAtom, renderAtom] at h
  split at h
  -- A word ends where a border stands, because no letter is a border.
  next hbare =>
    split at h
    next hbare' =>
      rcases run_inj (bare_cases hbare).2 (bare_cases hbare').2
        (hr.stops (by decide) (by decide) (by decide))
        (hr'.stops (by decide) (by decide) (by decide)) h with ⟨hname, hrest⟩
      exact ⟨String.toList_inj.mp hname, hrest⟩
    next => exact absurd h (bare_ne_quoted hbare)
  next =>
    split at h
    next hbare' => exact absurd h.symm (bare_ne_quoted hbare')
    next =>
      -- A quoted atom ends at the quote that stands in front of the border.
      simp only [List.cons_append, List.append_assoc, List.nil_append, List.cons.injEq,
        true_and] at h
      rcases quoted_inj hs hs' hr hr' h with ⟨hname, hrest⟩
      exact ⟨String.toList_inj.mp hname, hrest⟩

/-! ## Kinds -/

mutual

/-- What a term is made of, without tuples and lists. -/
def leaves : Term → List Term
  | .tuple elements => leavesAll elements
  | .list elements => leavesAll elements
  | t => [t]

/-- What some terms are made of, without tuples and lists. -/
def leavesAll : List Term → List Term
  | [] => []
  | t :: rest => leaves t ++ leavesAll rest

end

theorem mem_leavesAll {l t : Term} {ts : List Term} (ht : t ∈ ts) (hl : l ∈ t.leaves) :
    l ∈ leavesAll ts := by
  induction ts with
  | nil => exact absurd ht List.not_mem_nil
  | cons u rest ih =>
      rw [leavesAll, List.mem_append]
      rcases List.mem_cons.mp ht with rfl | ht
      · exact Or.inl hl
      · exact Or.inr (ih ht)

/-- Not a float and not an identifier. -/
def isPlain : Term → Bool
  | .float _ | .pid _ | .ref _ => false
  | _ => true

/-- Not an atom that looks like it ends early: no quote in it is followed by a border. -/
def isWhole : Term → Bool
  | .atom name => hasNoTear name.toList
  | _ => true

/-- One character for all that may start a term of some kind: the quote for letters
    and the minus sign for digits. -/
def mark (c : Char) : Char :=
  if c.isLower then '\'' else if c.isDigit then '-' else c

/-- Digits have the mark of integers. -/
theorem mark_of_mem {n : Nat} {c : Char} (h : c ∈ Nat.toDigits 10 n) : mark c = '-' := by
  have hall : ∀ d < 10, mark (Nat.digitChar d) = '-' := by decide
  rcases mem_toDigits (by decide) h with ⟨d, hd, rfl⟩
  exact hall d hd

/-- The mark of a plain kind. -/
def kindMark : Term → Option Char
  | .atom _ => some '\''
  | .int _ => some '-'
  | .text _ => some '"'
  | .binary _ => some '<'
  | .tuple _ => some '\x7b'
  | .list _ => some '['
  | _ => none

/-- A term that can be read back: it has no floats, no identifiers and no atoms that
    look like they end early. -/
def Legible (t : Term) : Prop := ∀ l ∈ t.leaves, l.isPlain = true ∧ l.isWhole = true

instance (t : Term) : Decidable t.Legible :=
  inferInstanceAs (Decidable (∀ l ∈ t.leaves, l.isPlain = true ∧ l.isWhole = true))

/-- The first character of a plain term says of which kind it is. -/
theorem mark_render {t : Term} (h : t.Legible) :
    ∃ c rest, t.render = c :: rest ∧ t.kindMark = some (mark c) := by
  cases t with
  | atom name =>
      rw [render, renderAtom]
      split
      next hbare =>
        rcases (bare_cases hbare).1 with ⟨c, rest, hname, hc⟩
        exact ⟨c, rest, hname, by rw [mark, hc, kindMark]; rfl⟩
      next => exact ⟨'\'', _, rfl, rfl⟩
  -- A minus sign or a digit. Both have the same mark, so that integers are one kind.
  | int n =>
      rw [render, FloatStyle.integer]
      split
      next => exact ⟨'-', _, rfl, rfl⟩
      next =>
        rcases toDigits_eq_cons n.toInt.natAbs with ⟨d, ds, hds, -⟩
        exact ⟨d, ds, hds, by rw [mark_of_mem (hds ▸ List.mem_cons_self), kindMark]⟩
  | text s => exact ⟨'"', _, rfl, rfl⟩
  | binary bytes => exact ⟨'<', _, rfl, rfl⟩
  | tuple es => exact ⟨'\x7b', _, rfl, rfl⟩
  | list es => exact ⟨'[', _, rfl, rfl⟩
  | _ => exact absurd (h _ List.mem_cons_self).1 (by simp [isPlain])

/-- The elements are written with commas between them. -/
theorem renderList_eq (ts : List Term) : renderList ts = separated [','] (ts.map render) := by
  induction ts with
  | nil => rfl
  | cons t rest ih =>
      cases rest with
      | nil => rfl
      | cons u rest =>
          rw [renderList, ih]
          simp [separated]

/-- No term looks like what closes a tuple or list. -/
theorem render_ne_close {t : Term} (h : t.Legible) {close : Char}
    (hclose : close = '\x7d' ∨ close = ']') : t.render ++ r ≠ close :: r' := by
  intro heq
  rcases mark_render h with ⟨c, rest, hc, hmark⟩
  rw [hc, List.cons_append, List.cons.injEq] at heq
  -- The closing signs stand for themselves, and no kind of term is marked with one.
  have hself : mark close = close := by
    rcases hclose with rfl | rfl
    · decide
    · decide
  rw [heq.1, hself] at hmark
  rcases hclose with rfl | rfl
  · cases t <;> simp [kindMark] at hmark
  · cases t <;> simp [kindMark] at hmark

/-- A term that is found in one way in front of a border. -/
def Found (a : Term) : Prop :=
  ∀ b : Term, b.Legible → ∀ r r', Bordered r → Bordered r' →
    a.render ++ r = b.render ++ r' → a = b ∧ r = r'

/-- The elements of two tuples or lists are the same if the first ones can be found. -/
theorem renderList_inj {as bs : List Term} (hfound : ∀ a ∈ as, a.Found)
    (ha : ∀ a ∈ as, a.Legible) (hb : ∀ b ∈ bs, b.Legible) {close : Char}
    (hclose : close = '\x7d' ∨ close = ']')
    (h : renderList as ++ close :: r = renderList bs ++ close :: r') : as = bs ∧ r = r' := by
  rw [renderList_eq, renderList_eq] at h
  have hborder : isBorder close = true := isBorder_iff.mpr (Or.inr hclose)
  have hne : close ≠ ',' := by
    rintro rfl
    exact absurd hclose (by decide)
  refine separated_inj (by decide) (by simp [hborder]) hne (fun t ht r r' => ?_)
    (fun a ha b hb' => hfound a ha b (hb b hb')) h
  rcases List.mem_append.mp ht with ht | ht
  · exact render_ne_close (ha t ht) hclose
  · exact render_ne_close (hb t ht) hclose

/-- Two rows of bytes are the same, whatever stands behind them. -/
theorem bytes_inj {as bs : List UInt8}
    (h : (Term.binary as).render ++ r = (Term.binary bs).render ++ r') : as = bs ∧ r = r' := by
  simp only [render, List.cons_append, List.append_assoc, List.nil_append, List.cons.injEq,
    true_and] at h
  -- A byte starts with a digit, so it does not look like what closes the row.
  have hstart : ∀ b ∈ as ++ bs, ∀ r r', Nat.toDigits 10 b.toNat ++ r ≠ '>' :: r' := by
    intro b _ r r' heq
    rcases toDigits_eq_cons b.toNat with ⟨d, ds, hds, hd⟩
    rw [hds, List.cons_append, List.cons.injEq] at heq
    rw [heq.1] at hd
    exact absurd hd (by decide)
  -- A byte in front of a comma or a closing sign has all its digits there.
  have hwrite : ∀ a ∈ as, ∀ b ∈ bs, ∀ r r', Stops Char.isDigit r → Stops Char.isDigit r' →
      Nat.toDigits 10 a.toNat ++ r = Nat.toDigits 10 b.toNat ++ r' → a = b ∧ r = r' := by
    intro a _ b _ r r' hr hr' heq
    rcases decimal_inj hr hr' heq with ⟨hab, hrest⟩
    exact ⟨UInt8.toNat_inj.mp hab, hrest⟩
  rcases separated_inj (by decide) (by decide) (by decide) hstart hwrite h with ⟨hbytes, hrest⟩
  exact ⟨hbytes, (List.cons.inj hrest).2⟩

theorem legible_of_mem {t : Term} {ts : List Term}
    (h : ∀ l ∈ leavesAll ts, l.isPlain = true ∧ l.isWhole = true) (ht : t ∈ ts) : t.Legible :=
  fun l hl => h l (mem_leavesAll ht hl)

mutual

/-- A term in front of a border is found in one way, by induction on the term. -/
theorem found (a : Term) (ha : a.Legible) : a.Found := by
  intro b hb r r' hr hr' h
  -- The first characters agree, so the kinds do, and only the diagonal is left.
  have hkind : a.kindMark = b.kindMark := by
    rcases mark_render ha with ⟨c, s, hc, ha⟩
    rcases mark_render hb with ⟨d, s', hd, hb⟩
    rw [hc, hd, List.cons_append, List.cons_append, List.cons.injEq] at h
    rw [ha, hb, h.1]
  cases a with
  | atom s =>
      cases b with
      | atom s' =>
          rcases renderAtom_inj (ha _ List.mem_cons_self).2 (hb _ List.mem_cons_self).2 hr hr' h
            with ⟨rfl, hrest⟩
          exact ⟨rfl, hrest⟩
      | _ => exact absurd hkind (by simp [kindMark])
  | int m =>
      cases b with
      | int n =>
          rcases FloatStyle.integer_inj (hr.stops (by decide) (by decide) (by decide))
            (hr'.stops (by decide) (by decide) (by decide)) h with ⟨hmn, hrest⟩
          exact ⟨congrArg Term.int (Int64.toInt_inj.mp hmn), hrest⟩
      | _ => exact absurd hkind (by simp [kindMark])
  | text s =>
      cases b with
      | text s' =>
          rcases quote_inj h with ⟨rfl, hrest⟩
          exact ⟨rfl, hrest⟩
      | _ => exact absurd hkind (by simp [kindMark])
  | binary as =>
      cases b with
      | binary bs =>
          rcases bytes_inj h with ⟨rfl, hrest⟩
          exact ⟨rfl, hrest⟩
      | _ => exact absurd hkind (by simp [kindMark])
  | tuple as =>
      cases b with
      | tuple bs =>
          simp only [render, List.cons_append, List.append_assoc, List.nil_append,
            List.cons.injEq, true_and] at h
          rcases renderList_inj (foundAll as ha) (fun _ => legible_of_mem ha)
            (fun _ => legible_of_mem hb) (Or.inl rfl) h with ⟨rfl, hrest⟩
          exact ⟨rfl, hrest⟩
      | _ => exact absurd hkind (by simp [kindMark])
  | list as =>
      cases b with
      | list bs =>
          simp only [render, List.cons_append, List.append_assoc, List.nil_append,
            List.cons.injEq, true_and] at h
          rcases renderList_inj (foundAll as ha) (fun _ => legible_of_mem ha)
            (fun _ => legible_of_mem hb) (Or.inr rfl) h with ⟨rfl, hrest⟩
          exact ⟨rfl, hrest⟩
      | _ => exact absurd hkind (by simp [kindMark])
  | _ => exact absurd (ha _ List.mem_cons_self).1 (by simp [isPlain])

/-- The elements of a tuple or list are found as well. It is proved together with `found`, which
    needs it for the elements. -/
theorem foundAll (as : List Term)
    (ha : ∀ l ∈ leavesAll as, l.isPlain = true ∧ l.isWhole = true) : ∀ a ∈ as, a.Found := by
  cases as with
  | nil => exact fun _ h => absurd h List.not_mem_nil
  | cons a as =>
      intro x hx
      rcases List.mem_cons.mp hx with heq | hx
      · rw [heq]
        exact found a (legible_of_mem ha List.mem_cons_self)
      · exact foundAll as (fun l hl => ha l (List.mem_append_right _ hl)) x hx

end

/-- Terms that can be read back have the same text only if they are equal. -/
theorem display_eq_iff {a b : Term} (ha : a.Legible) (hb : b.Legible) :
    a.display = b.display ↔ a.order b = .eq := by
  rw [order_eq_iff]
  constructor
  · intro h
    -- The end of the text serves as a border.
    have hrender : a.render ++ [] = b.render ++ [] := by
      rw [List.append_nil, List.append_nil]
      exact String.ofList_injective h
    exact (found a ha b hb [] [] (.nil _) (.nil _) hrender).1
  · rintro rfl
    rfl

/-- Commas and quotes inside texts and a quote inside an atom, and yet one text is not
    taken for two. -/
theorem display_eq_iff_nested :
    let a := Term.tuple [.atom "it's", .list [.int (-3), .text "a\",\"b"], .binary [1, 2]]
    let b := Term.tuple [.atom "it's", .list [.int (-3), .text "a", .text "b"], .binary [1, 2]]
    (a.Legible ∧ b.Legible) ∧ a.display ≠ b.display :=
  ⟨by decide, fun h => absurd ((display_eq_iff (by decide) (by decide)).mp h) (by decide)⟩

/-- Two quoted atoms are shown as one whose text has their quotes and the comma in it. -/
theorem display_torn (s s' : String) (hs : isBareAtom s.toList = false)
    (hs' : isBareAtom s'.toList = false) :
    (Term.tuple [.atom s, .atom s']).display = (Term.tuple [.atom (s ++ "','" ++ s')]).display := by
  -- There is a quote in the middle of the third text, so it is not a word.
  have hboth : isBareAtom (s ++ "','" ++ s').toList = false := by
    rcases h : isBareAtom (s ++ "','" ++ s').toList with _ | _
    · rfl
    · exact absurd ((bare_cases h).2 '\'' (by simp)) (by decide)
  simp only [display, render, renderList, renderAtom, hs, hs', hboth, Bool.false_eq_true, if_false]
  simp

/-- So there are plain terms with the same text that are not equal. -/
theorem ambiguous_display :
    ¬ ∀ a b : Term, (∀ l ∈ a.leaves, l.isPlain = true) → (∀ l ∈ b.leaves, l.isPlain = true) →
      a.display = b.display → a.order b = .eq := by
  intro h
  have heq := h _ _ (by decide) (by decide)
    (display_torn "A" "B" (by decide) (by decide))
  exact absurd heq (by decide)

end Term

end Actors
