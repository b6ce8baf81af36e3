import Actors.Proofs.Atom
import Mathlib.Data.List.Induction

/-!
# The Atom Table and Its History

The atom table against what was asked of it. What a history says needs no table: the
texts that were interned, each once, in the order in which they came up first. The
table holds exactly these, in this order, so the number of an atom is the place of
its text among them. It follows that numbers have no gaps, that equal atoms and equal
texts are the same thing, and that an atom keeps its text.

Looking a text up and comparing two atoms leave no trace in the history of texts, and
none in the table.

Numbers have 32 bits. A history that does not intern more texts than there are numbers
gives every text one of its own.

## Main definitions

* `Atom.Request`, `Atom.tableAfter`: What is asked of the table, and the table after it.
* `Atom.firsts`: The texts of a history, in the order in which they came up first.
* `Atom.given`: The atoms that a history gives for texts.
* `Atom.AtomLaw`: What can be relied on about the table and its atoms.

## Theorems

* `names_tableAfter`: The table holds the texts of its history.
* `nameAt?_of_givenFrom`: An atom stands for the text for which it was given.
* `existing?_tableAfter`: A text is found exactly if it was interned.
* `atomLaw`: Texts and atoms after every history.
-/

namespace Actors

namespace Atom

open Interner

/-! ## Histories -/

/-- What can be asked of an atom table. -/
inductive Request where
  /-- The atom of a text. -/
  | new (text : String)
  /-- The atom of a text that has been interned. -/
  | existing (text : String)
  /-- The order of two atoms. -/
  | order (a b : Atom)
deriving DecidableEq

/-- The table after a request. -/
def serve (t : Interner) : Request → Interner
  | .new text => (new t text).2
  | .existing _ => t
  | .order _ _ => t

/-- The table after some requests. -/
def serveAll (t : Interner) (requests : List Request) : Interner := requests.foldl serve t

/-- The table after a history that starts with no texts. -/
def tableAfter (history : List Request) : Interner := serveAll .empty history

/-- The text that a request interns. -/
def interned? : Request → Option String
  | .new text => some text
  | .existing _ => none
  | .order _ _ => none

/-- The texts that were interned, each once, in the order in which they came up first. -/
def firsts (history : List Request) : List String := (history.filterMap interned?).eraseDups

/-- The atom that a request gives for its text. -/
def gives (t : Interner) : Request → Option (String × Atom)
  | .new text => some (text, (new t text).1)
  | .existing text => (existing? t text).map fun a => (text, a)
  | .order _ _ => none

/-- The atoms that some requests give for their texts, from the first to the last. -/
def givenFrom (t : Interner) : List Request → List (String × Atom)
  | [] => []
  | r :: rest => (gives t r).toList ++ givenFrom (serve t r) rest

/-- The atoms that a history gives for texts. -/
def given (history : List Request) : List (String × Atom) := givenFrom .empty history

theorem mem_firsts {history : List Request} {s : String} :
    s ∈ firsts history ↔ .new s ∈ history := by
  rw [firsts, List.mem_eraseDups, List.mem_filterMap]
  constructor
  · -- Only a request to intern interns a text.
    rintro ⟨r, hr, hs⟩
    cases r with
    | new text =>
        rw [interned?, Option.some.injEq] at hs
        rwa [← hs]
    | existing text => exact absurd hs (by simp [interned?])
    | order a b => exact absurd hs (by simp [interned?])
  · exact fun h => ⟨_, h, rfl⟩

/-- A text joins the others only when it comes up for the first time. -/
theorem firsts_new (history : List Request) (s : String) :
    firsts (history ++ [.new s]) =
      if .new s ∈ history then firsts history else firsts history ++ [s] := by
  have hmem : s ∈ history.filterMap interned? ↔ .new s ∈ history :=
    List.mem_eraseDups.symm.trans mem_firsts
  rw [firsts, List.filterMap_append, List.eraseDups_append]
  change _ ++ ([s].removeAll _).eraseDups = _
  by_cases h : .new s ∈ history
  · rw [if_pos h, List.removeAll, List.filter_cons_of_neg (by simpa using hmem.mpr h)]
    exact List.append_nil _
  · rw [if_neg h, List.removeAll, List.filter_cons_of_pos (by simpa using mt hmem.mp h)]
    rfl

theorem firsts_of_none (history : List Request) {r : Request} (h : interned? r = none) :
    firsts (history ++ [r]) = firsts history := by
  rw [firsts, List.filterMap_append, List.filterMap_cons, h, List.filterMap_nil, List.append_nil,
    firsts]

/-! ## The table of a history -/

theorem tableAfter_concat (history : List Request) (r : Request) :
    tableAfter (history ++ [r]) = serve (tableAfter history) r := List.foldl_append

theorem names_new (t : Interner) (s : String) :
    (new t s).2.names = if s ∈ t.names then t.names else t.names ++ [s] := names_intern t s

/-- The table holds the texts of its history, in the order in which they came up first. -/
theorem names_tableAfter (history : List Request) : (tableAfter history).names = firsts history := by
  induction history using List.reverseRecOn with
  | nil => rfl
  | append_singleton history r ih =>
      rw [tableAfter_concat]
      cases r with
      | new text => simp only [serve, names_new, ih, firsts_new, mem_firsts]
      | existing text => exact ih.trans (firsts_of_none history rfl).symm
      | order a b => exact ih.trans (firsts_of_none history rfl).symm

theorem grows_serve (t : Interner) (r : Request) : t.Grows (serve t r) := by
  cases r with
  | new text => exact grows_new t text
  | existing text => exact .refl t
  | order a b => exact .refl t

theorem grows_serveAll (t : Interner) (requests : List Request) :
    t.Grows (serveAll t requests) := by
  induction requests generalizing t with
  | nil => exact .refl t
  | cons r rest ih => exact (grows_serve t r).trans (ih (serve t r))

/-! ## The atoms of a history -/

theorem existing?_eq_some_iff {t : Interner} (h : t.size ≤ UInt32.size) {s : String} {a : Atom} :
    existing? t s = some a ↔ t.nameAt? a.index.toNat = some s := by
  rw [existing?, Option.map_eq_some_iff, nameAt?_eq_some_iff]
  constructor
  · -- The number fits the field of an atom, so the way there and back loses nothing.
    rintro ⟨index, hindex, rfl⟩
    have hlt := lt_size_of_nameAt? (nameAt?_eq_some_iff.mpr hindex)
    rwa [show index.toUInt32.toNat = index from
      UInt32.toNat_ofNat_of_lt' (Nat.lt_of_lt_of_le hlt h)]
  · exact fun hs => ⟨_, hs, by simp only [Nat.toUInt32_eq, UInt32.ofNat_toNat]⟩

/-- What a request gives stands for its text as soon as it is given. -/
theorem nameAt?_of_gives {t : Interner} {r : Request} (h : (serve t r).size ≤ UInt32.size)
    {s : String} {a : Atom} (hg : gives t r = some (s, a)) :
    (serve t r).nameAt? a.index.toNat = some s := by
  cases r with
  | new text =>
      rw [gives, Option.some.injEq, Prod.mk.injEq] at hg
      rw [← hg.1, ← hg.2, index_new h]
      exact nameAt?_of_intern t text
  | existing text =>
      rw [gives, Option.map_eq_some_iff] at hg
      rcases hg with ⟨a', ha', heq⟩
      rw [Prod.mk.injEq] at heq
      rw [← heq.1, ← heq.2]
      exact (existing?_eq_some_iff h).mp ha'
  | order a' b' => exact absurd hg (by simp [gives])

/-- An atom stands for the text for which it was given, from then on. -/
theorem nameAt?_of_givenFrom {t : Interner} {requests : List Request}
    (h : (serveAll t requests).size ≤ UInt32.size) {s : String} {a : Atom}
    (hg : (s, a) ∈ givenFrom t requests) :
    (serveAll t requests).nameAt? a.index.toNat = some s := by
  induction requests generalizing t with
  | nil => exact absurd hg List.not_mem_nil
  | cons r rest ih =>
      rw [givenFrom, List.mem_append, Option.mem_toList] at hg
      rcases hg with hnow | hlater
      · -- What was true when the atom was given stays true as the table grows.
        have hgrows := grows_serveAll (serve t r) rest
        exact hgrows.nameAt? (nameAt?_of_gives (Nat.le_trans hgrows.size h) hnow)
      · exact ih h hlater

theorem exists_given_of_mem (t : Interner) {requests : List Request} {s : String}
    (h : .new s ∈ requests) : ∃ a, (s, a) ∈ givenFrom t requests := by
  induction requests generalizing t with
  | nil => exact absurd h List.not_mem_nil
  | cons r rest ih =>
      rcases List.mem_cons.mp h with rfl | hrest
      · exact ⟨(new t s).1, List.mem_append_left _ (Option.mem_toList.mpr rfl)⟩
      · rcases ih (serve t r) hrest with ⟨a, ha⟩
        exact ⟨a, List.mem_append_right _ ha⟩

/-- A text is found exactly if it was interned, and then interning it again gives the same
    atom and leaves the table as it is. -/
theorem existing?_tableAfter (history : List Request) (s : String) :
    (.new s ∈ history → existing? (tableAfter history) s = some (new (tableAfter history) s).1 ∧
      (new (tableAfter history) s).2 = tableAfter history) ∧
    (.new s ∉ history → existing? (tableAfter history) s = none) := by
  have hmem : s ∈ (tableAfter history).names ↔ .new s ∈ history := by
    rw [names_tableAfter, mem_firsts]
  -- From here on only the texts that the table holds matter.
  generalize tableAfter history = t at hmem
  refine ⟨fun h => ?_, fun h => ?_⟩
  · have hs : t.nameAt? (t.names.idxOf s) = some s :=
      List.getElem?_eq_some_iff.mpr ⟨List.idxOf_lt_length_of_mem (hmem.mpr h), List.getElem_idxOf _⟩
    rw [existing?, nameAt?_eq_some_iff.mp hs, new, intern_of_nameAt? hs]
    exact ⟨rfl, rfl⟩
  · rw [existing?, indexOf?_eq_idxOf?, List.idxOf?_eq_none_iff.mpr (mt hmem.mp h)]
    rfl

/-! ## The law of atoms -/

/-- What can be relied on about a table with a history, and about the atoms that the history
    gave. -/
structure AtomLaw (t : Interner) (history : List Request) : Prop where
  /-- An atom has the text for which it was given, however long ago that was. -/
  text_eq : ∀ s a, (s, a) ∈ given history → a.text t = s
  /-- Two atoms are the same exactly if they were given for the same text. -/
  eq_iff : ∀ s a s' a', (s, a) ∈ given history → (s', a') ∈ given history → (a = a' ↔ s = s')
  /-- The number of an atom is the place of its text among those that came up. -/
  numbered : ∀ s a, (s, a) ∈ given history → (firsts history)[a.index.toNat]? = some s
  /-- The numbers have no gaps. -/
  filled : ∀ index < t.size, ∃ s a, (s, a) ∈ given history ∧ a.index.toNat = index
  /-- The table is as large as the texts are many. -/
  counted : t.size = (firsts history).length
  /-- A text is found if it was interned. What is found is what interning it again would
      give, and neither changes the table. -/
  found : ∀ s, .new s ∈ history → existing? t s = some (new t s).1 ∧ (new t s).2 = t
  /-- No other text is found. -/
  missed : ∀ s, .new s ∉ history → existing? t s = none
  /-- Asking for what is there and comparing leave the table as it is. -/
  unchanged : ∀ s a b, tableAfter (history ++ [.existing s]) = t ∧
    tableAfter (history ++ [.order a b]) = t
  /-- Only the same atom compares as equal. -/
  order_eq_iff : ∀ s a s' a', (s, a) ∈ given history → (s', a') ∈ given history →
    (a.order t a' = .eq ↔ a = a')
  /-- Atoms stand in the order of their texts, whatever their numbers. -/
  order_eq : ∀ s a s' a', (s, a) ∈ given history → (s', a') ∈ given history →
    a.order t a' = Text.order s s'

/-- After every history that does not run out of numbers, atoms and texts are in step. -/
theorem atomLaw (history : List Request) (h : (firsts history).length ≤ UInt32.size) :
    AtomLaw (tableAfter history) history := by
  have hnames := names_tableAfter history
  have hsize : (tableAfter history).size ≤ UInt32.size := by rwa [size, hnames]
  have hname : ∀ s a, (s, a) ∈ given history →
      (tableAfter history).nameAt? a.index.toNat = some s :=
    fun s a hg => nameAt?_of_givenFrom hsize hg
  have htext : ∀ s a, (s, a) ∈ given history → a.text (tableAfter history) = s :=
    fun s a hg => by rw [text, hname s a hg, Option.getD_some]
  have heq : ∀ s a s' a', (s, a) ∈ given history → (s', a') ∈ given history →
      (a = a' ↔ s = s') := by
    intro s a s' a' hg hg'
    constructor
    · rintro rfl
      exact (htext s a hg).symm.trans (htext s' a hg')
    · rintro rfl
      have hindex := UInt32.toNat_inj.mp (eq_of_nameAt? (hname s a hg) (hname s a' hg'))
      rcases a with ⟨i⟩
      rcases a' with ⟨j⟩
      exact congrArg Atom.mk hindex
  have horder : ∀ s a s' a', (s, a) ∈ given history → (s', a') ∈ given history →
      a.order (tableAfter history) a' = Text.order s s' :=
    fun s a s' a' hg hg' => by rw [Atom.order_eq, htext s a hg, htext s' a' hg']
  refine ⟨htext, heq, fun s a hg => ?_, fun index hlt => ?_, congrArg List.length hnames,
    fun s => (existing?_tableAfter history s).1, fun s => (existing?_tableAfter history s).2,
    fun s a b => ⟨tableAfter_concat history _, tableAfter_concat history _⟩,
    fun s a s' a' hg hg' => ?_, horder⟩
  · rw [← hnames]
    exact hname s a hg
  · -- Whatever text stands at a number was interned, and the atom that was given for it has
    -- this number.
    have hs : (tableAfter history).nameAt? index = some ((tableAfter history).names[index]) :=
      List.getElem?_eq_getElem hlt
    have hnew : .new (tableAfter history).names[index] ∈ history := by
      rw [← mem_firsts, ← hnames]
      exact List.getElem_mem hlt
    rcases exists_given_of_mem .empty hnew with ⟨a, ha⟩
    exact ⟨_, a, ha, eq_of_nameAt? (hname _ a ha) hs⟩
  · rw [horder s a s' a' hg hg', heq s a s' a' hg hg', Text.order_eq_iff]

/-- Two texts that were interned against their order, and one of them twice. -/
theorem atomLaw_reversed :
    let history := [.new "zz", .existing "aa", .new "aa", .new "zz", .existing "zz"]
    (firsts history).length ≤ UInt32.size ∧ AtomLaw (tableAfter history) history ∧
      firsts history = ["zz", "aa"] ∧
      given history = [("zz", ⟨0⟩), ("aa", ⟨1⟩), ("zz", ⟨0⟩), ("zz", ⟨0⟩)] ∧
      Atom.order (tableAfter history) ⟨1⟩ ⟨0⟩ = .lt :=
  ⟨by decide, atomLaw _ (by decide), by decide, by decide, by decide⟩

end Atom

end Actors
