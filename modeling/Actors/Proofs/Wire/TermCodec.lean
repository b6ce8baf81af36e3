import Actors.Proofs.Term.Numbered
import Actors.Proofs.Wire.Reading
import Actors.Wire.Atoms

/-!
# Everything That Is Sent Arrives

The binary forms of terms, identifiers and atoms are read back exactly, bit by
bit where floats are concerned, and whatever follows them is left alone. Two
values have the same form only if they are the same, and no form is the
beginning of another one.

A term is read back by induction on the term, along the recursion of its
writer. The bound on the nesting never gets in the way, because a level of
nesting takes at least the byte that names the kind. Everything of varying
length has to have a length of 64 bits, which is no restriction for anything
held in memory, and a term with something longer in it is not read at all.

Atoms travel as their texts. The table that wrote an atom gives the same atom
back, also after it has grown, and does not grow by reading it. Any other table
gives an atom with the same text.

## Main definitions

* `Term.isStorable`: Whether the lengths in a term have 64 bits.
* `Wire.Faithful`: A form from which everything valid is read back.

## Theorems

* `Faithful.of_back`: What is read back is told apart.
* `Term.reads_encode`, `Term.refuses_encode`: A term is read back, or refused.
* `Term.decode_encode_iff`: Just the terms whose lengths have 64 bits are read back.
* `faithful_encodings`: All forms are faithful.
-/

namespace Actors

namespace Wire

variable {α β : Type}

/-- A form from which everything valid is read back. -/
structure Faithful (valid : α → Prop) (encode : α → List UInt8)
    (decode : List UInt8 → Except DecodeError (β × List UInt8)) (value : α → β) : Prop where
  /-- What was written is read, and what follows it is left alone. -/
  back : ∀ a, valid a → ∀ rest, decode (encode a ++ rest) = .ok (value a, rest)
  /-- Only the same values have the same form. -/
  inj : ∀ a b, valid a → valid b → (encode a = encode b ↔ a = b)
  /-- No form is the beginning of another one. -/
  prefix_free : ∀ a b, valid a → valid b → encode a <+: encode b → a = b

/-- What is read back is told apart. -/
theorem Faithful.of_back {valid : α → Prop} {encode : α → List UInt8}
    {decode : List UInt8 → Except DecodeError (β × List UInt8)} {value : α → β}
    (hvalue : ∀ a b, value a = value b → a = b)
    (hback : ∀ a, valid a → ∀ rest, decode (encode a ++ rest) = .ok (value a, rest)) :
    Faithful valid encode decode value := by
  have hprefix : ∀ a b, valid a → valid b → encode a <+: encode b → a = b := by
    rintro a b ha hb ⟨rest, hrest⟩
    -- The longer form is read in two ways, as itself and as the shorter one.
    have hread := hback b hb []
    rw [List.append_nil, ← hrest, hback a ha rest, Except.ok.injEq, Prod.mk.injEq] at hread
    exact hvalue a b hread.1
  refine ⟨hback, fun a b ha hb => ⟨fun h => ?_, fun h => h ▸ rfl⟩, hprefix⟩
  exact hprefix a b ha hb (h ▸ List.prefix_rfl)

end Wire

open Wire

namespace Term

mutual

/-- Whether everything in a term that varies in length has a length of 64 bits,
    as everything that is held in memory has. -/
def isStorable : Term → Bool
  | .atom name => (Text.bytes name).length < UInt64.size
  | .text value => (Text.bytes value).length < UInt64.size
  | .binary bytes => bytes.length < UInt64.size
  | .tuple elements => elements.length < UInt64.size && areStorable elements
  | .list elements => elements.length < UInt64.size && areStorable elements
  | .int _ | .float _ | .pid _ | .ref _ => true

/-- The same for all of some terms. -/
def areStorable : List Term → Bool
  | [] => true
  | t :: rest => t.isStorable && areStorable rest

end

/-- Elements after their number. -/
theorem reads_elements {element : Parser Term} {es : List Term} (build : List Term → Term)
    (h : (decide (es.length < UInt64.size) && areStorable es) = true)
    (hes : areStorable es = true → Reads (element.times es.length) (encodeList es) es) :
    Reads (do return build (← element.times (← readLength)))
      (encodeLength es.length ++ encodeList es) (build es) := by
  rw [Bool.and_eq_true, decide_eq_true_iff] at h
  exact (reads_length h.1).bind ((hes h.2).map build)

/-- A term is the number of its kind and then its contents. -/
theorem reads_of_contents {depth k : Nat} (hk : k < 128) {bytes : List UInt8} {t : Term}
    (h : Reads (readContents (read depth) k) bytes t) :
    Reads (read (depth + 1)) (k.toUInt8 :: bytes) t := (reads_kind hk).bind h

mutual

/-- A term is read back if it may be nested as deeply as it has bytes. -/
theorem reads_encode (t : Term) (h : t.isStorable = true) {depth : Nat}
    (hd : t.encode.length ≤ depth) : Reads (read depth) t.encode t := by
  -- The byte of the kind is the level of nesting that the elements do not need.
  rcases depth with _ | depth
  · cases t <;> exact absurd hd (Nat.not_succ_le_zero _)
  cases t with
  | atom name =>
      refine reads_of_contents (k := 0) (by decide) ?_
      exact (reads_encodeText (of_decide_eq_true h)).map Term.atom
  | int value =>
      refine reads_of_contents (k := 1) (by decide) ?_
      have hread := (reads_word64 (zigzag_lt value)).map fun n => int (Int64.ofInt (unzigzag n))
      rwa [unzigzag_zigzag, Int64.ofInt_toInt] at hread
  | float value =>
      refine reads_of_contents (k := 2) (by decide) ?_
      have hread := (reads_littleEndian value.bits).map fun bytes =>
        float ⟨(ofLittleEndian bytes).toUInt64⟩
      rwa [ofLittleEndian_word64] at hread
  | text value =>
      refine reads_of_contents (k := 3) (by decide) ?_
      exact (reads_encodeText (of_decide_eq_true h)).map Term.text
  | binary bytes =>
      refine reads_of_contents (k := 4) (by decide) ?_
      exact (reads_length (of_decide_eq_true h)).bind ((reads_take bytes).map Term.binary)
  | pid p => exact reads_of_contents (k := 5) (by decide) (p.reads_encode.map Term.pid)
  | ref r => exact reads_of_contents (k := 6) (by decide) (r.reads_encode.map Term.ref)
  | tuple elements =>
      rw [encode, List.length_cons, List.length_append] at hd
      refine reads_of_contents (k := 7) (by decide) (reads_elements tuple h fun hes => ?_)
      exact reads_encodeList elements hes (by omega)
  | list elements =>
      rw [encode, List.length_cons, List.length_append] at hd
      refine reads_of_contents (k := 8) (by decide) (reads_elements list h fun hes => ?_)
      exact reads_encodeList elements hes (by omega)

theorem reads_encodeList (ts : List Term) (h : areStorable ts = true) {depth : Nat}
    (hd : (encodeList ts).length ≤ depth) :
    Reads ((read depth).times ts.length) (encodeList ts) ts := by
  cases ts with
  | nil => exact reads_pure []
  | cons t rest =>
      rw [areStorable, Bool.and_eq_true] at h
      rw [encodeList, List.length_append] at hd
      have hrest : Reads ((read depth).times rest.length) (encodeList rest) rest :=
        reads_encodeList rest h.2 (by omega)
      exact (reads_encode t h.1 (by omega)).bind (hrest.map (t :: ·))

end

theorem refuses_of_contents {depth k : Nat} (hk : k < 128) {bytes : List UInt8}
    (h : Refuses (readContents (read depth) k) bytes) :
    Refuses (read (depth + 1)) (k.toUInt8 :: bytes) := (reads_kind hk).bind_refuses h

/-- Too many elements are refused, and so are elements of which one is refused. -/
theorem refuses_elements {element : Parser Term} {es : List Term} (build : List Term → Term)
    (h : (decide (es.length < UInt64.size) && areStorable es) = false)
    (hes : areStorable es = false → Refuses (element.times es.length) (encodeList es)) :
    Refuses (do return build (← element.times (← readLength)))
      (encodeLength es.length ++ encodeList es) := by
  -- Too long a list is refused by its number already, and a shorter one by its elements.
  by_cases hlen : es.length < UInt64.size
  · rw [decide_eq_true hlen, Bool.true_and] at h
    exact (reads_length hlen).bind_refuses ((hes h).bind_nil _)
  · exact (refuses_length (Nat.not_lt.mp hlen)).bind _ _

mutual

/-- A term with something longer in it is not read at all. -/
theorem refuses_encode (t : Term) (h : t.isStorable = false) {depth : Nat}
    (hd : t.encode.length ≤ depth) : Refuses (read depth) t.encode := by
  -- Every form begins with the number of its kind, so it has a byte and the depth is not zero.
  rcases depth with _ | depth
  · cases t <;> exact absurd hd (Nat.not_succ_le_zero _)
  cases t with
  -- These kinds have nothing in them that varies in length.
  | int value => exact absurd h (by simp [isStorable])
  | float value => exact absurd h (by simp [isStorable])
  | pid p => exact absurd h (by simp [isStorable])
  | ref r => exact absurd h (by simp [isStorable])
  -- Here a length does not fit, and the reader of lengths refuses it.
  | atom name =>
      have hlong := Nat.not_lt.mp (of_decide_eq_false h)
      exact refuses_of_contents (k := 0) (by decide) ((refuses_encodeText hlong).bind_nil _)
  | text value =>
      have hlong := Nat.not_lt.mp (of_decide_eq_false h)
      exact refuses_of_contents (k := 3) (by decide) ((refuses_encodeText hlong).bind_nil _)
  | binary bytes =>
      have hlong := Nat.not_lt.mp (of_decide_eq_false h)
      exact refuses_of_contents (k := 4) (by decide) ((refuses_length hlong).bind _ bytes)
  | tuple elements =>
      rw [encode, List.length_cons, List.length_append] at hd
      refine refuses_of_contents (k := 7) (by decide) (refuses_elements tuple h fun hes => ?_)
      exact refuses_encodeList elements hes (by omega)
  | list elements =>
      rw [encode, List.length_cons, List.length_append] at hd
      refine refuses_of_contents (k := 8) (by decide) (refuses_elements list h fun hes => ?_)
      exact refuses_encodeList elements hes (by omega)

theorem refuses_encodeList (ts : List Term) (h : areStorable ts = false) {depth : Nat}
    (hd : (encodeList ts).length ≤ depth) :
    Refuses ((read depth).times ts.length) (encodeList ts) := by
  cases ts with
  | nil => exact absurd h (by simp [areStorable])
  | cons t rest =>
      rw [encodeList, List.length_append] at hd
      rcases ht : t.isStorable with _ | _
      · exact (refuses_encode t ht (by omega)).bind _ _
      · -- The first of the elements is read, and one of the others is not.
        rw [areStorable, ht, Bool.true_and] at h
        have hrest : Refuses ((read depth).times rest.length) (encodeList rest) :=
          refuses_encodeList rest h (by omega)
        exact (reads_encode t ht (by omega)).bind_refuses (hrest.bind_nil _)

end

/-- A term is read back off the front of whatever follows it. -/
theorem decode_encode {t : Term} (h : t.isStorable = true) (rest : List UInt8) :
    decode (t.encode ++ rest) = .ok (t, rest) := by
  refine reads_encode t h ?_ rest
  rw [List.length_append]
  omega

/-- Nothing else keeps a term from being read back. -/
theorem decode_encode_iff {t : Term} {rest : List UInt8} :
    decode (t.encode ++ rest) = .ok (t, rest) ↔ t.isStorable = true := by
  refine ⟨fun h => ?_, fun h => decode_encode h rest⟩
  rcases ht : t.isStorable with _ | _
  · -- What is not storable is refused, and so it was not read.
    have hd : t.encode.length ≤ (t.encode ++ rest).length + 1 := by
      rw [List.length_append]
      omega
    rcases refuses_encode t ht hd rest with ⟨e, he⟩
    exact absurd (h.symm.trans he) (by simp)
  · rfl

example : (tuple [.atom "ok", .int (-1)]).encode = [7, 2, 0, 2, 111, 107, 1, 1] := by decide

end Term

/-! ## Atoms -/

variable {t t' : Interner}

theorem Atom.decode_encode {a : Atom} (h : (Text.bytes (a.text t)).length < UInt64.size)
    (t' : Interner) (rest : List UInt8) :
    Atom.decode t' (a.encode t ++ rest) = .ok (Atom.new t' (a.text t), rest) :=
  (reads_encodeText h).map (Atom.new t') rest

/-- The table that wrote an atom gives it back, also after it has grown. -/
theorem Atom.new_text_of_grows (hg : t.Grows t') {a : Atom} (h : a.isKnown t = true) :
    Atom.new t' (a.text t) = (a, t') := by
  rw [← Atom.text_of_grows hg h]
  exact Atom.new_text (Atom.known_of_grows hg h)

theorem NumberedTerm.decode_encode {a : NumberedTerm} (h : (a.spell t).isStorable = true)
    (t' : Interner) (rest : List UInt8) :
    NumberedTerm.decode t' (a.encode t ++ rest) = .ok ((a.spell t).number t', rest) := by
  rw [decode, encode, Term.decode_encode h]

theorem NumberedTerm.number_spell_of_grows (hg : t.Grows t') {a : NumberedTerm}
    (h : a.isKnown t = true) : (a.spell t).number t' = (a, t') := by
  rw [← spell_of_grows hg a h]
  exact number_spell a (known_of_grows hg a h)

/-- Every form is read back exactly: terms, process names and references, and
    in the table they are of atoms and terms with numbered atoms. In a table of
    another node the texts stay the same. -/
theorem faithful_encodings :
    Faithful (fun a => a.isStorable = true) Term.encode Term.decode id ∧
    (∀ (a : Term) (rest : List UInt8),
      Term.decode (a.encode ++ rest) = .ok (a, rest) ↔ a.isStorable = true) ∧
    (∀ a b : Term, a.isStorable = true → b.isStorable = true →
      (Term.order a b = .eq ↔ a.encode = b.encode)) ∧
    Faithful (fun _ => True) Pid.encode Pid.read.run id ∧
    Faithful (fun _ => True) Ref.encode Ref.read.run id ∧
    (∀ t t' : Interner, t.Grows t' →
      Faithful (fun a => a.isKnown t = true ∧ (Text.bytes (a.text t)).length < UInt64.size)
        (Atom.encode t) (Atom.decode t') (·, t') ∧
      Faithful (fun a => a.isKnown t = true ∧ (a.spell t).isStorable = true)
        (NumberedTerm.encode t) (NumberedTerm.decode t') (·, t')) ∧
    (∀ (t t' : Interner) (a : Atom) (rest : List UInt8),
      (Text.bytes (a.text t)).length < UInt64.size → t'.size < UInt32.size →
      ∃ b t'', Atom.decode t' (a.encode t ++ rest) = .ok ((b, t''), rest) ∧
        b.isKnown t'' = true ∧ b.text t'' = a.text t) ∧
    ∀ (t t' : Interner) (a : NumberedTerm) (rest : List UInt8),
      (a.spell t).isStorable = true → ((a.spell t).number t').2.size ≤ UInt32.size →
      ∃ b t'', NumberedTerm.decode t' (a.encode t ++ rest) = .ok ((b, t''), rest) ∧
        b.isKnown t'' = true ∧ b.spell t'' = a.spell t := by
  have hterm : Faithful (fun a => a.isStorable = true) Term.encode Term.decode id :=
    .of_back (fun _ _ h => h) fun a ha rest => Term.decode_encode ha rest
  refine ⟨hterm, fun _ _ => Term.decode_encode_iff, fun a b ha hb => ?_, ?_, ?_,
    fun t t' hg => ⟨?_, ?_⟩, ?_, ?_⟩
  · rw [Term.order_eq_iff]
    exact (hterm.inj a b ha hb).symm
  · exact .of_back (fun _ _ h => h) fun p _ rest => p.reads_encode rest
  · exact .of_back (fun _ _ h => h) fun r _ rest => r.reads_encode rest
  · -- An atom is written as its text, and the table that wrote it gives the same number for it.
    refine .of_back (fun a b h => (Prod.mk.inj h).1) fun a ha rest => ?_
    rw [Atom.decode_encode ha.2, Atom.new_text_of_grows hg ha.1]
  · refine .of_back (fun a b h => (Prod.mk.inj h).1) fun a ha rest => ?_
    rw [NumberedTerm.decode_encode ha.2, NumberedTerm.number_spell_of_grows hg ha.1]
  · -- In another table the text may be new, and one number more has to be left for it.
    intro t t' a rest ha hsize
    have hroom : (Atom.new t' (a.text t)).2.size ≤ UInt32.size :=
      Nat.le_trans (t'.size_intern_le (a.text t)) hsize
    exact ⟨_, _, Atom.decode_encode ha t' rest, Atom.known_new hroom, Atom.text_new hroom⟩
  · intro t t' a rest ha hsize
    rcases Term.spell_number t' (a.spell t) hsize with ⟨hk, hs⟩
    exact ⟨_, _, NumberedTerm.decode_encode ha t' rest, hk, hs⟩

/-- A term with a NaN, the least integer and nested collections, ahead of another byte. -/
theorem nested_read_back :
    Term.decode ((Term.tuple [.atom "ok", .float ⟨0xFFF8000000000001⟩, .int Int64.minValue,
      .list [.text "", .binary [0, 255]]]).encode ++ [7]) =
    .ok (.tuple [.atom "ok", .float ⟨0xFFF8000000000001⟩, .int Int64.minValue,
      .list [.text "", .binary [0, 255]]], [7]) :=
  faithful_encodings.1.back _ (by decide) _

end Actors
