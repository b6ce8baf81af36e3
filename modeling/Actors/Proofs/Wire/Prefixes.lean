import Actors.Proofs.Wire.Reading

/-!
# Where a Form Ends

A parser finds the end of what it reads by itself. Whatever comes after does not
matter to it, and if the bytes end too early it asks for more: nothing that is
cut off is taken for something shorter, or for something else that is wrong.

Both are kept when parsers are put one after the other, so they hold of the
reader of terms on all inputs, and not only on what a writer produces. A cut
through the second of two parts leaves the first one whole, which is read as
before; a cut through the first one is noticed there.

The reader of terms is given a bound on the nesting that depends on the number
of bytes. Any larger bound would do as well, because each level takes at least
the number of its kind. So the bytes may be cut or continued without a change of
what is read.

## Main definitions

* `Wire.Starves`: A parser asks for more when some bytes are cut off.
* `Wire.Delimits`: A parser finds the end of what it reads.
* `Wire.AgreeBelow`: Two parsers say the same about everything that is short.

## Theorems

* `Delimits.bind`: Parsers that find the end, one after the other.
* `delimits_read`: The reader of terms finds the end.
* `decode_eq_read`: Every bound above the number of bytes gives the same.
* `decode_delimits`: What follows a term does not matter, and a cut is noticed.
-/

namespace Actors

namespace Wire

variable {α β : Type}

/-- What follows another parser reads what that one left. -/
theorem Parser.exists_of_run_bind {p : Parser α} {f : α → Parser β} {bytes rest : List UInt8}
    {b : β} (h : (p >>= f).run bytes = .ok (b, rest)) :
    ∃ a mid, p.run bytes = .ok (a, mid) ∧ (f a).run mid = .ok (b, rest) := by
  rcases hp : p.run bytes with e | ⟨a, mid⟩
  · rw [Parser.run_bind_error hp] at h
    exact absurd h (by simp)
  · rw [Parser.run_bind_ok hp] at h
    exact ⟨a, mid, rfl, h⟩

theorem Parser.exists_of_run_map {p : Parser α} {f : α → β} {bytes rest : List UInt8} {b : β}
    (h : (p >>= fun a => pure (f a)).run bytes = .ok (b, rest)) :
    ∃ a, p.run bytes = .ok (a, rest) ∧ b = f a := by
  rcases Parser.exists_of_run_bind h with ⟨a, mid, hp, hf⟩
  rw [Parser.run_pure, Except.ok.injEq, Prod.mk.injEq] at hf
  exact ⟨a, hf.2 ▸ hp, hf.1.symm⟩

/-- A parser asks for more when it gets only a part of some bytes. -/
def Starves (p : Parser α) (front : List UInt8) : Prop :=
  ∀ cut, cut <+: front → cut ≠ front → p.run cut = .error .unexpectedEnd

/-- A parser finds the end of what it reads, whatever comes after that, and asks
    for more if the bytes end before. -/
def Delimits (p : Parser α) : Prop :=
  ∀ bytes a rest, p.run bytes = .ok (a, rest) →
    ∃ front, bytes = front ++ rest ∧ Reads p front a ∧ Starves p front

theorem delimits_pure (a : α) : Delimits (pure a : Parser α) := by
  intro bytes a' rest h
  rw [Parser.run_pure, Except.ok.injEq, Prod.mk.injEq] at h
  refine ⟨[], h.2, h.1 ▸ reads_pure a, fun cut hcut hne => ?_⟩
  exact absurd (List.prefix_nil.mp hcut) hne

theorem delimits_fail (e : DecodeError) : Delimits (.fail e : Parser α) :=
  fun _ _ _ h => absurd h (by simp)

theorem delimits_byte : Delimits .byte := by
  intro bytes b rest h
  cases bytes with
  | nil => exact absurd h (by simp [Parser.run, Parser.byte])
  | cons b' rest' =>
      rw [Parser.run_byte_cons, Except.ok.injEq, Prod.mk.injEq] at h
      refine ⟨[b], by rw [h.1, h.2]; rfl, reads_byte b, fun cut hcut hne => ?_⟩
      cases cut with
      | nil => rfl
      | cons c cut =>
          rcases List.cons_prefix_cons.mp hcut with ⟨rfl, hnil⟩
          exact absurd (by rw [List.prefix_nil.mp hnil]) hne

theorem run_take_eq_ok {n : Nat} {bytes front rest : List UInt8}
    (h : (Parser.take n).run bytes = .ok (front, rest)) :
    bytes = front ++ rest ∧ front.length = n := by
  rw [Parser.run, Parser.take] at h
  split at h
  next hn =>
    rw [Except.ok.injEq, Prod.mk.injEq] at h
    rw [← h.1, ← h.2]
    exact ⟨(List.take_append_drop n bytes).symm, List.length_take_of_le hn⟩
  next => exact absurd h (by simp)

theorem delimits_take (n : Nat) : Delimits (.take n) := by
  intro bytes front rest h
  rcases run_take_eq_ok h with ⟨hsplit, rfl⟩
  refine ⟨front, hsplit, reads_take front, fun cut hcut hne => ?_⟩
  -- A proper beginning is shorter, and there are too few bytes in it.
  have hlt : cut.length < front.length :=
    Nat.lt_of_le_of_ne hcut.length_le fun heq => hne (hcut.eq_of_length heq)
  rw [Parser.run, Parser.take, if_neg (Nat.not_le.mpr hlt)]

/-- A cut through the first of two parts is noticed there, and one through the
    second leaves the first as it is. -/
theorem Starves.bind {p : Parser α} {f : α → Parser β} {front front' : List UInt8} {a : α}
    (hread : Reads p front a) (hp : Starves p front) (hf : Starves (f a) front') :
    Starves (p >>= f) (front ++ front') := by
  intro cut hcut hne
  by_cases hfirst : front <+: cut
  · rcases hfirst with ⟨cut', rfl⟩
    rw [List.prefix_append_right_inj] at hcut
    rw [Parser.run_bind_ok (hread cut')]
    exact hf cut' hcut fun heq => hne (heq ▸ rfl)
  · rcases List.prefix_or_prefix_of_prefix hcut (List.prefix_append front front') with h | h
    · have hcut' : cut ≠ front := fun heq => hfirst (heq ▸ List.prefix_rfl)
      exact Parser.run_bind_error (hp cut h hcut')
    · exact absurd h hfirst

theorem Delimits.bind {p : Parser α} {f : α → Parser β} (hp : Delimits p)
    (hf : ∀ a, Delimits (f a)) : Delimits (p >>= f) := by
  intro bytes b rest h
  rcases Parser.exists_of_run_bind h with ⟨a, mid, hfirst, hsecond⟩
  rcases hp bytes a mid hfirst with ⟨front, rfl, hread, hstarves⟩
  rcases hf a mid b rest hsecond with ⟨front', rfl, hread', hstarves'⟩
  exact ⟨front ++ front', (List.append_assoc front front' rest).symm, hread.bind hread',
    Starves.bind hread hstarves hstarves'⟩

/-- What is read is turned into something else. -/
theorem Delimits.map {p : Parser α} (hp : Delimits p) (f : α → β) :
    Delimits (p >>= fun a => pure (f a)) := hp.bind fun a => delimits_pure (f a)

theorem Delimits.times {p : Parser α} (hp : Delimits p) (n : Nat) : Delimits (p.times n) := by
  induction n with
  | zero => exact delimits_pure []
  | succ n ih => exact hp.bind fun a => ih.map (a :: ·)

theorem Delimits.length_le {p : Parser α} (hp : Delimits p) {bytes rest : List UInt8} {a : α}
    (h : p.run bytes = .ok (a, rest)) : rest.length ≤ bytes.length := by
  rcases hp bytes a rest h with ⟨front, rfl, -⟩
  rw [List.length_append]
  omega

/-- A parser that wants at least one byte takes one. -/
theorem Delimits.length_lt {p : Parser α} (hp : Delimits p) {e : DecodeError}
    (hnil : p.run [] = .error e) {bytes rest : List UInt8} {a : α}
    (h : p.run bytes = .ok (a, rest)) : rest.length < bytes.length := by
  rcases hp bytes a rest h with ⟨front, rfl, hread, -⟩
  cases front with
  | nil => exact absurd ((hread []).symm.trans hnil) (by simp)
  | cons b front =>
      rw [List.length_append, List.length_cons]
      omega

/-! ## Numbers, text and identifiers -/

theorem delimits_readVarintGroups (last k : Nat) : Delimits (readVarintGroups last k) := by
  induction k with
  | zero => exact delimits_fail .badVarint
  | succ k ih =>
      refine delimits_byte.bind fun b => ?_
      split
      · split
        · exact delimits_fail .badVarint
        · exact delimits_pure b.toNat
      · exact ih.map fun high => b.toNat - 128 + 128 * high

theorem delimits_readVarint (type : VarintType) : Delimits (readVarint type) :=
  delimits_readVarintGroups type.lastByteMax type.maxBytes

theorem delimits_readText : Delimits readText := by
  refine (delimits_readVarint .word64).bind fun n => (delimits_take n).bind fun bytes => ?_
  split
  · exact delimits_pure _
  · exact delimits_fail .badUtf8

theorem delimits_readWord32 : Delimits readWord32 := (delimits_readVarint .word32).map Nat.toUInt32

/-- Four numbers, and whatever is made of them. -/
theorem delimits_parts (build : UInt32 → UInt32 → UInt32 → UInt32 → α) :
    Delimits (do
      let node ← readWord32
      let id ← readWord32
      let serial ← readWord32
      let creation ← readWord32
      return build node id serial creation) :=
  delimits_readWord32.bind fun node => delimits_readWord32.bind fun id =>
    delimits_readWord32.bind fun serial => delimits_readWord32.map (build node id serial)

/-! ## Bounds on the nesting -/

/-- Two parsers say the same about everything that is shorter than some length. -/
def AgreeBelow (n : Nat) (p q : Parser α) : Prop :=
  ∀ bytes, bytes.length < n → p.run bytes = q.run bytes

theorem AgreeBelow.bind {n : Nat} {p q : Parser α} {f g : α → Parser β} (hpq : AgreeBelow n p q)
    (hp : Delimits p) (hfg : ∀ a, AgreeBelow n (f a) (g a)) :
    AgreeBelow n (p >>= f) (q >>= g) := by
  intro bytes hlen
  have heq := hpq bytes hlen
  rcases h : p.run bytes with e | ⟨a, mid⟩
  · rw [Parser.run_bind_error h, Parser.run_bind_error (heq ▸ h)]
  · -- What is left is no longer than what was there.
    rw [Parser.run_bind_ok h, Parser.run_bind_ok (heq ▸ h)]
    exact hfg a mid (Nat.lt_of_le_of_lt (hp.length_le h) hlen)

theorem agreeBelow_refl (n : Nat) (p : Parser α) : AgreeBelow n p p := fun _ _ => rfl

theorem AgreeBelow.times {n : Nat} {p q : Parser α} (hpq : AgreeBelow n p q) (hp : Delimits p)
    (k : Nat) : AgreeBelow n (p.times k) (q.times k) := by
  induction k with
  | zero => exact agreeBelow_refl n _
  | succ k ih => exact hpq.bind hp fun a => ih.bind (hp.times k) fun _ => agreeBelow_refl n _

end Wire

open Wire

namespace Term

theorem delimits_readContents {element : Parser Term} (h : Delimits element) (kind : Nat) :
    Delimits (readContents element kind) := by
  have hlength := delimits_readVarint .word64
  unfold readContents
  split
  · exact delimits_readText.map atom
  · exact hlength.map fun n => int (Int64.ofInt (unzigzag n))
  · exact (delimits_take 8).map fun bytes => float ⟨(ofLittleEndian bytes).toUInt64⟩
  · exact delimits_readText.map text
  · exact hlength.bind fun n => (delimits_take n).map binary
  · exact (delimits_parts Pid.mk).map pid
  · exact (delimits_parts Ref.mk).map ref
  · exact hlength.bind fun n => (h.times n).map tuple
  · exact hlength.bind fun n => (h.times n).map list
  · exact delimits_fail .unknownKind

/-- The reader of terms finds the end of a term, however deep terms may be nested. -/
theorem delimits_read (depth : Nat) : Delimits (read depth) := by
  induction depth with
  | zero => exact delimits_fail .unexpectedEnd
  | succ depth ih => exact (delimits_readVarint .word32).bind (delimits_readContents ih)

theorem agreeBelow_readContents {n : Nat} {element element' : Parser Term}
    (heq : AgreeBelow n element element') (h : Delimits element) (kind : Nat) :
    AgreeBelow n (readContents element kind) (readContents element' kind) := by
  have hlength := delimits_readVarint .word64
  unfold readContents
  split
  -- Only the two collections read terms in turn.
  case h_8 | h_9 =>
    refine (agreeBelow_refl n _).bind hlength fun k => ?_
    exact (heq.times h k).bind (h.times k) fun _ => agreeBelow_refl n _
  all_goals exact agreeBelow_refl n _

/-- Two bounds on the nesting make no difference to anything shorter than both. -/
theorem agreeBelow_read {n d d' : Nat} (hd : n ≤ d) (hd' : n ≤ d') :
    AgreeBelow n (read d) (read d') := by
  induction n generalizing d d' with
  | zero => exact fun _ hlen => absurd hlen (Nat.not_lt_zero _)
  | succ n ih =>
      rcases Nat.exists_eq_add_of_le' hd with ⟨e, rfl⟩
      rcases Nat.exists_eq_add_of_le' hd' with ⟨e', rfl⟩
      intro bytes hlen
      have hkind := delimits_readVarint .word32
      change ((readVarint .word32) >>= readContents (read (e + n))).run bytes =
        ((readVarint .word32) >>= readContents (read (e' + n))).run bytes
      rcases h : (readVarint .word32).run bytes with err | ⟨kind, mid⟩
      · rw [Parser.run_bind_error h, Parser.run_bind_error h]
      · -- The number of the kind is the byte that the elements do not have.
        rw [Parser.run_bind_ok h, Parser.run_bind_ok h]
        have hmid : mid.length < bytes.length := hkind.length_lt rfl h
        exact agreeBelow_readContents (ih (Nat.le_add_left n e) (Nat.le_add_left n e'))
          (delimits_read (e + n)) kind mid (by omega)

/-- Every bound above the number of bytes gives the same. -/
theorem decode_eq_read {bytes : List UInt8} {depth : Nat} (h : bytes.length < depth) :
    decode bytes = (read depth).run bytes :=
  agreeBelow_read (Nat.le_refl _) h bytes (Nat.lt_succ_self _)

/-- What follows a term does not matter, and a term that is cut off is noticed. -/
theorem decode_delimits {bytes rest : List UInt8} {t : Term} (h : decode bytes = .ok (t, rest)) :
    ∃ front, bytes = front ++ rest ∧ (∀ rest', decode (front ++ rest') = .ok (t, rest')) ∧
      ∀ cut, cut <+: front → cut ≠ front → decode cut = .error .unexpectedEnd := by
  rcases delimits_read _ bytes t rest h with ⟨front, rfl, -, hstarves⟩
  refine ⟨front, rfl, fun rest' => ?_, fun cut hcut hne => ?_⟩
  · -- One bound on the nesting will do for what was read and for what is asked.
    rcases exists_gt (max (front ++ rest).length (front ++ rest').length) with ⟨depth, hdepth⟩
    rw [max_lt_iff] at hdepth
    rw [decode_eq_read hdepth.1] at h
    rcases delimits_read depth _ t rest h with ⟨front', hfront, hreads, -⟩
    rw [decode_eq_read hdepth.2, List.append_cancel_right hfront]
    exact hreads rest'
  · have hlen : cut.length < (front ++ rest).length + 1 := by
      rw [List.length_append]
      exact Nat.lt_succ_of_le (Nat.le_trans hcut.length_le (Nat.le_add_right _ _))
    rw [decode_eq_read hlen]
    exact hstarves cut hcut hne

end Term

end Actors
