import Actors.Proofs.Wire.Prefixes

/-!
# Padded Numbers

A reader takes numbers that are padded with empty groups, which no writer makes.
So several rows of bytes can spell one term, and the form that is written is the
shortest of them. It is the only one in which no number is padded.

To say so, the numbers in the bytes of a term have to be found. They are found
by walking over the bytes as the reader does, noting each number of varying
length and stepping over everything else. What is written again is then compared
part by part: raw bytes come out as they went in, a number comes out as long as
it was or shorter, and the same just if it was not padded. Lengths add up, so
the whole is the same just if every part is.

## Main definitions

* `Wire.isMinimal`: A number is not padded.
* `Wire.Grouped`: How the groups of a number compare with those it was read from.
* `Wire.Respelled`: How some bytes compare with what is written in their place.
* `Wire.Respells`: What a parser reads is written as the same bytes, or fewer.
* `Term.varints`: The numbers of varying length in the bytes of a term.

## Theorems

* `Respelled.append`: Bytes are compared part by part.
* `respelled_varint`: A number that is not padded is written as it was read.
* `respells_read`: What becomes of the bytes of a term.
* `self_delimiting`: All that the reader of terms says of what it accepts.
-/

namespace Actors

namespace Wire

variable {α : Type}

/-- A number is not padded: its last group is not empty, unless it is the only one. -/
def isMinimal (v : List UInt8) : Bool := v.length = 1 || v.getLast? != some 0

/-- What is written in the place of some bytes is no longer than they are, and it
    is the same just if none of the numbers in them is padded. -/
structure Respelled (written front : List UInt8) (vs : List (List UInt8)) : Prop where
  length_le : written.length ≤ front.length
  eq_iff : written = front ↔ ∀ v ∈ vs, isMinimal v = true

/-- Bytes that are no number are written as they are. -/
theorem respelled_raw (bytes : List UInt8) : Respelled bytes bytes [] :=
  ⟨Nat.le_refl _, iff_of_true rfl fun _ hv => absurd hv List.not_mem_nil⟩

/-- Bytes are compared part by part, since no part gets longer. -/
theorem Respelled.append {written front written' front' : List UInt8} {vs vs' : List (List UInt8)}
    (h : Respelled written front vs) (h' : Respelled written' front' vs') :
    Respelled (written ++ written') (front ++ front') (vs ++ vs') := by
  have hle := h.length_le
  have hle' := h'.length_le
  refine ⟨by rw [List.length_append, List.length_append]; omega, ?_⟩
  rw [List.forall_mem_append, ← h.eq_iff, ← h'.eq_iff]
  constructor
  · -- The parts can be told apart by their lengths, which cannot make up for one another.
    intro heq
    have hlen := congrArg List.length heq
    rw [List.length_append, List.length_append] at hlen
    exact List.append_inj heq (by omega)
  · rintro ⟨rfl, rfl⟩
    rfl

/-! ## Numbers -/

theorem toUInt8_toNat (b : UInt8) : b.toNat.toUInt8 = b := UInt8.ofNat_toNat

/-- One empty group is the number zero. -/
theorem run_readVarintGroups_zero (last k : Nat) :
    (readVarintGroups last (k + 1)).run [0] = .ok (0, []) := by
  rw [readVarintGroups, Parser.run_bind_ok (Parser.run_byte_cons 0 []), if_pos (by decide),
    if_neg (by simp)]
  rfl

/-- The groups that are written for a number, compared with those it was read from. -/
structure Grouped (k n : Nat) (front : List UInt8) : Prop where
  ne_nil : front ≠ []
  length_le : (varintGroups k n).length ≤ front.length
  last_of_zero : n = 0 → front.getLast? = some 0
  eq_iff : n ≠ 0 → (varintGroups k n = front ↔ front.getLast? ≠ some 0)

/-- The last group is written as it was read, and it is zero just if it is empty. -/
theorem grouped_last (k : Nat) {b : UInt8} (hb : b.toNat < 128) :
    Grouped (k + 1) b.toNat [b] := by
  have hwritten : varintGroups (k + 1) b.toNat = [b] := by
    rw [varintGroups, if_pos hb, toUInt8_toNat]
  have hzero : b = 0 ↔ b.toNat = 0 := UInt8.toNat_inj.symm
  constructor <;> simp [hwritten, hzero]

/-- A group that says that more follow, ahead of them. -/
theorem Grouped.more {k high : Nat} {front : List UInt8} (h : Grouped k high front) {b : UInt8}
    (hb : ¬ b.toNat < 128) : Grouped (k + 1) (b.toNat - 128 + 128 * high) (b :: front) := by
  have hlt := b.toNat_lt
  have hlen := h.length_le
  have hpos := List.length_pos_iff.mpr h.ne_nil
  have hlast : (b :: front).getLast? = front.getLast? := List.getLast?_cons_of_ne_nil h.ne_nil
  by_cases hnone : high = 0
  · -- Nothing but empty groups follow, and they are not written.
    have hwritten : (varintGroups (k + 1) (b.toNat - 128 + 128 * high)).length = 1 := by
      rw [varintGroups, if_pos (by omega), List.length_singleton]
    refine ⟨List.cons_ne_nil b front, ?_, fun _ => hlast.trans (h.last_of_zero hnone),
      fun _ => iff_of_false (fun heq => ?_) fun hne => hne (hlast.trans (h.last_of_zero hnone))⟩
    · rw [hwritten, List.length_cons]
      omega
    · have hlen' := congrArg List.length heq
      rw [hwritten, List.length_cons] at hlen'
      omega
  · have hwritten : varintGroups (k + 1) (b.toNat - 128 + 128 * high) =
        b :: varintGroups k high := by
      have hlow : (b.toNat - 128 + 128 * high) % 128 + 128 = b.toNat := by omega
      have hdiv : (b.toNat - 128 + 128 * high) / 128 = high := by omega
      rw [varintGroups, if_neg (by omega), hlow, hdiv, toUInt8_toNat]
    refine ⟨List.cons_ne_nil b front, ?_, fun hn => absurd hn (by omega), fun _ => ?_⟩
    · rw [hwritten, List.length_cons, List.length_cons]
      omega
    · rw [hwritten, hlast, List.cons.injEq]
      exact (and_iff_right rfl).trans (h.eq_iff hnone)

/-- What is read without a rest is read from the groups of a number. -/
theorem grouped_of_run {last k n : Nat} {front : List UInt8}
    (h : (readVarintGroups last k).run front = .ok (n, [])) : Grouped k n front := by
  induction k generalizing front n with
  | zero => exact absurd h (by simp [readVarintGroups])
  | succ k ih =>
      rcases Parser.exists_of_run_bind h with ⟨b, tail, hbyte, hrest⟩
      cases front with
      | nil => exact absurd hbyte (by simp [Parser.run, Parser.byte])
      | cons b' tail' =>
          rw [Parser.run_byte_cons, Except.ok.injEq, Prod.mk.injEq] at hbyte
          rcases hbyte with ⟨rfl, rfl⟩
          split at hrest
          -- The group is the last one. It may be too large for the type, and then nothing was read.
          next hsmall =>
            split at hrest
            next => exact absurd hrest (by simp)
            next =>
              rw [Parser.run_pure, Except.ok.injEq, Prod.mk.injEq] at hrest
              rcases hrest with ⟨rfl, rfl⟩
              exact grouped_last k hsmall
          -- More groups follow.
          next hlarge =>
            rcases Parser.exists_of_run_map hrest with ⟨high, hhigh, rfl⟩
            exact (ih hhigh).more hlarge

/-- A number that is not padded is written as it was read, and a padded one is
    written shorter. -/
theorem respelled_varint {type : VarintType} {k n : Nat} (hk : type.maxBytes = k + 1)
    {front : List UInt8} (h : (readVarint type).run front = .ok (n, [])) :
    Respelled (varint type n) front [front] := by
  have hgrouped := grouped_of_run h
  refine ⟨hgrouped.length_le, ?_⟩
  rw [List.forall_mem_singleton, isMinimal, Bool.or_eq_true, decide_eq_true_iff, bne_iff_ne, varint]
  by_cases hn : n = 0
  · -- Zero is written as one empty group.
    have hlast := hgrouped.last_of_zero hn
    rw [hn, hk, varintGroups, if_pos (by decide)]
    constructor
    · rintro rfl
      exact Or.inl rfl
    · rintro (hone | hlast')
      · rcases List.length_eq_one_iff.mp hone with ⟨b, rfl⟩
        rw [List.getLast?_singleton, Option.some.injEq] at hlast
        rw [hlast]
        rfl
      · exact absurd hlast hlast'
  · rw [hgrouped.eq_iff hn]
    refine ⟨Or.inr, ?_⟩
    rintro (hone | hlast)
    · rcases List.length_eq_one_iff.mp hone with ⟨b, rfl⟩
      rw [List.getLast?_singleton, ne_eq, Option.some.injEq]
      rintro rfl
      rw [readVarint, hk, run_readVarintGroups_zero, Except.ok.injEq, Prod.mk.injEq] at h
      exact hn h.1.symm
    · exact hlast

/-- Reads, and gives the bytes that were read as well. -/
def span (p : Parser α) : Parser (α × List UInt8) := fun bytes =>
  match p.run bytes with
  | .ok (a, rest) => .ok ((a, bytes.take (bytes.length - rest.length)), rest)
  | .error e => .error e

/-- Reading with the bytes is reading. -/
theorem Reads.span {p : Parser α} {front : List UInt8} {a : α} (h : Reads p front a) :
    Reads (span p) front (a, front) := by
  intro rest
  have hlen : (front ++ rest).length - rest.length = front.length := by simp
  rw [Parser.run, Wire.span, h rest]
  dsimp only
  rw [hlen, List.take_left]

theorem Reads.times_succ {p : Parser α} {front front' : List UInt8} {a : α} {as : List α} {n : Nat}
    (h : Reads p front a) (h' : Reads (p.times n) front' as) :
    Reads (p.times (n + 1)) (front ++ front') (a :: as) := h.bind (h'.map (a :: ·))

/-- What a parser reads off some bytes is written as the same bytes or fewer,
    and another parser finds the numbers in them. -/
def Respells (p : Parser α) (trace : Parser (List (List UInt8))) (write : α → List UInt8) : Prop :=
  ∀ bytes a rest, p.run bytes = .ok (a, rest) →
    ∃ front vs, bytes = front ++ rest ∧ Reads trace front vs ∧ Respelled (write a) front vs

/-- A number, with the bytes it was read from. -/
theorem exists_span_of_run {type : VarintType} {k n : Nat} (hk : type.maxBytes = k + 1)
    {bytes rest : List UInt8} (h : (readVarint type).run bytes = .ok (n, rest)) :
    ∃ v, bytes = v ++ rest ∧ Reads (span (readVarint type)) v (n, v) ∧
      Respelled (varint type n) v [v] := by
  rcases delimits_readVarint type bytes n rest h with ⟨v, hsplit, hread, -⟩
  have hwhole := hread []
  rw [List.append_nil] at hwhole
  exact ⟨v, hsplit, hread.span, respelled_varint hk hwhole⟩

/-- The largest number a type has room for bounds what is read. -/
theorem lt_of_run_readVarintGroups (last k : Nat) {n : Nat} {bytes rest : List UInt8}
    (h : (readVarintGroups last (k + 1)).run bytes = .ok (n, rest)) :
    n < 128 ^ k * (last + 1) := by
  induction k generalizing bytes n with
  | zero =>
      rcases Parser.exists_of_run_bind h with ⟨b, tail, -, hrest⟩
      split at hrest
      · -- Here is no room for a further group, so the group is the last one and is compared with
        -- the largest.
        split at hrest
        next => exact absurd hrest (by simp)
        next hle =>
          rw [Parser.run_pure, Except.ok.injEq, Prod.mk.injEq] at hrest
          have hb : ¬ last < b.toNat := fun hlt => hle ⟨rfl, hlt⟩
          omega
      · rcases Parser.exists_of_run_map hrest with ⟨high, hhigh, -⟩
        exact absurd hhigh (by simp [readVarintGroups])
  | succ k ih =>
      rcases Parser.exists_of_run_bind h with ⟨b, tail, -, hrest⟩
      -- One more group has room for 128 times as many numbers.
      have hpow : 128 ^ (k + 1) * (last + 1) = 128 * (128 ^ k * (last + 1)) := by
        rw [Nat.pow_succ, Nat.mul_comm (128 ^ k), Nat.mul_assoc]
      have hpos : 0 < 128 ^ k * (last + 1) :=
        Nat.mul_pos (Nat.pow_pos (by decide)) (Nat.succ_pos last)
      have hb := b.toNat_lt
      rw [hpow]
      split at hrest
      · split at hrest
        next => exact absurd hrest (by simp)
        next =>
          rw [Parser.run_pure, Except.ok.injEq, Prod.mk.injEq] at hrest
          omega
      · rcases Parser.exists_of_run_map hrest with ⟨high, hhigh, rfl⟩
        have hlt := ih hhigh
        omega

theorem lt_of_run_word64 {n : Nat} {bytes rest : List UInt8}
    (h : (readVarint .word64).run bytes = .ok (n, rest)) : n < 2 ^ 64 :=
  lt_of_run_readVarintGroups 1 9 h

theorem lt_of_run_word32 {n : Nat} {bytes rest : List UInt8}
    (h : (readVarint .word32).run bytes = .ok (n, rest)) : n < 2 ^ 32 :=
  lt_of_run_readVarintGroups 15 4 h

/-- Every number is the fold of an integer. -/
theorem zigzag_unzigzag (n : Nat) : zigzag (unzigzag n) = n := by
  rw [unzigzag]
  split
  · rw [zigzag, if_pos (by omega)]
    omega
  · rw [zigzag, if_neg (by omega)]
    omega

/-- An integer is folded back to the number it was read from. -/
theorem zigzag_toInt_ofInt {n : Nat} (h : n < 2 ^ 64) :
    zigzag (Int64.ofInt (unzigzag n)).toInt = n := by
  -- The integer fits into 64 bits, so nothing wraps on the way.
  have hlow : -2 ^ 63 ≤ unzigzag n := by
    rw [unzigzag]
    split <;> omega
  have hhigh : unzigzag n < 2 ^ 63 := by
    rw [unzigzag]
    split <;> omega
  rw [Int64.toInt_ofInt_of_le hlow hhigh, zigzag_unzigzag]

/-- Bytes that are read as a number are written as the same bytes. -/
theorem littleEndian_ofLittleEndian (bytes : List UInt8) :
    littleEndian bytes.length (ofLittleEndian bytes) = bytes := by
  induction bytes with
  | nil => rfl
  | cons b rest ih =>
      have hb := b.toNat_lt
      have hlow : (b.toNat + 256 * ofLittleEndian rest) % 256 = b.toNat := by omega
      have hhigh : (b.toNat + 256 * ofLittleEndian rest) / 256 = ofLittleEndian rest := by omega
      rw [List.length_cons, ofLittleEndian, littleEndian, hlow, hhigh, ih, toUInt8_toNat]

theorem ofLittleEndian_lt (bytes : List UInt8) : ofLittleEndian bytes < 256 ^ bytes.length := by
  induction bytes with
  | nil => exact Nat.one_pos
  | cons b rest ih =>
      have hb := b.toNat_lt
      rw [List.length_cons, ofLittleEndian, Nat.pow_succ]
      omega

/-! ## Text, bytes and identifiers -/

/-- Steps over bytes after their number. -/
def traceRaw : Parser (List (List UInt8)) := do
  let (n, v) ← span readLength
  let _ ← Parser.take n
  pure [v]

theorem reads_traceRaw {v raw : List UInt8} {n : Nat} (hn : raw.length = n)
    (h : Reads (span readLength) v (n, v)) : Reads traceRaw (v ++ raw) [v] := by
  subst hn
  exact h.bind ((reads_take raw).map fun _ => [v])

/-- Bytes after their number come out as they went in, with the number before them. -/
theorem respelled_lengthened {raw v : List UInt8} (h : Respelled (encodeLength raw.length) v [v]) :
    Respelled (encodeLength raw.length ++ raw) (v ++ raw) [v] := by
  have happ := h.append (respelled_raw raw)
  rwa [List.append_nil] at happ

/-- Bytes that are read after their number. -/
theorem exists_raw_of_run {n : Nat} {bytes mid raw rest : List UInt8}
    (hlength : readLength.run bytes = .ok (n, mid))
    (htake : (Parser.take n).run mid = .ok (raw, rest)) :
    ∃ front v, bytes = front ++ rest ∧ Reads traceRaw front [v] ∧
      Respelled (encodeLength raw.length ++ raw) front [v] := by
  -- First the number is read, then as many bytes as it says.
  rcases exists_span_of_run (k := 9) rfl hlength with ⟨v, rfl, hspan, hv⟩
  rcases run_take_eq_ok htake with ⟨rfl, rfl⟩
  exact ⟨v ++ raw, v, (List.append_assoc v raw rest).symm, reads_traceRaw rfl hspan,
    respelled_lengthened hv⟩

/-- A text is written as the bytes it was read from, with their number before them. Only the number
    can be padded. -/
theorem respells_readText : Respells readText traceRaw encodeText := by
  intro bytes s rest h
  rcases Parser.exists_of_run_bind h with ⟨n, mid, hlength, hmid⟩
  rcases Parser.exists_of_run_bind hmid with ⟨raw, mid', htake, hvalid⟩
  rcases exists_raw_of_run hlength htake with ⟨front, v, hsplit, htrace, hv⟩
  split at hvalid
  next s' hs' =>
    rw [Parser.run_pure, Except.ok.injEq, Prod.mk.injEq] at hvalid
    rcases hvalid with ⟨rfl, rfl⟩
    refine ⟨front, [v], hsplit, htrace, ?_⟩
    rwa [encodeText, Text.bytes_of_ofBytes? hs']
  next => exact absurd hvalid (by simp)

/-- Steps over four numbers. -/
def traceParts : Parser (List (List UInt8)) := do
  let words ← (span (readVarint .word32)).times 4
  pure (words.map Prod.snd)

/-- A number of 32 bits, with the bytes it was read from. -/
theorem exists_span_of_run_word32 {bytes rest : List UInt8} {w : UInt32}
    (h : readWord32.run bytes = .ok (w, rest)) :
    ∃ v, bytes = v ++ rest ∧ Reads (span (readVarint .word32)) v (w.toNat, v) ∧
      Respelled (encodeWord32 w) v [v] := by
  rcases Parser.exists_of_run_map h with ⟨n, hread, rfl⟩
  have hn : n.toUInt32.toNat = n := UInt32.toNat_ofNat_of_lt' (lt_of_run_word32 hread)
  rw [encodeWord32, hn]
  exact exists_span_of_run (k := 4) rfl hread

/-- Four numbers, and whatever is made of them. -/
theorem respells_parts {build : UInt32 → UInt32 → UInt32 → UInt32 → α} (write : α → List UInt8)
    (hwrite : ∀ node id serial creation,
      write (build node id serial creation) = encodeParts node id serial creation) :
    Respells (do
      let node ← readWord32
      let id ← readWord32
      let serial ← readWord32
      let creation ← readWord32
      return build node id serial creation) traceParts write := by
  intro bytes a rest h
  rcases Parser.exists_of_run_bind h with ⟨node, mid₁, h₁, h⟩
  rcases Parser.exists_of_run_bind h with ⟨id, mid₂, h₂, h⟩
  rcases Parser.exists_of_run_bind h with ⟨serial, mid₃, h₃, h⟩
  rcases Parser.exists_of_run_map h with ⟨creation, h₄, rfl⟩
  -- Each of the four numbers is respelled for itself.
  rcases exists_span_of_run_word32 h₁ with ⟨v₁, rfl, hspan₁, hv₁⟩
  rcases exists_span_of_run_word32 h₂ with ⟨v₂, rfl, hspan₂, hv₂⟩
  rcases exists_span_of_run_word32 h₃ with ⟨v₃, rfl, hspan₃, hv₃⟩
  rcases exists_span_of_run_word32 h₄ with ⟨v₄, rfl, hspan₄, hv₄⟩
  refine ⟨v₁ ++ (v₂ ++ (v₃ ++ v₄)), [v₁, v₂, v₃, v₄], by simp only [List.append_assoc], ?_, ?_⟩
  · have hlast := hspan₄.times_succ (n := 0) (reads_pure [])
    rw [List.append_nil] at hlast
    have hfour := hspan₁.times_succ (hspan₂.times_succ (hspan₃.times_succ hlast))
    exact hfour.map fun words => words.map Prod.snd
  · rw [hwrite, encodeParts, List.append_assoc, List.append_assoc]
    exact hv₁.append (hv₂.append (hv₃.append hv₄))

end Wire

open Wire

namespace Term

/-- Finds the numbers in the contents of a term of the given kind. The first
    argument does so for the elements of a tuple or list. -/
def traceContents (element : Parser (List (List UInt8))) : Nat → Parser (List (List UInt8))
  | 0 | 3 | 4 => traceRaw
  | 1 => do
      let (_, v) ← span (readVarint .word64)
      pure [v]
  | 2 => do
      let _ ← Parser.take 8
      pure []
  | 5 | 6 => traceParts
  | 7 | 8 => do
      let (n, v) ← span readLength
      let vss ← element.times n
      pure (v :: vss.flatten)
  | _ => .fail .unknownKind

/-- Finds the numbers in a term that is nested at most as deeply as the argument says. -/
def trace : Nat → Parser (List (List UInt8))
  | 0 => .fail .unexpectedEnd
  | depth + 1 => do
      let (kind, v) ← span (readVarint .word32)
      let vs ← traceContents (trace depth) kind
      pure (v :: vs)

/-- The numbers of varying length in the bytes of a term, in order: the number of
    each kind and each length, the integers and the parts of the identifiers. -/
def varints (bytes : List UInt8) : Except DecodeError (List (List UInt8) × List UInt8) :=
  (trace (bytes.length + 1)).run bytes

/-- Some elements are read one after the other, and each of them is respelled. -/
theorem exists_elements_of_run {element : Parser Term} {trace : Parser (List (List UInt8))}
    (h : Respells element trace encode) {n : Nat} {bytes rest : List UInt8} {es : List Term}
    (hrun : (element.times n).run bytes = .ok (es, rest)) :
    ∃ front vss, bytes = front ++ rest ∧ es.length = n ∧ Reads (trace.times n) front vss ∧
      Respelled (encodeList es) front vss.flatten := by
  induction n generalizing bytes es with
  | zero =>
      rw [Parser.times, Parser.run_pure, Except.ok.injEq, Prod.mk.injEq] at hrun
      rcases hrun with ⟨rfl, rfl⟩
      exact ⟨[], [], rfl, rfl, reads_pure [], respelled_raw []⟩
  | succ n ih =>
      rcases Parser.exists_of_run_bind hrun with ⟨t, mid, hfirst, hrest⟩
      rcases Parser.exists_of_run_map hrest with ⟨ts, hts, rfl⟩
      rcases h bytes t mid hfirst with ⟨front, vs, rfl, htrace, hv⟩
      rcases ih hts with ⟨front', vss, rfl, rfl, htraces, hvs⟩
      exact ⟨front ++ front', vs :: vss, (List.append_assoc front front' rest).symm, rfl,
        htrace.times_succ htraces, hv.append hvs⟩

/-- Elements that are read after their number. -/
theorem exists_list_of_run {element : Parser Term} {trace : Parser (List (List UInt8))}
    (h : Respells element trace encode) {build : List Term → Term} {bytes rest : List UInt8}
    {t : Term}
    (hrun : (do return build (← element.times (← readLength)) : Parser Term).run bytes =
      .ok (t, rest)) :
    ∃ front vs es, t = build es ∧ bytes = front ++ rest ∧
      Reads (do
        let (n, v) ← span readLength
        let vss ← trace.times n
        pure (v :: vss.flatten)) front vs ∧
      Respelled (encodeLength es.length ++ encodeList es) front vs := by
  rcases Parser.exists_of_run_bind hrun with ⟨n, mid, hlength, hmid⟩
  rcases Parser.exists_of_run_map hmid with ⟨es, hes, rfl⟩
  rcases exists_span_of_run (k := 9) rfl hlength with ⟨v, rfl, hspan, hv⟩
  -- The number of the elements is a number of its own. The elements come behind it.
  rcases exists_elements_of_run h hes with ⟨front, vss, rfl, rfl, htraces, hvs⟩
  refine ⟨v ++ front, v :: vss.flatten, es, rfl, (List.append_assoc v front rest).symm, ?_,
    hv.append hvs⟩
  exact hspan.bind (htraces.map fun vss => v :: vss.flatten)

/-- What becomes of the contents of a term. -/
theorem exists_contents_of_run {element : Parser Term} {trace : Parser (List (List UInt8))}
    (h : Respells element trace encode) {kind : Nat} {bytes rest : List UInt8} {t : Term}
    (hrun : (readContents element kind).run bytes = .ok (t, rest)) :
    ∃ front vs written, bytes = front ++ rest ∧ Reads (traceContents trace kind) front vs ∧
      kind < 128 ∧ t.encode = kind.toUInt8 :: written ∧ Respelled written front vs := by
  unfold readContents at hrun
  split at hrun
  -- An atom or a text.
  case h_1 | h_4 =>
    rcases Parser.exists_of_run_map hrun with ⟨s, hs, rfl⟩
    rcases respells_readText bytes s rest hs with ⟨front, vs, hsplit, htrace, hv⟩
    exact ⟨front, vs, _, hsplit, htrace, by decide, rfl, hv⟩
  -- A tuple or a list.
  case h_8 | h_9 =>
    rcases exists_list_of_run h hrun with ⟨front, vs, es, rfl, hsplit, htrace, hv⟩
    exact ⟨front, vs, _, hsplit, htrace, by decide, rfl, hv⟩
  · -- An integer.
    rcases Parser.exists_of_run_map hrun with ⟨n, hn, rfl⟩
    rcases exists_span_of_run (k := 9) rfl hn with ⟨v, hsplit, hspan, hv⟩
    refine ⟨v, [v], varint .word64 n, hsplit, hspan.bind_nil (reads_pure [v]), by decide, ?_, hv⟩
    rw [encode, zigzag_toInt_ofInt (lt_of_run_word64 hn)]
    rfl
  · -- A float, of eight bytes.
    rcases Parser.exists_of_run_map hrun with ⟨raw, hraw, rfl⟩
    rcases run_take_eq_ok hraw with ⟨hsplit, hlen⟩
    refine ⟨raw, [], raw, hsplit, ?_, by decide, ?_, respelled_raw raw⟩
    · have hskip := (reads_take raw).map fun _ => ([] : List (List UInt8))
      rwa [hlen] at hskip
    · have hlt : ofLittleEndian raw < 2 ^ 64 := by
        have hpow := ofLittleEndian_lt raw
        rwa [hlen] at hpow
      have hback := littleEndian_ofLittleEndian raw
      rw [hlen] at hback
      rw [encode, Nat.toUInt64, UInt64.toNat_ofNat_of_lt' hlt, hback]
      rfl
  · -- Bytes after their number.
    rcases Parser.exists_of_run_bind hrun with ⟨n, mid, hlength, hmid⟩
    rcases Parser.exists_of_run_map hmid with ⟨raw, htake, rfl⟩
    rcases exists_raw_of_run hlength htake with ⟨front, v, hsplit, htrace, hv⟩
    exact ⟨front, [v], _, hsplit, htrace, by decide, rfl, hv⟩
  · -- The name of a process.
    rcases Parser.exists_of_run_map hrun with ⟨p, hp, rfl⟩
    rcases respells_parts Pid.encode (fun _ _ _ _ => rfl) bytes p rest hp with
      ⟨front, vs, hsplit, htrace, hv⟩
    exact ⟨front, vs, _, hsplit, htrace, by decide, rfl, hv⟩
  · -- A reference.
    rcases Parser.exists_of_run_map hrun with ⟨r, hr, rfl⟩
    rcases respells_parts Ref.encode (fun _ _ _ _ => rfl) bytes r rest hr with
      ⟨front, vs, hsplit, htrace, hv⟩
    exact ⟨front, vs, _, hsplit, htrace, by decide, rfl, hv⟩
  · exact absurd hrun (by simp)

/-- What becomes of the bytes of a term. -/
theorem respells_read (depth : Nat) : Respells (read depth) (trace depth) encode := by
  induction depth with
  | zero => exact fun _ _ _ h => absurd h (by simp [read])
  | succ depth ih =>
      intro bytes t rest h
      rcases Parser.exists_of_run_bind h with ⟨kind, mid, hkind, hcontents⟩
      rcases exists_span_of_run (k := 4) rfl hkind with ⟨v, rfl, hspan, hv⟩
      rcases exists_contents_of_run ih hcontents with
        ⟨front, vs, written, rfl, htrace, hsmall, hencode, hvs⟩
      refine ⟨v ++ front, v :: vs, (List.append_assoc v front rest).symm, ?_, ?_⟩
      · exact hspan.bind (htrace.map (v :: ·))
      · -- The number of a kind is one group.
        have hbyte : varint .word32 kind = [kind.toUInt8] := if_pos hsmall
        rw [hbyte] at hv
        rw [hencode]
        exact hv.append hvs

/-- What the reader of terms accepts ends where it says. Whatever follows is left
    alone, and if any of it is cut off, the reader asks for more. What is written
    for the term again is no longer, and it is the same just if no number in the
    bytes is padded. -/
theorem self_delimiting {bytes rest : List UInt8} {t : Term} (h : decode bytes = .ok (t, rest)) :
    ∃ front vs, bytes = front ++ rest ∧
      (∀ rest', decode (front ++ rest') = .ok (t, rest')) ∧
      (∀ cut, cut <+: front → cut ≠ front → decode cut = .error .unexpectedEnd) ∧
      varints front = .ok (vs, []) ∧
      t.encode.length ≤ front.length ∧
      (t.encode = front ↔ ∀ v ∈ vs, isMinimal v = true) := by
  rcases decode_delimits h with ⟨front, hsplit, hrest, hcut⟩
  -- Cut right behind the term, the bytes are read to the end.
  have hwhole : (read (front.length + 1)).run front = .ok (t, []) := by
    have hread := hrest []
    rwa [List.append_nil] at hread
  rcases respells_read _ front t [] hwhole with ⟨front', vs, heq, htrace, hv⟩
  rw [List.append_nil] at heq
  subst heq
  refine ⟨front, vs, hsplit, hrest, hcut, ?_, hv.length_le, hv.eq_iff⟩
  have hvarints := htrace []
  rwa [List.append_nil] at hvarints

/-- A tuple of the integer -1, ahead of another byte. All numbers but one are padded. -/
theorem decode_padded :
    decode [0x87, 0, 0x81, 0x80, 0, 1, 0x81, 0, 99] = .ok (.tuple [.int (-1)], [99]) := by
  cbv

/-- The padding is found, and what is written again is half as long. -/
theorem self_delimiting_padded :
    decode [0x87, 0, 0x81, 0x80, 0, 1, 0x81, 0, 99] = .ok (.tuple [.int (-1)], [99]) ∧
      varints [0x87, 0, 0x81, 0x80, 0, 1, 0x81, 0] =
        .ok ([[0x87, 0], [0x81, 0x80, 0], [1], [0x81, 0]], []) ∧
      (tuple [.int (-1)]).encode = [7, 1, 1, 1] ∧
      ∃ front vs, [0x87, 0, 0x81, 0x80, 0, 1, 0x81, 0, 99] = front ++ [99] ∧
        (∀ rest', decode (front ++ rest') = .ok (.tuple [.int (-1)], rest')) ∧
        (∀ cut, cut <+: front → cut ≠ front → decode cut = .error .unexpectedEnd) ∧
        varints front = .ok (vs, []) ∧
        (tuple [.int (-1)]).encode.length ≤ front.length ∧
        ((tuple [.int (-1)]).encode = front ↔ ∀ v ∈ vs, isMinimal v = true) :=
  ⟨decode_padded, by decide, by decide, self_delimiting decode_padded⟩

end Term

end Actors
