import Actors.Proofs.Wire.TermCodec
import Actors.Signal

/-!
# Envelopes Are Read Exactly

A signal, a destination and an envelope are read from their term forms and from
no other terms. The reader of each undoes the writer, and whatever it accepts
the writer gives back as it was. A message is not looked into, so it may well be
an envelope itself.

## Theorems

* `Signal.ofTerm?_eq_some_iff`, `Dest.ofTerm?_eq_some_iff`,
  `Routed.ofTerm?_eq_some_iff`: Readers and writers undo each other.
* `Routed.decode_encode`: What is read off the wire is the envelope that was written.
-/

namespace Actors

theorem Term.asRef?_eq_some_iff {t : Term} {ref : Ref} : t.asRef? = some ref ↔ t = .ref ref := by
  cases t <;> simp [asRef?]

namespace Signal

theorem toTerm_of_ofPair? {tag : String} {content : Term} {s : Signal}
    (h : ofPair? tag content = some s) : s.toTerm = .tuple [.atom tag, content] := by
  rw [ofPair?] at h
  -- One case for each tag in turn, and none is left for another tag.
  split at h
  next ht =>
    rw [← Option.some.inj h, ht]
    rfl
  next =>
  split at h
  next ht =>
    rcases Option.map_eq_some_iff.mp h with ⟨ref, hr, rfl⟩
    rw [Term.asRef?_eq_some_iff.mp hr, ht]
    rfl
  next =>
  split at h
  next ht =>
    rcases Option.map_eq_some_iff.mp h with ⟨ref, hr, rfl⟩
    rw [Term.asRef?_eq_some_iff.mp hr, ht]
    rfl
  next =>
  split at h
  next ht =>
    rw [← Option.some.inj h, ht]
    rfl
  next => exact absurd h (by simp)

theorem toTerm_of_ofTerm? {t : Term} {s : Signal} (h : ofTerm? t = some s) : s.toTerm = t := by
  rw [ofTerm?.eq_def] at h
  split at h
  next name =>
    split at h
    next hl =>
      rw [← Option.some.inj h, hl]
      rfl
    next =>
    split at h
    next hu =>
      rw [← Option.some.inj h, hu]
      rfl
    next => exact absurd h (by simp)
  next tag content => exact toTerm_of_ofPair? h
  next tag ref reason =>
    split at h
    next hd =>
      rw [← Option.some.inj h, hd]
      rfl
    next => exact absurd h (by simp)
  next => exact absurd h (by simp)

theorem ofTerm?_toTerm (s : Signal) : ofTerm? s.toTerm = some s := by
  cases s <;> simp [toTerm, ofTerm?, ofPair?, Term.asRef?]

/-- A signal is read from its term form and from nothing else. -/
theorem ofTerm?_eq_some_iff {t : Term} {s : Signal} : ofTerm? t = some s ↔ s.toTerm = t :=
  ⟨toTerm_of_ofTerm?, fun h => h ▸ ofTerm?_toTerm s⟩

end Signal

namespace Dest

theorem ofTerm?_toTerm (d : Dest) : ofTerm? d.toTerm = some d := by cases d <;> rfl

theorem toTerm_of_ofTerm? {t : Term} {d : Dest} (h : ofTerm? t = some d) : d.toTerm = t := by
  rw [ofTerm?.eq_def] at h
  split at h
  next p =>
    rw [← Option.some.inj h]
    rfl
  next name =>
    rw [← Option.some.inj h]
    rfl
  next name node =>
    rw [← Option.some.inj h]
    rfl
  next => exact absurd h (by simp)

/-- A destination is read from its term form and from nothing else. -/
theorem ofTerm?_eq_some_iff {t : Term} {d : Dest} : ofTerm? t = some d ↔ d.toTerm = t :=
  ⟨toTerm_of_ofTerm?, fun h => h ▸ ofTerm?_toTerm d⟩

end Dest

namespace Routed

theorem ofTerm?_toTerm (r : Routed) : ofTerm? r.toTerm = some r := by
  rw [toTerm, ofTerm?, if_pos rfl, Dest.ofTerm?_toTerm, Signal.ofTerm?_toTerm]

theorem toTerm_of_ofTerm? {t : Term} {r : Routed} (h : ofTerm? t = some r) : r.toTerm = t := by
  rw [ofTerm?.eq_def] at h
  split at h
  next tag sender dest signal =>
    split at h
    next ht =>
      split at h
      next d s hd hs =>
        -- Both parts are the term forms of what was read from them.
        rw [← Option.some.inj h, toTerm, Dest.toTerm_of_ofTerm? hd, Signal.toTerm_of_ofTerm? hs, ht]
      next => exact absurd h (by simp)
    next => exact absurd h (by simp)
  next => exact absurd h (by simp)

/-- An envelope is read from its term form and from nothing else. -/
theorem ofTerm?_eq_some_iff {t : Term} {r : Routed} : ofTerm? t = some r ↔ r.toTerm = t :=
  ⟨toTerm_of_ofTerm?, fun h => h ▸ ofTerm?_toTerm r⟩

/-- What is read off the wire is the envelope that was written. -/
theorem decode_encode {r : Routed} (h : r.toTerm.isStorable = true) (rest : List UInt8) :
    ∃ t, Term.decode (r.toTerm.encode ++ rest) = .ok (t, rest) ∧ ofTerm? t = some r :=
  ⟨r.toTerm, Term.decode_encode h rest, ofTerm?_toTerm r⟩

end Routed

end Actors
