import Actors.Text.Quoted

/-!
# Where a Piece of Text Ends

Pieces of text are written one after the other, and a reader has to find out where one
ends and the next one starts. This module says when that can only be done in one way: if
two texts agree and each of them starts with a piece of the same sort, then the two
pieces are the same and so is what follows.

For a run of characters of a class it takes a character of another class behind it; a
number is such a run. A quoted text needs nothing behind it. Its end is the first quote
that is not escaped, because no character is written as a quote or as the start of what
another one is written as.

## Main definitions

* `Text.Stops`: A text that does not go on with a character of some class.
* `Text.ofLetter?`: The character a letter stands for after a backslash.

## Theorems

* `run_inj`: Runs of characters of a class.
* `toDigits_inj`, `mem_toDigits`: The digits of a number.
* `escape_cases`, `escape_inj`: A character between quotes.
* `quote_inj`: A quoted text.
-/

namespace Actors

namespace Text

/-! ## Runs of characters -/

/-- A text that does not go on with a character of some class. -/
def Stops (test : Char → Bool) (text : List Char) : Prop := ∀ c ∈ text.head?, test c = false

variable {test : Char → Bool} {xs ys r r' : List Char}

theorem Stops.nil (test : Char → Bool) : Stops test [] := fun _ h => absurd h (by simp)

theorem Stops.cons {c : Char} (h : test c = false) (text : List Char) : Stops test (c :: text) := by
  intro c' hc'
  rw [List.head?_cons, Option.mem_some_iff] at hc'
  rwa [← hc']

/-- A class that is contained in another one stops where the other one does. -/
theorem Stops.mono {test' : Char → Bool} (h : Stops test r)
    (hsub : ∀ c, test' c = true → test c = true) : Stops test' r := by
  intro c hc
  rcases hc' : test' c with _ | _
  · rfl
  · exact absurd (h c hc) (by simp [hsub c hc'])

/-- Two runs of characters of a class are the same if neither goes on. -/
theorem run_inj (hx : ∀ c ∈ xs, test c = true) (hy : ∀ c ∈ ys, test c = true)
    (hr : Stops test r) (hr' : Stops test r') (h : xs ++ r = ys ++ r') : xs = ys ∧ r = r' := by
  induction xs generalizing ys with
  | nil =>
      cases ys with
      | nil => exact ⟨rfl, h⟩
      | cons y ys =>
          -- One run is over, and the other goes on with a character of the class.
          have hhead : y ∈ r.head? := by
            rw [← List.nil_append r, h]
            rfl
          exact absurd (hr y hhead) (by simp [hy y List.mem_cons_self])
  | cons x xs ih =>
      cases ys with
      | nil =>
          have hhead : x ∈ r'.head? := by
            rw [← List.nil_append r', ← h]
            rfl
          exact absurd (hr' x hhead) (by simp [hx x List.mem_cons_self])
      | cons y ys =>
          rw [List.cons_append, List.cons_append, List.cons.injEq] at h
          rcases ih (fun c hc => hx c (List.mem_cons_of_mem x hc))
            (fun c hc => hy c (List.mem_cons_of_mem y hc)) h.2 with ⟨rfl, hrest⟩
          exact ⟨congrArg (· :: xs) h.1, hrest⟩

/-! ## Numbers -/

theorem digitChar_inj {i j : Nat} (hi : i < 16) (hj : j < 16)
    (h : Nat.digitChar i = Nat.digitChar j) : i = j := by
  have hall : ∀ i < 16, ∀ j < 16, Nat.digitChar i = Nat.digitChar j → i = j := by decide
  exact hall i hi j hj h

theorem mem_toDigits {b n : Nat} {c : Char} (hb : 1 < b) (h : c ∈ Nat.toDigits b n) :
    ∃ d < b, c = Nat.digitChar d := by
  induction n using Nat.strongRecOn with
  | ind n ih =>
      rw [Nat.toDigits_eq_if hb] at h
      split at h
      next hlt => exact ⟨n, hlt, List.mem_singleton.mp h⟩
      next hge =>
        rcases List.mem_append.mp h with hinit | hlast
        · exact ih (n / b) (Nat.div_lt_self (by omega) hb) hinit
        · exact ⟨n % b, Nat.mod_lt n (by omega), List.mem_singleton.mp hlast⟩

/-- Different numbers have different digits. -/
theorem toDigits_inj {b m n : Nat} (hb : 1 < b) (hb' : b ≤ 16)
    (h : Nat.toDigits b m = Nat.toDigits b n) : m = n := by
  induction m using Nat.strongRecOn generalizing n with
  | ind m ih =>
      have hmod : ∀ k, k % b < 16 := fun k => Nat.lt_of_lt_of_le (Nat.mod_lt k (by omega)) hb'
      -- A number with more than one digit does not look like a number with one.
      have hlong : ∀ (k : Nat) (c c' : Char), [c] ≠ Nat.toDigits b k ++ [c'] := by
        intro k c c' heq
        have hlen := congrArg List.length heq
        have hpos : 0 < (Nat.toDigits b k).length := Nat.length_toDigits_pos
        rw [List.length_append, List.length_singleton, List.length_singleton] at hlen
        omega
      rw [Nat.toDigits_eq_if hb, @Nat.toDigits_eq_if b n hb] at h
      split at h
      next hm =>
        split at h
        next hn => exact digitChar_inj (by omega) (by omega) (List.singleton_inj.mp h)
        next => exact absurd h (hlong _ _ _)
      next hm =>
        split at h
        next => exact absurd h.symm (hlong _ _ _)
        next =>
          rcases List.append_inj' h rfl with ⟨hinit, hlast⟩
          have hdiv := ih (m / b) (Nat.div_lt_self (by omega) hb) hinit
          have hrest := digitChar_inj (hmod m) (hmod n) (List.singleton_inj.mp hlast)
          rw [← Nat.div_add_mod m b, ← Nat.div_add_mod n b, hdiv, hrest]

theorem isDigit_of_mem {n : Nat} {c : Char} (h : c ∈ Nat.toDigits 10 n) : c.isDigit = true :=
  Nat.isDigit_of_mem_toDigits (by decide) (by decide) h

/-- A number starts with a digit. -/
theorem toDigits_eq_cons (n : Nat) : ∃ d ds, Nat.toDigits 10 n = d :: ds ∧ d.isDigit = true := by
  rcases hn : Nat.toDigits 10 n with _ | ⟨d, ds⟩
  · exact absurd hn Nat.toDigits_ne_nil
  · exact ⟨d, ds, rfl, isDigit_of_mem (hn ▸ List.mem_cons_self)⟩

/-- Two numbers are the same if neither has digits behind it. -/
theorem decimal_inj {m n : Nat} (hr : Stops Char.isDigit r) (hr' : Stops Char.isDigit r')
    (h : Nat.toDigits 10 m ++ r = Nat.toDigits 10 n ++ r') : m = n ∧ r = r' := by
  rcases run_inj (fun _ => isDigit_of_mem) (fun _ => isDigit_of_mem) hr hr' h with
    ⟨hdigits, hrest⟩
  exact ⟨toDigits_inj (by decide) (by decide) hdigits, hrest⟩

/-! ## Characters between quotes -/

/-- The character a letter stands for after a backslash. -/
def ofLetter? (k : Char) : Option Char :=
  if k = '0' then some '\x00'
  else if k = 't' then some '\t'
  else if k = 'r' then some '\r'
  else if k = 'n' then some '\n'
  else if k = '\\' then some '\\'
  else if k = '"' then some '"'
  else none

/-- A character is written with a letter, by its code point, or as itself. -/
theorem escape_cases (c : Char) :
    (∃ k, ofLetter? k = some c ∧ escape c = ['\\', k]) ∨ escape c = codePointEscape c ∨
    (c ≠ '\\' ∧ c ≠ '"' ∧ escape c = [c]) := by
  rw [escape]
  split
  next h => exact Or.inl ⟨'0', by rw [h]; rfl, rfl⟩
  split
  next h => exact Or.inl ⟨'t', by rw [h]; rfl, rfl⟩
  split
  next h => exact Or.inl ⟨'r', by rw [h]; rfl, rfl⟩
  split
  next h => exact Or.inl ⟨'n', by rw [h]; rfl, rfl⟩
  split
  next h => exact Or.inl ⟨'\\', by rw [h]; rfl, rfl⟩
  next hb =>
    split
    next h => exact Or.inl ⟨'"', by rw [h]; rfl, rfl⟩
    next hq =>
      split
      next => exact Or.inr (Or.inl rfl)
      next =>
        split
        next => exact Or.inr (Or.inr ⟨hb, hq, rfl⟩)
        next => exact Or.inr (Or.inl rfl)

/-- Two characters that are written by their code points are the same. -/
theorem codePointEscape_inj {c d : Char} (h : codePointEscape c ++ r = codePointEscape d ++ r') :
    c = d ∧ r = r' := by
  have hhex : ∀ n, ∀ k ∈ Nat.toDigits 16 n, (k != '\x7d') = true := by
    intro n k hk
    have hall : ∀ d < 16, (Nat.digitChar d != '\x7d') = true := by decide
    rcases mem_toDigits (by decide) hk with ⟨d, hd, rfl⟩
    exact hall d hd
  simp only [codePointEscape, List.cons_append, List.append_assoc, List.nil_append,
    List.cons.injEq, true_and] at h
  -- The digits end at the brace.
  rcases run_inj (hhex c.toNat) (hhex d.toNat) (.cons (by decide) r) (.cons (by decide) r') h with
    ⟨hdigits, hrest⟩
  rw [List.cons.injEq] at hrest
  exact ⟨Char.toNat_inj.mp (toDigits_inj (by decide) (by decide) hdigits), hrest.2⟩

/-- No character is written as the start of what another one is written as. -/
theorem escape_inj {c d : Char} (h : escape c ++ r = escape d ++ r') : c = d ∧ r = r' := by
  have hcode : ∀ c, ∃ rest, codePointEscape c = '\\' :: 'u' :: rest := fun c => ⟨_, rfl⟩
  have hletter : ∀ {k : Char} {c : Char}, ofLetter? k = some c → k ≠ 'u' := by
    rintro k c hk rfl
    exact absurd hk (by simp [ofLetter?])
  rcases hcode c with ⟨u, hu⟩
  rcases hcode d with ⟨v, hv⟩
  -- The second character tells the three ways apart, the letter of a code point being no letter of
  -- its own.
  rcases escape_cases c with ⟨k, hk, hc⟩ | hc | ⟨hb, -, hc⟩ <;>
    rcases escape_cases d with ⟨k', hk', hd⟩ | hd | ⟨hb', -, hd⟩ <;>
    simp only [hc, hd, hu, hv, List.cons_append, List.nil_append, List.cons.injEq] at h
  · rw [h.2.1, hk', Option.some.injEq] at hk
    exact ⟨hk.symm, h.2.2⟩
  · exact absurd h.2.1 (hletter hk)
  · exact absurd h.1.symm hb'
  · exact absurd h.2.1.symm (hletter hk')
  · exact codePointEscape_inj (by rw [hu, hv]; simpa using h)
  · exact absurd h.1.symm hb'
  · exact absurd h.1 hb
  · exact absurd h.1 hb
  · exact h

/-- No character is written so that it looks like the closing quote. -/
theorem escape_ne_quote (c : Char) : escape c ++ r ≠ '"' :: r' := by
  intro h
  rcases escape_cases c with ⟨k, -, hc⟩ | hc | ⟨-, hq, hc⟩ <;> rw [hc] at h
  · exact absurd (List.cons.inj h).1 (by decide)
  · exact absurd (List.cons.inj h).1 (by decide)
  · exact hq (List.cons.inj h).1

/-! ## Quoted texts -/

theorem flatMap_escape_inj {cs ds : List Char}
    (h : cs.flatMap escape ++ '"' :: r = ds.flatMap escape ++ '"' :: r') : cs = ds ∧ r = r' := by
  induction cs generalizing ds with
  | nil =>
      cases ds with
      | nil => exact ⟨rfl, (List.cons.inj h).2⟩
      | cons d ds =>
          rw [List.flatMap_cons, List.append_assoc] at h
          exact absurd h.symm (escape_ne_quote d)
  | cons c cs ih =>
      rw [List.flatMap_cons, List.append_assoc] at h
      cases ds with
      | nil => exact absurd h (escape_ne_quote c)
      | cons d ds =>
          rw [List.flatMap_cons, List.append_assoc] at h
          -- The first characters are the same, and written the same, so what follows is the same
          -- text.
          rcases escape_inj h with ⟨rfl, hrest⟩
          rcases ih hrest with ⟨rfl, hr⟩
          exact ⟨rfl, hr⟩

/-- Two quoted texts are the same, whatever stands behind them. -/
theorem quote_inj {s s' : String} (h : quote s ++ r = quote s' ++ r') : s = s' ∧ r = r' := by
  simp only [quote, List.cons_append, List.append_assoc, List.nil_append, List.cons.injEq,
    true_and] at h
  rcases flatMap_escape_inj h with ⟨hs, hr⟩
  exact ⟨String.toList_inj.mp hs, hr⟩

end Text

end Actors
