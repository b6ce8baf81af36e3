/-!
# Reading Bytes

A parser takes the value it reads off the front of some bytes and hands the
rest on, or says what is wrong with them. Every format of the library is read
by parsers built from the few below, so each of them needs only its own law
about the bytes it takes.

## Main definitions

* `Wire.DecodeError`: What can be wrong with some bytes.
* `Wire.DecodeError.message`: The text of an error.
* `Wire.Parser`: Reads a value off the front of some bytes.
* `Wire.Parser.byte`, `Wire.Parser.take`: One byte, and a number of them.
* `Wire.Parser.times`: A number of values, one after the other.

## Theorems

* `run_bind_ok`, `run_bind_error`: What follows reads what is left.
* `run_take`: Taking exactly the bytes in front.
-/

namespace Actors

namespace Wire

/-- What can be wrong with some bytes. -/
inductive DecodeError where
  /-- More bytes were expected. -/
  | unexpectedEnd
  /-- A number is longer than its type allows. -/
  | badVarint
  /-- A text is not valid UTF-8. -/
  | badUtf8
  /-- There is no kind with the number that was read. -/
  | unknownKind
deriving DecidableEq, Repr

/-- The text of an error. -/
def DecodeError.message : DecodeError → String
  | .unexpectedEnd => "Hit the end of buffer, expected more data"
  | .badVarint =>
      "Found a varint that didn't terminate. Is the usize too big for this platform?"
  | .badUtf8 => "Tried to parse invalid utf-8"
  | .unknownKind => "Serde Deserialization Error"

/-- Reads a value off the front of some bytes. -/
def Parser (α : Type) := List UInt8 → Except DecodeError (α × List UInt8)

namespace Parser

variable {α β : Type}

/-- Reads from some bytes. -/
def run (p : Parser α) (bytes : List UInt8) : Except DecodeError (α × List UInt8) := p bytes

instance : Monad Parser where
  pure a := fun bytes => .ok (a, bytes)
  bind p f := fun bytes =>
    match p bytes with
    | .ok (a, rest) => f a rest
    | .error e => .error e

/-- Refuses whatever comes. -/
def fail (e : DecodeError) : Parser α := fun _ => .error e

/-- One byte. -/
def byte : Parser UInt8
  | [] => .error .unexpectedEnd
  | b :: rest => .ok (b, rest)

/-- The next `n` bytes. -/
def take (n : Nat) : Parser (List UInt8) := fun bytes =>
  if n ≤ bytes.length then .ok (bytes.take n, bytes.drop n) else .error .unexpectedEnd

/-- The next `n` values of one kind. -/
def times (p : Parser α) : Nat → Parser (List α)
  | 0 => pure []
  | n + 1 => do
      let a ← p
      let rest ← times p n
      pure (a :: rest)

/-! ## Laws -/

@[simp] theorem run_pure (a : α) (bytes : List UInt8) :
    (pure a : Parser α).run bytes = .ok (a, bytes) := rfl

@[simp] theorem run_fail (e : DecodeError) (bytes : List UInt8) :
    (fail e : Parser α).run bytes = .error e := rfl

theorem run_bind_ok {p : Parser α} {f : α → Parser β} {bytes rest : List UInt8} {a : α}
    (h : p.run bytes = .ok (a, rest)) : (p >>= f).run bytes = (f a).run rest := by
  change (match p.run bytes with | .ok (a, rest) => f a rest | .error e => .error e) = _
  rw [h]
  rfl

theorem run_bind_error {p : Parser α} {f : α → Parser β} {bytes : List UInt8} {e : DecodeError}
    (h : p.run bytes = .error e) : (p >>= f).run bytes = .error e := by
  change (match p.run bytes with | .ok (a, rest) => f a rest | .error e => .error e) = _
  rw [h]

@[simp] theorem run_byte_cons (b : UInt8) (rest : List UInt8) :
    byte.run (b :: rest) = .ok (b, rest) := rfl

/-- Taking exactly the bytes in front leaves what follows them. -/
theorem run_take (front rest : List UInt8) :
    (take front.length).run (front ++ rest) = .ok (front, rest) := by
  rw [run, take, if_pos (by simp), List.take_left, List.drop_left]

end Parser

end Wire

end Actors
