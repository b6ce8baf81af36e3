import Actors.Term
import Actors.Text.Utf8
import Actors.Wire.Varint

/-!
# Terms on the Wire

The compact binary form of terms. A term starts with the number of its kind,
in the order in which the kinds are declared. Then come its contents: signed
integers folded and written as unsigned numbers, floats as eight bytes, the
parts of an identifier as four numbers, and everything of varying length with
its length in front.

The form says of itself where it ends, so terms can be written one after the
other and read back without any separator.

The reader is given a bound on how deeply terms may be nested. Every level of
nesting takes at least one byte, so the number of bytes at hand is a bound
that never gets in the way.

## Main definitions

* `Wire.encodeText`, `Wire.readText`: Text after its length.
* `Pid.encode`, `Ref.encode`: The four parts of an identifier.
* `Term.encode`: The bytes of a term.
* `Term.read`: Reads a term, nested at most to a bound.
* `Term.decode`: The term that some bytes start with, and the bytes after it.
-/

namespace Actors

namespace Wire

/-- A number of 32 bits. -/
def encodeWord32 (n : UInt32) : List UInt8 := varint .word32 n.toNat

/-- Reads a number of 32 bits. -/
def readWord32 : Parser UInt32 := do
  let n ← readVarint .word32
  pure n.toUInt32

/-- A length. -/
def encodeLength (n : Nat) : List UInt8 := varint .word64 n

/-- Reads a length. -/
def readLength : Parser Nat := readVarint .word64

/-- Text as its bytes, after their number. -/
def encodeText (s : String) : List UInt8 := encodeLength (Text.bytes s).length ++ Text.bytes s

/-- Reads text. -/
def readText : Parser String := do
  let n ← readLength
  let bytes ← .take n
  match Text.ofBytes? bytes with
  | some s => pure s
  | none => .fail .badUtf8

/-- Four numbers, one after the other. -/
def encodeParts (node id serial creation : UInt32) : List UInt8 :=
  encodeWord32 node ++ encodeWord32 id ++ encodeWord32 serial ++ encodeWord32 creation

end Wire

open Wire

namespace Pid

/-- The bytes of a process name. -/
def encode (p : Pid) : List UInt8 := encodeParts p.node p.id p.serial p.creation

/-- Reads a process name. -/
def read : Parser Pid := do
  let node ← readWord32
  let id ← readWord32
  let serial ← readWord32
  let creation ← readWord32
  pure ⟨node, id, serial, creation⟩

end Pid

namespace Ref

/-- The bytes of a reference. -/
def encode (r : Ref) : List UInt8 := encodeParts r.node r.id r.serial r.creation

/-- Reads a reference. -/
def read : Parser Ref := do
  let node ← readWord32
  let id ← readWord32
  let serial ← readWord32
  let creation ← readWord32
  pure ⟨node, id, serial, creation⟩

end Ref

namespace Term

mutual

/-- The bytes of a term. -/
def encode : Term → List UInt8
  | .atom name => 0 :: encodeText name
  | .int value => 1 :: varint .word64 (zigzag value.toInt)
  | .float value => 2 :: littleEndian 8 value.bits.toNat
  | .text value => 3 :: encodeText value
  | .binary bytes => 4 :: (encodeLength bytes.length ++ bytes)
  | .pid p => 5 :: p.encode
  | .ref r => 6 :: r.encode
  | .tuple elements => 7 :: (encodeLength elements.length ++ encodeList elements)
  | .list elements => 8 :: (encodeLength elements.length ++ encodeList elements)

/-- The bytes of some terms, one after the other. -/
def encodeList : List Term → List UInt8
  | [] => []
  | t :: rest => t.encode ++ encodeList rest

end

/-- Reads the contents of a term of the kind with the given number. The first
    argument reads the elements of a tuple or list. -/
def readContents (element : Parser Term) : Nat → Parser Term
  | 0 => do pure (.atom (← readText))
  | 1 => do pure (.int (Int64.ofInt (unzigzag (← readVarint .word64))))
  | 2 => do pure (.float ⟨(ofLittleEndian (← .take 8)).toUInt64⟩)
  | 3 => do pure (.text (← readText))
  | 4 => do
      let n ← readLength
      pure (.binary (← .take n))
  | 5 => do pure (.pid (← Pid.read))
  | 6 => do pure (.ref (← Ref.read))
  | 7 => do
      let n ← readLength
      pure (.tuple (← element.times n))
  | 8 => do
      let n ← readLength
      pure (.list (← element.times n))
  | _ => .fail .unknownKind

/-- Reads a term that is nested at most as deeply as the argument says. -/
def read : Nat → Parser Term
  | 0 => .fail .unexpectedEnd
  | depth + 1 => do
      let kind ← readVarint .word32
      readContents (read depth) kind

/-- The term that some bytes start with, and the bytes after it. -/
def decode (bytes : List UInt8) : Except DecodeError (Term × List UInt8) :=
  (read (bytes.length + 1)).run bytes

end Term

end Actors
