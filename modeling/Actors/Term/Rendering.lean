import Actors.Atom
import Actors.Decimal.FloatText
import Actors.Term
import Actors.Text.Quoted

/-!
# Terms as Text

How terms are shown to a reader: `{ok,-3,[a,"b"],<<1,2>>}`. An atom stands
bare if it looks like a word that starts with a small letter and between
single quotes otherwise; what is inside those quotes is not changed. Text is
quoted, bytes are numbers between double angle brackets, tuples use braces and
lists square brackets, and elements are separated by a comma without a space.

Everything is built as a list of characters and becomes a `String` only at the
end.

## Main definitions

* `Term.render`: The characters of a term.
* `Term.display`: The text of a term.
* `Term.debug`: The text of a term, marked as a term.
* `Pid.display`, `Ref.display`: The short text of an identifier.
* `Pid.debug`, `Ref.debug`: The text of an identifier with all four parts.
-/

namespace Actors

namespace Rendering

/-- The decimal digits of a part of an identifier. -/
def digits (n : UInt32) : List Char := Nat.toDigits 10 n.toNat

/-- Some texts with a separator between each two. -/
def separated (separator : List Char) : List (List Char) → List Char
  | [] => []
  | [text] => text
  | text :: rest => text ++ separator ++ separated separator rest

end Rendering

open Rendering

namespace Pid

/-- Node, slot and generation between angle brackets. -/
def render (p : Pid) : List Char :=
  '<' :: separated ['.'] [digits p.node, digits p.id, digits p.serial] ++ ['>']

/-- The short text of a process name. -/
def display (p : Pid) : String := String.ofList p.render

/-- The text of a process name with all four parts. -/
def debug (p : Pid) : String :=
  String.ofList ("Pid<".toList ++
    separated ['.'] [digits p.node, digits p.id, digits p.serial, digits p.creation] ++ ['>'])

end Pid

namespace Ref

/-- Node and counter halves between angle brackets, after `#Ref`. -/
def render (r : Ref) : List Char :=
  "#Ref<".toList ++ separated ['.'] [digits r.node, digits r.id, digits r.serial] ++ ['>']

/-- The short text of a reference. -/
def display (r : Ref) : String := String.ofList r.render

/-- The text of a reference with all four parts. -/
def debug (r : Ref) : String :=
  String.ofList ("Ref<".toList ++
    separated ['.'] [digits r.node, digits r.id, digits r.serial, digits r.creation] ++ ['>'])

end Ref

namespace Term

/-- A character that may stand in an atom without quotes. -/
def isBareChar (c : Char) : Bool := c.isAlphanum || c == '_' || c == '@'

/-- Whether an atom can be shown without quotes. -/
def isBareAtom (name : List Char) : Bool :=
  match name with
  | [] => false
  | first :: _ => first.isLower && name.all isBareChar

/-- An atom, between single quotes if it needs them. -/
def renderAtom (name : String) : List Char :=
  if isBareAtom name.toList then name.toList else '\'' :: name.toList ++ ['\'']

mutual

/-- The characters of a term. -/
def render : Term → List Char
  | .atom name => renderAtom name
  | .int value => FloatStyle.integer value.toInt
  | .float value => FloatStyle.standard.render value
  | .text value => Text.quote value
  | .binary bytes =>
      '<' :: '<' :: separated [','] (bytes.map fun b => Nat.toDigits 10 b.toNat) ++ ['>', '>']
  | .pid p => p.render
  | .ref r => r.render
  | .tuple elements => '\x7b' :: renderList elements ++ ['\x7d']
  | .list elements => '[' :: renderList elements ++ [']']

/-- The characters of some terms, with a comma between each two. -/
def renderList : List Term → List Char
  | [] => []
  | t :: [] => render t
  | t :: u :: rest => render t ++ ',' :: renderList (u :: rest)

end

/-- The text of a term. -/
def display (t : Term) : String := String.ofList t.render

/-- The text of a term, marked as a term. -/
def debug (t : Term) : String := String.ofList ("Term(".toList ++ t.render ++ [')'])

end Term

namespace Atom

/-- The text of an atom in quotes, marked as an atom. -/
def debugText (name : String) : String :=
  String.ofList ("Atom(".toList ++ Text.quote name ++ [')'])

end Atom

end Actors
