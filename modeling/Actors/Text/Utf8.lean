/-!
# Text as Bytes

Text is kept as a `String` and leaves the program as the bytes of its UTF-8
form. This module is the only place where the two meet: the bytes of a text,
the text that some bytes spell, and the order of texts by their bytes. That
order is the one atoms, strings and names are sorted in.

## Main definitions

* `Text.bytes`: The UTF-8 form of a text.
* `Text.ofBytes?`: The text some bytes spell, if they are valid UTF-8.
* `Text.order`: Texts compared byte by byte.

## Theorems

* `ofBytes?_bytes`: A text is read back from its bytes.
* `bytes_of_ofBytes?`: Bytes that spell a text are the bytes of that text.
* `bytes_inj`: Different texts have different bytes.
* `order_eq_iff`: Only equal texts compare as equal.
-/

namespace Actors

namespace Text

/-- The UTF-8 form of a text. -/
def bytes (s : String) : List UInt8 := s.toByteArray.data.toList

/-- The text that some bytes spell, if they are valid UTF-8. -/
def ofBytes? (bs : List UInt8) : Option String := String.fromUTF8? ⟨bs.toArray⟩

/-- Texts compared byte by byte, a text before its own extensions. -/
def order (s t : String) : Ordering := compare (bytes s) (bytes t)

/-- Whether one text stands before or beside another in the order by bytes. -/
def le (s t : String) : Bool := (order s t).isLE

theorem bytes_inj {s t : String} : bytes s = bytes t ↔ s = t := by
  refine ⟨fun h => ?_, fun h => h ▸ rfl⟩
  have hd : s.toByteArray.data = t.toByteArray.data := Array.toList_inj.mp h
  exact String.toByteArray_inj.mp (ByteArray.ext hd)

theorem ofBytes?_bytes (s : String) : ofBytes? (bytes s) = some s := by
  have h : (⟨(bytes s).toArray⟩ : ByteArray) = s.toByteArray :=
    ByteArray.ext (by simp only [bytes, Array.toArray_toList])
  rw [ofBytes?, h, String.fromUTF8?, dif_pos s.isValidUTF8]
  rfl

theorem bytes_of_ofBytes? {bs : List UInt8} {s : String} (h : ofBytes? bs = some s) :
    bytes s = bs := by
  rw [ofBytes?, String.fromUTF8?] at h
  split at h
  · rw [← Option.some.inj h]; rfl
  · exact absurd h (by simp only [reduceCtorEq, not_false_eq_true])

theorem order_eq_iff {s t : String} : order s t = .eq ↔ s = t := by
  rw [order, Std.LawfulEqOrd.compare_eq_iff_eq, bytes_inj]

end Text

end Actors
