/-
Reading and writing fields.

Every access goes through `read` or `write`, which take a range of bytes relative to the field.
They check it against the size of the field, see to it that the tree has storage and hand the
range on, shifted by the place of the field.  The other operations say which range and what the
words in it mean: one element, all elements as a nested array, or all numbers in one list.

What can be checked without the device is checked first.  The exception is `toArray`, which
materializes every tree before it looks at its own field.

Room for all words of a field is not set aside before `fromArray` encodes the elements.  There is
none only if the field exceeds one object, and then its tree never has storage: the write comes to
nothing in any case, be it for want of room here, for an element that does not conform or for want
of storage.
-/
import FieldStore.Element.Decode
import FieldStore.Element.Encode
import FieldStore.Grid.Nested
import FieldStore.Store.Host

namespace FieldStore.Field

/-! ### Ranges -/

/-- The range of a field from `offset` on, by default from its start, with the given length, by
default to its end. -/
def range (field : Field) (offset length : Option Nat) : Outcome FieldError (Nat × Nat) := do
  let offset := offset.getD 0
  let length := length.getD (field.size - offset)
  let stop ← Size.add offset length
  if field.size < stop then
    throw (.error (.sizeMismatch field.size stop))
  return (offset, length)

/-- Reads a range of the field. -/
def read (field : Field) (offset length : Option Nat) : HostM FieldError Lanes := do
  let (offset, length) ← field.range offset length
  let tree ← Host.requireStorage field.tree
  let start ← (Size.add field.offset offset : Outcome FieldError Nat)
  Host.onDevice (Host.readRegion tree start length)

/-- Writes a run of words into the field. -/
def write (field : Field) (words : List Word) (offset : Option Nat) : HostM FieldError Unit := do
  let (offset, _) ← field.range offset (some (words.length * wordBytes))
  let tree ← Host.requireStorage field.tree
  let start ← (Size.add field.offset offset : Outcome FieldError Nat)
  Host.onDevice (Host.writeRegion tree start words)

/-! ### One element -/

/-- The element at the given indices. -/
def get (field : Field) (indices : List Nat) : HostM FieldError Value := do
  let (offset, length) ← field.byteRange indices
  let lanes ← field.read (some offset) (some length)
  field.type.decode lanes

/-- Replaces the element at the given indices. -/
def set (field : Field) (indices : List Nat) (value : Value) : HostM FieldError Unit := do
  let (offset, _) ← field.byteRange indices
  let words ← field.type.encodeWords value
  field.write words (some offset)

/-! ### All elements -/

/-- All elements, nested along the axes of the field. -/
def toArray (field : Field) : HostM FieldError (NdArray Value) := do
  Host.materialize
  let lanes ← field.read none none
  let elements ← field.type.decodeAll lanes
  NdArray.reshape elements field.shape.dims

/-- The words of a list of elements, one element after the other. -/
def encodeElements (ty : ElementType) : List Value → Outcome FieldError (List Word)
  | [] => .ok []
  | value :: values => do
      let first ← ty.encodeWords value
      let rest ← encodeElements ty values
      return first ++ rest

/-- Replaces all elements by those of a nested array. -/
def fromArray (field : Field) (nested : NdArray Value) : HostM FieldError Unit := do
  let elements ← nested.flatten field.shape.dims
  let words ← encodeElements field.type elements
  field.write words none

/-! ### All numbers -/

/-- What is recorded when a struct field is asked for its numbers. -/
def structNumbersEvent (ty : ElementType) : Event :=
  ⟨.error, "to_array_1d can only be used for scalar/vector/matrix fields",
    [("element", ty.text)]⟩

/-- All numbers of a field of tensor type in one list.  A struct field has no such list; it is
given an empty one, and the attempt is recorded. -/
def toNumbers (field : Field) : HostM FieldError (List Binary64) := do
  match field.type.primitive? with
  | none =>
      Host.record (structNumbersEvent field.type)
      return []
  | some primitive =>
      let lanes ← field.read none none
      return lanes.numbers primitive

/-- Replaces all numbers of a field of tensor type. -/
def fromNumbers (field : Field) (numbers : List Binary64) : HostM FieldError Unit := do
  match field.type.primitive? with
  | none => throw (.error (.tensorOnly .flatWrite))
  | some primitive =>
      let length := numbers.length * wordBytes
      if length ≠ field.size then
        throw (.error (.sizeMismatch field.size length))
      field.write (numbers.map primitive.toWord) none

end FieldStore.Field
