/-
How an element type is laid out over consecutive slots.

A tensor type takes one slot per number, a matrix row by row.  The properties of a struct follow
each other in declared order without gaps, so the offset of a property is the number of slots of
all properties before it.

A layout lists its slots one by one, and so exists only for types whose slots fit in one object.
`slotCount` has no such bound: it is the number of slots of any type.  `slotTotal` is the same
number where the layout exists, found without listing anything.  The slots of a struct are listed
as those of its properties are, behind one another; what room such a list has to spare while it
grows is not looked at.
-/
import FieldStore.Element.Type
import FieldStore.Machine.Lanes
import FieldStore.Machine.Size

namespace FieldStore

namespace ElementType

mutual
/-- The primitive kind of each slot. -/
def slots : ElementType → List Primitive
  | scalar p => [p]
  | vector p rows => List.replicate rows p
  | matrix p rows cols => List.replicate (rows * cols) p
  | struct properties => propertySlots properties

/-- The slots of the properties, one property after the other. -/
def propertySlots : List (String × ElementType) → List Primitive
  | [] => []
  | (_, ty) :: rest => slots ty ++ propertySlots rest
end

mutual
/-- The number of slots. -/
def slotCount : ElementType → Nat
  | scalar _ => 1
  | vector _ rows => rows
  | matrix _ rows cols => rows * cols
  | struct properties => propertySlotCount properties

/-- The number of slots of all properties together. -/
def propertySlotCount : List (String × ElementType) → Nat
  | [] => 0
  | (_, ty) :: rest => slotCount ty + propertySlotCount rest
end

/-- The name and first slot of each property, when the first one starts at `start`. -/
def offsetsFrom (start : Nat) : List (String × ElementType) → List (String × Nat)
  | [] => []
  | (name, ty) :: rest => (name, start) :: offsetsFrom (start + ty.slotCount) rest

/-- The name and first slot of each property in declared order; none for a tensor type. -/
def offsets (ty : ElementType) : List (String × Nat) := offsetsFrom 0 ty.properties

end ElementType

/-- The slots of an element type and where each property starts. -/
structure Layout where
  slots : List Primitive
  offsets : List (String × Nat)
  deriving DecidableEq

namespace Layout

/-- The number of slots. -/
def length (layout : Layout) : Nat := layout.slots.length

/-- Whether there is no slot. -/
def isEmpty (layout : Layout) : Bool := layout.slots.isEmpty

/-- The number of bytes, at one word per slot. -/
def size (layout : Layout) : Nat := layout.slots.length * wordBytes

/-- The first slot of the first property of that name. -/
def offset? (layout : Layout) (name : String) : Option Nat := layout.offsets.lookup name

end Layout

namespace ElementType

variable {ε : Type}

/-- The width of one entry of a slot list. -/
def slotWidth : Nat := 1

/-- The number of slots of a type whose slots can be listed. -/
def slotTotal (ty : ElementType) : Outcome ε Nat := do
  Size.reserve slotWidth ty.slotCount
  return ty.slotCount

/-- The number of bytes of one element. -/
def byteSize (ty : ElementType) : Outcome ε Nat := do
  let total ← ty.slotTotal
  return total * wordBytes

/-- The layout of a type whose slots can be listed. -/
def layout (ty : ElementType) : Outcome ε Layout := do
  Size.reserve slotWidth ty.slotCount
  return ⟨ty.slots, ty.offsets⟩

end ElementType

end FieldStore
