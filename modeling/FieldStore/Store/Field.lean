/-
Fields and the trees that hold them.

A program gathers its fields in trees.  A tree is one stretch of device memory, and its fields
lie in it one behind the other in the order of their declaration.  A new field goes to the end
of the last tree.  Once storage has been asked for, the tree is sealed and no field joins it any
more; the next declaration opens another tree.  So a tree never changes size after its storage
has been requested.

Nothing here talks to a device.  `Program.pending` says which trees want storage, `sealPending`
closes them, and `attach` records the storage that one of them was given.

The place nodes of a field, one for each slot of its type, are told from the type and not kept with
the field.  The layout lists the slots before the field is placed, so that there is room for them.
-/
import FieldStore.Element.Layout
import FieldStore.Element.WellFormed
import FieldStore.Grid.Shape

namespace FieldStore

/-- A stretch of device memory that holds fields. -/
structure Tree where
  /-- The number of bytes of all its fields. -/
  size : Nat
  /-- The number of its fields. -/
  fields : Nat
  /-- Whether it is closed to further fields. -/
  isSealed : Bool
  /-- Its storage on the device, once it has some. -/
  storage : Option TreeId
  deriving DecidableEq

namespace Tree

/-- A tree without fields. -/
def empty : Tree := ⟨0, 0, false, none⟩

/-- Whether the tree wants storage. -/
def isPending (tree : Tree) : Bool := tree.storage.isNone && decide (0 < tree.size)

/-- The tree closed to further fields. -/
def close (tree : Tree) : Tree := { tree with isSealed := true }

end Tree

/-- One slot of an element as it lies on the device. -/
structure PlaceNode where
  slot : Nat
  primitive : Primitive
  deriving DecidableEq

/-- An array of elements of one type at a fixed place in a tree. -/
structure Field where
  /-- The tree, by its position among the trees of the program. -/
  tree : Nat
  /-- The first byte of the field in its tree. -/
  offset : Nat
  /-- The number of bytes of all elements. -/
  size : Nat
  shape : Shape
  type : ElementType

namespace Field

variable {ε : Type}

/-- The slots of an element in order. -/
def placeNodes (field : Field) : List PlaceNode :=
  field.type.slots.zipIdx.map fun (primitive, slot) => ⟨slot, primitive⟩

/-- The number of bytes of one element. -/
def elementSize (field : Field) : Outcome ε Nat := field.type.byteSize

/-- The bytes of the element at the given indices, as offset in the field and length. -/
def byteRange (field : Field) (indices : List Nat) : Outcome FieldError (Nat × Nat) := do
  let flat ← field.shape.flatIndex indices
  let width ← field.elementSize
  let offset ← Size.mul flat width
  return (offset, width)

end Field

/-- The trees of a program, and the number of its next texture. -/
structure Program where
  trees : List Tree
  nextTexture : Nat
  deriving DecidableEq

namespace Program

/-- A program without fields. -/
def empty : Program := ⟨[], 0⟩

/-! ### Declaration -/

/-- The trees closed to further fields, and the one that the next field joins. -/
def openTree (trees : List Tree) : List Tree × Tree :=
  match trees.getLast? with
  | some last => if last.isSealed then (trees, Tree.empty) else (trees.dropLast, last)
  | none => (trees, Tree.empty)

/-- The field with the given shape and type at the end of the open tree. -/
def place (program : Program) (shape : Shape) (ty : ElementType) :
    Outcome FieldError (Field × Program) := do
  let total ← shape.total
  let width ← ty.byteSize
  let size ← Size.mul total width
  let (closed, tree) := openTree program.trees
  let stop ← Size.add tree.size size
  let grown := { tree with size := stop, fields := tree.fields + 1 }
  return (⟨closed.length, tree.size, size, shape, ty⟩,
    { program with trees := closed ++ [grown] })

/-- The field with the given type and axes, if both are well-formed and its place has an
address. -/
def declare (program : Program) (ty : ElementType) (dims : List Nat) :
    Outcome FieldError (Field × Program) := do
  let ty ← ty.validate
  let shape ← Shape.ofDims dims
  program.place shape ty

/-! ### Storage -/

/-- The trees that want storage, by position and size. -/
def pending (program : Program) : List (Nat × Nat) :=
  program.trees.zipIdx.filterMap fun (tree, index) =>
    if tree.isPending then some (index, tree.size) else none

/-- The program with all trees that want storage closed. -/
def sealPending (program : Program) : Program :=
  { program with
    trees := program.trees.map fun tree => if tree.isPending then tree.close else tree }

/-- The program with storage on record for one tree. -/
def attach (program : Program) (index : Nat) (id : TreeId) : Program :=
  { program with
    trees := program.trees.modify index fun tree => { tree with storage := some id } }

/-- The storage of a tree, if there is such a tree and it has some. -/
def storage? (program : Program) (index : Nat) : Option TreeId :=
  program.trees[index]?.bind Tree.storage

/-- Whether a tree has storage. -/
def isMaterialized (program : Program) (index : Nat) : Bool := (program.storage? index).isSome

/-- The number of bytes of a tree. -/
def treeSize? (program : Program) (index : Nat) : Option Nat :=
  program.trees[index]?.map Tree.size

end Program

end FieldStore
