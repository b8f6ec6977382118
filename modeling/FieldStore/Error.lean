/-
The errors of the library, by cause, and their wording.

A device reports what is wrong with an allocation or a transfer.  Everything above the device
reports what is wrong with a declaration, a value or an index, and passes device errors on.
Each constructor stands for one cause and carries what its message shows; the wording is in
the functions `message` alone, so that no other definition depends on it.
-/
import FieldStore.Element.Text
import FieldStore.Element.Value
import FieldStore.Machine.Size

namespace FieldStore

/-- The text of a list of sizes. -/
def sizesText (sizes : List Nat) : String :=
  let items := ", ".intercalate (sizes.map toString)
  s!"[{items}]"

/-! ### Device errors -/

/-- The identity of one allocation, unique among all allocations of a session. -/
structure TreeId where
  number : Nat
  deriving DecidableEq, Repr

/-- Why a device refuses an allocation or a transfer. -/
inductive DeviceError
  /-- No allocation has this identity. -/
  | unknownTree (tree : TreeId)
  /-- The range does not end within the allocation. -/
  | outOfRange (offset length size : Nat)
  /-- The range does not consist of whole words. -/
  | unaligned (offset length : Nat)
  /-- The allocation exceeds what one buffer may hold. -/
  | memoryExhaustion (requested limit : Nat)
  deriving DecidableEq

/-- The wording of a device error. -/
def DeviceError.message : DeviceError → String
  | unknownTree tree => s!"Unknown tree TreeId({tree.number})"
  | outOfRange offset length size =>
      s!"Transfer out of range: offset {offset} + length {length} exceeds {size} bytes"
  | unaligned offset length =>
      s!"Transfer not aligned to 4 bytes: offset {offset}, length {length}"
  | memoryExhaustion requested limit =>
      s!"Memory exhaustion: requested {requested} bytes, limit {limit} bytes"

/-! ### Malformed declarations -/

/-- Why a declaration is refused. -/
inductive Malformed
  /-- The element type is not one that a field may have. -/
  | elementType (cause : ElementType.Malformed)
  /-- A field without axes. -/
  | noAxis
  /-- A field one of whose axes is zero, the first such axis being named. -/
  | zeroAxis (axis : Nat) (dims : List Nat)
  /-- A texture with no axes or more than three. -/
  | textureRank (rank : Nat)
  /-- A texture one of whose axes is zero. -/
  | textureZeroAxis (dims : List Nat)
  /-- A texture with a number of components that no format has. -/
  | textureComponents (components : Nat)
  deriving DecidableEq

/-- What is wrong with a declaration, in words. -/
def Malformed.text : Malformed → String
  | elementType cause => cause.text
  | noAxis => "field needs at least one dimension"
  | zeroAxis axis dims => s!"dimension {axis} of {sizesText dims} is zero"
  | textureRank rank => s!"texture dimensions must be >= 1 and <= 3, got {rank}"
  | textureZeroAxis dims => s!"texture extent {sizesText dims} has a zero axis"
  | textureComponents components => s!"texture components must be 1, 2, or 4, got {components}"

/-! ### Values that do not fit -/

/-- How a value, a run of words or a nested array differs from what is expected. -/
inductive Mismatch
  /-- A vector of the wrong length. -/
  | vectorRows (expected actual : Nat)
  /-- A matrix of the wrong dimensions, or a ragged one. -/
  | matrixShape (rows cols : Nat)
  /-- A value of the wrong form for a tensor type. -/
  | notHeld (type : ElementType) (kind : Value.Kind)
  /-- A value that is no record where a struct is expected. -/
  | notRecord (kind : Value.Kind)
  /-- A run whose lanes do not have one word per slot of the type. -/
  | slotCount (type : ElementType) (slots ints floats : Nat)
  /-- Lanes that cannot be cut into elements. -/
  | partialElements (ints floats slots : Nat)
  /-- Elements that do not fill a grid. -/
  | elementCount (elements : Nat) (dims : List Nat)
  /-- No element for a grid without axes. -/
  | noElement
  /-- An array of the wrong length at some axis. -/
  | axisLength (axis actual expected : Nat)
  /-- An element where some axis calls for an array. -/
  | arrayExpected (axis : Nat)
  /-- An array below the last axis. -/
  | nestedTooDeep (axes : Nat)
  deriving DecidableEq

/-- How the two differ, in words. -/
def Mismatch.text : Mismatch → String
  | vectorRows expected actual => s!"vector of {expected} rows expected, got {actual}"
  | matrixShape rows cols => s!"matrix of {rows}x{cols} expected"
  | notHeld type kind => s!"{type.text} cannot hold a {kind.text}"
  | notRecord kind => s!"struct type expects a record, got a {kind.text}"
  | slotCount type slots ints floats =>
      s!"{type.text} spans {slots} slots, got {ints} int and {floats} float"
  | partialElements ints floats slots =>
      s!"{ints} int and {floats} float slots do not split into elements of {slots} slots"
  | elementCount elements dims => s!"{elements} elements cannot fill dimensions {sizesText dims}"
  | noElement => "no element for rank-0 shape"
  | axisLength axis actual expected => s!"axis {axis} has {actual} entries, expected {expected}"
  | arrayExpected axis => s!"expecting array at axis {axis}"
  | nestedTooDeep axes => s!"array nested deeper than {axes} axes"

/-! ### Errors of the library -/

/-- What was asked of a struct type that only tensor types can give. -/
inductive TensorUse
  /-- Its single primitive kind. -/
  | primitive
  /-- Its numbers in one flat list. -/
  | numbers
  /-- To be written from one flat list. -/
  | flatWrite
  deriving DecidableEq

/-- The reason for a refusal, in words. -/
def TensorUse.text : TensorUse → String
  | primitive => "struct types have no single primitive kind"
  | numbers => "expecting tensor type"
  | flatWrite => "from_array_1d can only be used on fields of scalar/vector/matrix types"

/-- What the library reports to its caller. -/
inductive FieldError
  | malformed (cause : Malformed)
  | mismatch (cause : Mismatch)
  /-- A record lacks a declared property. -/
  | missingProperty (name : String)
  /-- A byte range or a flat list does not have the size that the field requires. -/
  | sizeMismatch (expected actual : Nat)
  /-- An index reaches the end of its axis. -/
  | indexOutOfRange (axis index size : Nat)
  /-- An index tuple has the wrong number of indices. -/
  | indexRank (expected actual : Nat)
  /-- A tree has no storage and materialization gave it none. -/
  | notMaterialized (tree : Nat)
  /-- A struct type where only a tensor type makes sense. -/
  | tensorOnly (use : TensorUse)
  /-- The device refused. -/
  | device (cause : DeviceError)
  deriving DecidableEq

/-- The wording of an error. -/
def FieldError.message : FieldError → String
  | malformed cause => s!"Invalid construction: {cause.text}"
  | mismatch cause => s!"Shape mismatch: {cause.text}"
  | missingProperty name => s!"Missing property: {name}"
  | sizeMismatch expected actual => s!"Size mismatch: expected {expected} bytes, got {actual} bytes"
  | indexOutOfRange axis index size =>
      s!"Index {index} out of bounds for axis {axis} with size {size}"
  | indexRank expected actual => s!"Index rank mismatch: expecting {expected}, received {actual}"
  | notMaterialized tree => s!"Tree {tree} has no device storage"
  | tensorOnly use => s!"Type error: {use.text}"
  | device cause => cause.message

end FieldStore
