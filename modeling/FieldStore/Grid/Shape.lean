/-
The shape of a field: its axes and the row-major position of an index tuple.

Every axis is positive and there is at least one, which the type records.  The last axis varies
fastest.  The position of a tuple is summed from the last axis on, the stride growing by one
axis at a time and by the first one too at the end, although nothing is added after that.  A
grid whose number of elements does not fit in 64 bits therefore has no positions at all.
-/
import FieldStore.Error

namespace FieldStore

/-- The axes of a field. -/
structure Shape where
  dims : List Nat
  /-- There is at least one axis. -/
  dims_ne_nil : dims ≠ []
  /-- No axis is empty. -/
  dims_pos : ∀ d ∈ dims, 0 < d

namespace Shape

variable {ε : Type}

/-- The shape with the given axes, if there is one. -/
def ofDims (dims : List Nat) : Outcome FieldError Shape :=
  if hne : dims = [] then .error (.error (.malformed .noAxis))
  else if hpos : ∀ d ∈ dims, 0 < d then .ok ⟨dims, hne, hpos⟩
  else .error (.error (.malformed (.zeroAxis (dims.findIdx (· == 0)) dims)))

/-- The number of axes. -/
def rank (shape : Shape) : Nat := shape.dims.length

/-- The number of elements. -/
def total (shape : Shape) : Outcome ε Nat := Size.product shape.dims

/-- The first index that reaches the end of its axis, axes being counted from `axis` on. -/
def checkAxes (axis : Nat) : List Nat → List Nat → Outcome FieldError Unit
  | index :: indices, size :: sizes =>
      if index < size then checkAxes (axis + 1) indices sizes
      else .error (.error (.indexOutOfRange axis index size))
  | _, _ => .ok ()

/-- Whether an index tuple denotes an element. -/
def checkIndices (shape : Shape) (indices : List Nat) : Outcome FieldError Unit :=
  if indices.length = shape.rank then checkAxes 0 indices shape.dims
  else .error (.error (.indexRank shape.rank indices.length))

/-- The position within the grid of the given axes, and the number of elements of that grid. -/
def position : List Nat → List Nat → Outcome ε (Nat × Nat)
  | index :: indices, size :: sizes => do
      let (flat, stride) ← position indices sizes
      let step ← Size.mul index stride
      let flat ← Size.add flat step
      let stride ← Size.mul stride size
      return (flat, stride)
  | _, _ => .ok (0, 1)

/-- The row-major position of an index tuple. -/
def flatIndex (shape : Shape) (indices : List Nat) : Outcome FieldError Nat := do
  shape.checkIndices indices
  let (flat, _) ← position indices shape.dims
  return flat

end Shape

end FieldStore
