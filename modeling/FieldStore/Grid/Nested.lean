/-
Nested arrays and their flat form.

`reshape` folds a list of elements into nested arrays, the innermost axis first, and makes the
outermost array out of what is left.  `flatten` walks the nested array from the outermost axis
inward, checks the length of every array on the way and lists the elements in row-major order.
Neither asks the axes to be positive.
-/
import FieldStore.Error
import FieldStore.Grid.Group

namespace FieldStore

/-- An element, or an array of nested arrays. -/
inductive NdArray (α : Type)
  | element (x : α)
  | array (items : List (NdArray α))
  deriving Inhabited

namespace NdArray

variable {α : Type}

/-- The element that a nested array is, if it is one. -/
def element? : NdArray α → Option α
  | element x => some x
  | array _ => none

/-- The items of an array. -/
def items? : NdArray α → Option (List (NdArray α))
  | element _ => none
  | array items => some items

/-- The nested array reached by following indices one axis at a time. -/
def at? (nested : NdArray α) : List Nat → Option (NdArray α)
  | [] => some nested
  | index :: indices => do
      let items ← nested.items?
      let item ← items[index]?
      item.at? indices

/-- The array of the given elements. -/
def ofList (elements : List α) : NdArray α := array (elements.map element)

mutual
/-- Whether two nested arrays have the same form and related elements. -/
def same (related : α → α → Bool) : NdArray α → NdArray α → Bool
  | element x, element y => related x y
  | array xs, array ys => sameItems related xs ys
  | _, _ => false

/-- Whether two lists of nested arrays agree item by item. -/
def sameItems (related : α → α → Bool) : List (NdArray α) → List (NdArray α) → Bool
  | [], [] => true
  | x :: xs, y :: ys => same related x y && sameItems related xs ys
  | _, _ => false
end

/-! ### From a list -/

/-- The items grouped into arrays of `n`. -/
def group (items : List (NdArray α)) (n : Nat) : Outcome FieldError (List (NdArray α)) := do
  let groups ← Grid.groupBy n items
  return groups.map array

/-- The elements folded into nested arrays with the given axes. -/
def reshape (elements : List α) (dims : List Nat) : Outcome FieldError (NdArray α) := do
  let expected ← Size.product dims
  if elements.length ≠ expected then
    throw (.error (.mismatch (.elementCount elements.length dims)))
  match dims with
  | [] =>
      match elements with
      | x :: _ => return element x
      | [] => throw (.error (.mismatch .noElement))
  | _ :: inner =>
      let items ← inner.reverse.foldlM group (elements.map element)
      return array items

/-! ### To a list -/

/-- The width of one reference to an element, for what a flat list reserves. -/
def referenceWidth : Nat := 8

mutual
/-- The elements in row-major order, every level being checked against `dims` from `depth` on. -/
def flattenFrom (dims : List Nat) (depth : Nat) : NdArray α → Outcome FieldError (List α)
  | element x =>
      match dims[depth]? with
      | none => .ok [x]
      | some _ => .error (.error (.mismatch (.arrayExpected depth)))
  | array items =>
      match dims[depth]? with
      | some axis =>
          if items.length = axis then flattenItems dims (depth + 1) items
          else .error (.error (.mismatch (.axisLength depth items.length axis)))
      | none => .error (.error (.mismatch (.nestedTooDeep dims.length)))

/-- The elements of all items, one item after the other. -/
def flattenItems (dims : List Nat) (depth : Nat) :
    List (NdArray α) → Outcome FieldError (List α)
  | [] => .ok []
  | item :: items => do
      let first ← flattenFrom dims depth item
      let rest ← flattenItems dims depth items
      return first ++ rest
end

/-- The elements of a nested array with the given axes, in row-major order. -/
def flatten (nested : NdArray α) (dims : List Nat) : Outcome FieldError (List α) := do
  let count ← Size.product dims
  Size.reserve referenceWidth count
  flattenFrom dims 0 nested

end NdArray

end FieldStore
