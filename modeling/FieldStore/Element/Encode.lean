/-
From host values to slots.

A tensor value is flattened row by row and each number converted to the kind of its slot.  A
record starts as a run of zero slots as long as its type, and the encoding of each property is
put at the offset that the layout gives it.  Entries that the type does not declare are passed
over.

The errors come in the order in which a reader of the type meets them: a struct complains about
the value's form first, then property by property in declared order, each property's own errors
before the next property is looked at.  Every write is checked against the bounds of the run.  The
zero slots themselves are as many as the layout lists, so there is room for them.
-/
import FieldStore.Element.Layout
import FieldStore.Error
import FieldStore.Machine.Convert

namespace FieldStore

/-- The word that stores a host number in a slot of the given kind. -/
def Primitive.toWord (p : Primitive) (x : Binary64) : Word :=
  match p with
  | .i32 => x.toIntWord
  | .f32 => (Binary32.ofBinary64 x).toWord

namespace ElementType

/-- The numbers of a tensor value row by row, provided it has the shape that the type gives. -/
def tensorNumbers (ty : ElementType) (value : Value) : Outcome FieldError (List Binary64) :=
  match ty, value with
  | scalar _, .number x => .ok [x]
  | vector _ rows, .vector xs =>
      if xs.length = rows then .ok xs
      else .error (.error (.mismatch (.vectorRows rows xs.length)))
  | matrix _ rows cols, .matrix lines =>
      if lines.length = rows ∧ lines.all (·.length == cols) then .ok lines.flatten
      else .error (.error (.mismatch (.matrixShape rows cols)))
  | struct _, _ => .error (.error (.tensorOnly .numbers))
  | tensor, other => .error (.error (.mismatch (.notHeld tensor other.kind)))

/-- The encoding of a tensor value whose slots are all of kind `p`. -/
def encodeTensor (p : Primitive) (ty : ElementType) (value : Value) : Outcome FieldError Lanes := do
  let total ← ty.slotTotal
  let numbers ← ty.tensorNumbers value
  (Lanes.zeros total).splice 0 (Lanes.ofWords (numbers.map p.toWord))

mutual
/-- The slots that hold a value. -/
def encode : ElementType → Value → Outcome FieldError Lanes
  | struct properties, value => do
      let total ← (struct properties).slotTotal
      match value with
      | .record entries =>
          encodeProperties properties (struct properties).offsets entries (Lanes.zeros total)
      | other => .error (.error (.mismatch (.notRecord other.kind)))
  | scalar p, value => encodeTensor p (scalar p) value
  | vector p rows, value => encodeTensor p (vector p rows) value
  | matrix p rows cols, value => encodeTensor p (matrix p rows cols) value

/-- The run with each property's encoding put at its offset. -/
def encodeProperties :
    List (String × ElementType) → List (String × Nat) → Entries Value → Lanes →
      Outcome FieldError Lanes
  | (name, ty) :: properties, (_, offset) :: offsets, entries, lanes =>
      match entries.lookup name with
      | none => .error (.error (.missingProperty name))
      | some value => do
          let nested ← encode ty value
          let lanes ← lanes.splice offset nested
          encodeProperties properties offsets entries lanes
  | _, _, _, lanes => .ok lanes
end

/-- The words that hold a value, as they are written to a device. -/
def encodeWords (ty : ElementType) (value : Value) : Outcome FieldError (List Word) := do
  let lanes ← ty.encode value
  return lanes.ints

end ElementType

end FieldStore
