/-
From slots to host values.

The two lanes are taken as they come and need not agree: every slot is read from the lane of its
own kind.  A struct hands each property the slots that the layout gives it and gathers the
results into a record.  The lengths of both lanes are checked first, at every level, so a run
of the wrong length is reported before anything else.  The values of consecutive elements are no
more than the slots that they are read from, and there is room for their list.
-/
import FieldStore.Element.Layout
import FieldStore.Error
import FieldStore.Grid.Group
import FieldStore.Machine.Convert

namespace FieldStore

/-- The lane of the given kind as host numbers. -/
def Lanes.numbers (lanes : Lanes) : Primitive → List Binary64
  | .i32 => lanes.ints.map Binary64.ofWord
  | .f32 => lanes.floats.map Binary64.ofBinary32

namespace ElementType

/-- Whether both lanes have one entry per slot. -/
def checkLanes (ty : ElementType) (lanes : Lanes) : Outcome FieldError Unit := do
  let total ← ty.slotTotal
  if lanes.ints.length = total ∧ lanes.floats.length = total then
    return ()
  else
    throw (.error (.mismatch (.slotCount ty total lanes.ints.length lanes.floats.length)))

mutual
/-- The value that a run of slots holds. -/
def decode : ElementType → Lanes → Outcome FieldError Value
  | scalar p, lanes => do
      checkLanes (scalar p) lanes
      match lanes.numbers p with
      | x :: _ => return .number x
      | [] => throw (.fault .outOfBounds)
  | vector p rows, lanes => do
      checkLanes (vector p rows) lanes
      return .vector (lanes.numbers p)
  | matrix p rows cols, lanes => do
      checkLanes (matrix p rows cols) lanes
      return .matrix (Grid.chunks cols (lanes.numbers p))
  | struct properties, lanes => do
      checkLanes (struct properties) lanes
      let entries ← decodeProperties properties (struct properties).offsets lanes []
      return .record entries

/-- The entries of a record with those of the remaining properties added. -/
def decodeProperties :
    List (String × ElementType) → List (String × Nat) → Lanes → Entries Value →
      Outcome FieldError (Entries Value)
  | (name, ty) :: properties, (_, offset) :: offsets, lanes, entries => do
      let slots ← lanes.slice offset ty.slotCount
      let value ← decode ty slots
      decodeProperties properties offsets lanes (entries.insert name value)
  | _, _, _, entries => .ok entries
end

/-- The value that a run of words holds. -/
def decodeWords (ty : ElementType) (words : List Word) : Outcome FieldError Value :=
  ty.decode (Lanes.ofWords words)

/-- The values of consecutive elements. -/
def decodeAll (ty : ElementType) (lanes : Lanes) : Outcome FieldError (List Value) := do
  let total ← ty.slotTotal
  if total = 0 then throw (.fault .divisionByZero)
  if lanes.ints.length = lanes.floats.length ∧ lanes.ints.length % total = 0 then
    let ints := Grid.chunks total lanes.ints
    let floats := Grid.chunks total lanes.floats
    (ints.zip floats).mapM fun (ints, floats) => ty.decode ⟨ints, floats⟩
  else
    throw (.error (.mismatch (.partialElements lanes.ints.length lanes.floats.length total)))

end ElementType

end FieldStore
