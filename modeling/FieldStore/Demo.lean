/-
A tour of the library on host memory.

Three fields are declared one after the other, a scalar, a vector and a struct field, each
written and read back, and a line is reported for every reading.  Since each field is used
before the next is declared, each gets a tree of its own.  With a limit on allocations the tour
ends at the first field that does not fit; the lines up to there stay.
-/
import FieldStore.Device.Settings
import FieldStore.Machine.Decimal
import FieldStore.Store.Access

namespace FieldStore

/-! ### Texts of values -/

/-- The text of a list, given the texts of its items. -/
def listText (items : List String) : String :=
  let joined := ", ".intercalate items
  s!"[{joined}]"

/-- The text of a list of numbers. -/
def numbersText (numbers : List Binary64) : String := listText (numbers.map Binary64.pointText)

namespace Value

mutual
/-- The text of a value, its form in front. -/
def text : Value → String
  | number x => s!"Number({x.pointText})"
  | vector xs => s!"Vector({numbersText xs})"
  | matrix rows =>
      let lines := listText (rows.map numbersText)
      s!"Matrix({lines})"
  | record entries =>
      let fields := ", ".intercalate (entryTexts entries)
      s!"Record(\x7b{fields}\x7d)"

/-- The texts of the entries of a record, each with its key in quotes. -/
def entryTexts : List (String × Value) → List String
  | [] => []
  | (key, value) :: rest => s!"\"{key}\": {text value}" :: entryTexts rest
end

end Value

namespace NdArray

mutual
/-- The text of a nested array of values. -/
def text : NdArray Value → String
  | element x => s!"Element({x.text})"
  | array items => s!"Array({listText (itemTexts items)})"

/-- The texts of the items of an array. -/
def itemTexts : List (NdArray Value) → List String
  | [] => []
  | item :: rest => text item :: itemTexts rest
end

end NdArray

namespace Demo

/-! ### The tour -/

/-- A computation on a host that reports lines. -/
abbrev TourM (α : Type) : Type := ExceptT (Failure FieldError) (StateM (Host × List String)) α

/-- A computation on the host, with nothing reported. -/
def perform {α : Type} (action : HostM FieldError α) : TourM α :=
  ExceptT.mk fun (host, lines) =>
    let (result, host) := (ExceptT.run action).run host
    (result, (host, lines))

/-- Reports a line. -/
def report (line : String) : TourM Unit :=
  modify fun (host, lines) => (host, lines ++ [line])

/-- The number with an integer value. -/
def number (i : Int) : Binary64 := Binary64.ofInt i

/-- The number that is `n` quarters. -/
def quarters (n : Int) : Binary64 :=
  Binary64.ofMagnitude (decide (n < 0)) (Binary64.exactMagnitude n.natAbs 147)

/-- A field of ten integers, written and read as a list. -/
def scalarTour : TourM Unit := do
  let field ← perform (Host.declare (.scalar .i32) [10])
  let numbers := (List.range 10).map fun (i : Nat) => number i
  perform (field.fromNumbers numbers)
  let numbers ← perform field.toNumbers
  report s!"Scalar field [10]: {numbersText numbers}"
  let value ← perform (field.get [3])
  match value.number? with
  | some x => report s!"Scalar field [10] at [3]: {x.plainText}"
  | none => pure ()

/-- A grid of pairs, filled one element at a time. -/
def vectorTour : TourM Unit := do
  let field ← perform (Host.declare (.vector .i32 2) [3, 3])
  let indices ← (Grid.tuples [3, 3] : Outcome FieldError _)
  indices.forM fun index => do
    let base : Nat := index.getD 0 0 * 10 + index.getD 1 0
    perform (field.set index (.vector [number base, number (base + 10000)]))
  perform (field.set [1, 1] (.vector [number 7, number 8]))
  let value ← perform (field.get [1, 1])
  report s!"Vector field [3, 3] at [1, 1]: {value.text}"
  let numbers ← perform field.toNumbers
  report s!"Vector field [3, 3] flat: {numbersText numbers}"

/-- Two particles, written and read as an array of records. -/
def structTour : TourM Unit := do
  let particle (x y : Binary64) (id : Int) : Value :=
    Value.ofEntries [("pos", .vector [x, y]), ("id", .number (number id))]
  let type : ElementType := .struct [("pos", .vector .f32 2), ("id", .scalar .i32)]
  let field ← perform (Host.declare type [2])
  perform (field.fromArray (NdArray.ofList
    [particle (quarters 2) (quarters 6) 1, particle (quarters (-4)) (quarters 9) 2]))
  let nested ← perform field.toArray
  report s!"Struct field [2]: {nested.text}"

/-- The whole tour. -/
def tour : TourM Unit := do
  report "Using host runtime"
  scalarTour
  vectorTour
  structTour

/-! ### Its outcome -/

/-- What a run leaves behind: an exit code and the lines for output and for errors. -/
structure Report where
  code : Nat
  output : List String
  errors : List String
  deriving DecidableEq

/-- The words for a fault. -/
def faultText : Fault → String
  | .overflow => "size overflow"
  | .capacity => "capacity overflow"
  | .divisionByZero => "division by zero"
  | .outOfBounds => "range out of bounds"

/-- The words for how a computation failed. -/
def failureText : Failure FieldError → String
  | .error cause => cause.message
  | .fault reason => faultText reason

/-- The tour on a host memory with the given limit. -/
def runOnHost (limit : Option Nat) : Report :=
  let host : Host := ⟨Program.empty, HostMemory.empty limit, 0, []⟩
  match (ExceptT.run tour).run (host, []) with
  | (.ok (), _, lines) => ⟨0, lines, []⟩
  | (.error failure, _, lines) => ⟨1, lines, [s!"Error: {failureText failure}"]⟩

/-- The tour with the settings that the variables give.  Without an adapter there is nothing to
run on a graphics device. -/
def run (lookup : String → Option String) : Report :=
  let settings := (Settings.ofVariables lookup).1
  match settings.backend with
  | .host => runOnHost settings.maxBufferBytes
  | .gpu => ⟨1, [], ["Error: No suitable GPU adapter"]⟩

end Demo

end FieldStore
