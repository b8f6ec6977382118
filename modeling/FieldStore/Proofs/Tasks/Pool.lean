/-
Tasks that share one program.

On a host of its own an operation runs to its end before the next one begins.  Here any number of
tasks share a program, and a device takes as long as it likes: an allocation or a transfer is
called in one step and answered in another, and in between the other tasks go on.  An operation is
therefore cut where it waits or looks at what it shares, and a task is at one of the points between
the cuts.  Only one task at a time has the turn to materialize.  It keeps the turn from the closing
of the trees until the last of them has been served or one has been refused; tasks that want the
turn meanwhile wait for it and then look afresh.

The device is not modelled.  What it grants or refuses, and with what identity, and what it answers
to a transfer is left open at every call.
-/
import FieldStore.Proofs.Store.Command
import Mathlib.Logic.Function.Basic

namespace FieldStore

/-! ### Transfers -/

/-- What a transfer moves. -/
inductive Payload
  | read (length : Nat)
  | write (words : List Word)

/-- The number of bytes moved. -/
def Payload.length : Payload → Nat
  | read length => length
  | write words => words.length * wordBytes

/-- A transfer whose range has been checked against the size of its field. -/
structure Transfer where
  field : Field
  offset : Nat
  payload : Payload

/-- A transfer as it is asked for. -/
inductive Request
  | read (field : Field) (offset length : Option Nat)
  | write (field : Field) (words : List Word) (offset : Option Nat)

namespace Request

/-- The field that is to be read or written. -/
def field : Request → Field
  | read field _ _ | write field _ _ => field

/-- The transfer, if its range lies within the field. -/
def check : Request → Outcome FieldError Transfer
  | read field offset length => do
      let (start, count) ← field.range offset length
      return ⟨field, start, .read count⟩
  | write field words offset => do
      let (start, _) ← field.range offset (some (words.length * wordBytes))
      return ⟨field, start, .write words⟩

end Request

namespace Tasks

/-! ### Points -/

/-- Where a task is in its operation.  What is to follow a materialization is a transfer, or
nothing if the materialization was asked for itself. -/
inductive Point
  | idle
  /-- About to look whether the tree of the field has storage. -/
  | looking (transfer : Transfer)
  /-- Waiting for the turn to materialize. -/
  | waiting (goal : Option Transfer)
  /-- With the turn, about to close the trees that want storage. -/
  | closing (goal : Option Transfer)
  /-- With the turn, about to ask for the storage of the first tree left. -/
  | serving (todo : List (Nat × Nat)) (goal : Option Transfer)
  /-- With the turn, an allocation being under way. -/
  | asking (index size : Nat) (todo : List (Nat × Nat)) (goal : Option Transfer)
  /-- With the turn, about to put the storage of a tree on record. -/
  | recording (index : Nat) (id : TreeId) (todo : List (Nat × Nat)) (goal : Option Transfer)
  /-- After a materialization, about to look for the storage of the tree again. -/
  | checking (transfer : Transfer)
  /-- Knowing the storage, about to call the device. -/
  | sending (transfer : Transfer) (id : TreeId)
  /-- The transfer being under way. -/
  | moving (transfer : Transfer) (id : TreeId) (start : Nat)

/-- Whether a task at this point has the turn to materialize. -/
def Point.HasTurn : Point → Prop
  | closing _ | serving _ _ | asking _ _ _ _ | recording _ _ _ _ => True
  | idle | looking _ | waiting _ | checking _ | sending _ _ | moving _ _ _ => False

/-- What can be seen of a step from outside: the calls to the device and its answers, and how the
operations end. -/
inductive Label
  | quiet
  | declared (field : Field)
  | rejected (failure : Failure FieldError)
  /-- Storage for a tree is asked for. -/
  | requested (index size : Nat)
  | granted (index size : Nat) (id : TreeId)
  /-- It is refused, and the operation fails with that. -/
  | refused (index size : Nat) (failure : Failure DeviceError)
  /-- The device is called for a transfer. -/
  | called (transfer : Transfer) (id : TreeId) (start : Nat)
  /-- It answers, and the operation ends with that. -/
  | answered (transfer : Transfer) (id : TreeId) (start : Nat) (answer : Outcome DeviceError Reply)
  /-- An operation ends of itself. -/
  | returned (outcome : Outcome FieldError Reply)

/-- How a materialization or a transfer ends, if it ends with this label. -/
def Label.outcome? : Label → Option (Outcome FieldError Reply)
  | refused _ _ failure => some (.error (failure.map FieldError.device))
  | answered _ _ _ answer => some (answer.mapError (Failure.map FieldError.device))
  | returned outcome => some outcome
  | quiet | declared _ | rejected _ | requested _ _ | granted _ _ _ | called _ _ _ => none

/-! ### Steps -/

/-- A program, the fields declared so far, the task that has the turn, and where the tasks are. -/
structure Pool where
  program : Program
  fields : List Field
  holder : Option Nat
  point : Nat → Point

namespace Pool

/-- A program without fields, no task having begun anything. -/
def start : Pool := ⟨Program.empty, [], none, fun _ => .idle⟩

/-- The pool with one task at another point. -/
def move (pool : Pool) (task : Nat) (point : Point) : Pool :=
  { pool with point := Function.update pool.point task point }

/-- The pool after a declaration. -/
def declared (pool : Pool) (field : Field) (program : Program) : Pool :=
  { pool with program := program, fields := pool.fields ++ [field] }

/-- The pool with another program. -/
def withProgram (pool : Pool) (program : Program) : Pool := { pool with program := program }

/-- The pool with the turn given to a task or given up. -/
def withHolder (pool : Pool) (holder : Option Nat) : Pool := { pool with holder := holder }

end Pool

/-- One step of one task. -/
inductive Step : Pool → Nat → Label → Pool → Prop
  /-- Declares a field. -/
  | declare {pool : Pool} {task : Nat} {ty : ElementType} {dims : List Nat} {field : Field}
      {program : Program} (hpoint : pool.point task = .idle)
      (hdeclare : pool.program.declare ty dims = .ok (field, program)) :
      Step pool task (.declared field) (pool.declared field program)
  | reject {pool : Pool} {task : Nat} {ty : ElementType} {dims : List Nat}
      {failure : Failure FieldError} (hpoint : pool.point task = .idle)
      (hdeclare : pool.program.declare ty dims = .error failure) :
      Step pool task (.rejected failure) pool
  /-- Begins to materialize. -/
  | beginMaterialize {pool : Pool} {task : Nat} (hpoint : pool.point task = .idle) :
      Step pool task .quiet (pool.move task (.waiting none))
  /-- Begins a transfer on a field of the program. -/
  | beginTransfer {pool : Pool} {task : Nat} {request : Request} {transfer : Transfer}
      (hpoint : pool.point task = .idle) (hown : request.field ∈ pool.fields)
      (hcheck : request.check = .ok transfer) :
      Step pool task .quiet (pool.move task (.looking transfer))
  | outOfRange {pool : Pool} {task : Nat} {request : Request} {failure : Failure FieldError}
      (hpoint : pool.point task = .idle) (hown : request.field ∈ pool.fields)
      (hcheck : request.check = .error failure) :
      Step pool task (.returned (.error failure)) pool
  /-- The tree of the field has storage. -/
  | found {pool : Pool} {task : Nat} {transfer : Transfer} {id : TreeId}
      (hpoint : pool.point task = .looking transfer)
      (hstorage : pool.program.storage? transfer.field.tree = some id) :
      Step pool task .quiet (pool.move task (.sending transfer id))
  /-- It has none. -/
  | missing {pool : Pool} {task : Nat} {transfer : Transfer}
      (hpoint : pool.point task = .looking transfer)
      (hstorage : pool.program.storage? transfer.field.tree = none) :
      Step pool task .quiet (pool.move task (.waiting (some transfer)))
  /-- Takes the turn, which no task has. -/
  | enter {pool : Pool} {task : Nat} {goal : Option Transfer}
      (hpoint : pool.point task = .waiting goal) (hfree : pool.holder = none) :
      Step pool task .quiet ((pool.withHolder (some task)).move task (.closing goal))
  /-- Closes the trees that want storage. -/
  | close {pool : Pool} {task : Nat} {goal : Option Transfer}
      (hpoint : pool.point task = .closing goal) :
      Step pool task .quiet ((pool.withProgram pool.program.sealPending).move task
        (.serving pool.program.pending goal))
  | ask {pool : Pool} {task index size : Nat} {todo : List (Nat × Nat)} {goal : Option Transfer}
      (hpoint : pool.point task = .serving ((index, size) :: todo) goal) :
      Step pool task (.requested index size) (pool.move task (.asking index size todo goal))
  | grant {pool : Pool} {task index size : Nat} {todo : List (Nat × Nat)} {goal : Option Transfer}
      (id : TreeId) (hpoint : pool.point task = .asking index size todo goal) :
      Step pool task (.granted index size id) (pool.move task (.recording index id todo goal))
  /-- Gives up the turn with the operation. -/
  | refuse {pool : Pool} {task index size : Nat} {todo : List (Nat × Nat)} {goal : Option Transfer}
      (failure : Failure DeviceError) (hpoint : pool.point task = .asking index size todo goal) :
      Step pool task (.refused index size failure) ((pool.withHolder none).move task .idle)
  | record {pool : Pool} {task index : Nat} {id : TreeId} {todo : List (Nat × Nat)}
      {goal : Option Transfer} (hpoint : pool.point task = .recording index id todo goal) :
      Step pool task .quiet
        ((pool.withProgram (pool.program.attach index id)).move task (.serving todo goal))
  /-- Gives up the turn, all trees having been served. -/
  | finish {pool : Pool} {task : Nat} (hpoint : pool.point task = .serving [] none) :
      Step pool task (.returned (.ok .done)) ((pool.withHolder none).move task .idle)
  /-- The same, a transfer being still to follow. -/
  | proceed {pool : Pool} {task : Nat} {transfer : Transfer}
      (hpoint : pool.point task = .serving [] (some transfer)) :
      Step pool task .quiet ((pool.withHolder none).move task (.checking transfer))
  | obtained {pool : Pool} {task : Nat} {transfer : Transfer} {id : TreeId}
      (hpoint : pool.point task = .checking transfer)
      (hstorage : pool.program.storage? transfer.field.tree = some id) :
      Step pool task .quiet (pool.move task (.sending transfer id))
  | lacking {pool : Pool} {task : Nat} {transfer : Transfer}
      (hpoint : pool.point task = .checking transfer)
      (hstorage : pool.program.storage? transfer.field.tree = none) :
      Step pool task (.returned (.error (.error (.notMaterialized transfer.field.tree))))
        (pool.move task .idle)
  | call {pool : Pool} {task start : Nat} {transfer : Transfer} {id : TreeId}
      (hpoint : pool.point task = .sending transfer id)
      (hstart : (Size.add transfer.field.offset transfer.offset : Outcome FieldError Nat)
        = .ok start) :
      Step pool task (.called transfer id start) (pool.move task (.moving transfer id start))
  | overflow {pool : Pool} {task : Nat} {transfer : Transfer} {id : TreeId}
      {failure : Failure FieldError} (hpoint : pool.point task = .sending transfer id)
      (hstart : (Size.add transfer.field.offset transfer.offset : Outcome FieldError Nat)
        = .error failure) :
      Step pool task (.returned (.error failure)) (pool.move task .idle)
  | answer {pool : Pool} {task start : Nat} {transfer : Transfer} {id : TreeId}
      (answer : Outcome DeviceError Reply) (hpoint : pool.point task = .moving transfer id start) :
      Step pool task (.answered transfer id start answer) (pool.move task .idle)

/-- Steps of any tasks in any order, with their labels. -/
inductive Run : Pool → List (Nat × Label) → Pool → Prop
  | nil (pool : Pool) : Run pool [] pool
  | cons {pool next last : Pool} {task : Nat} {label : Label} {trace : List (Nat × Label)}
      (hstep : Step pool task label next) (hrest : Run next trace last) :
      Run pool ((task, label) :: trace) last

namespace Run

variable {pool next last : Pool} {trace trace' : List (Nat × Label)}

theorem append (h : Run pool trace next) (h' : Run next trace' last) :
    Run pool (trace ++ trace') last := by
  induction h with
  | nil => exact h'
  | cons hstep _ ih => exact .cons hstep (ih h')

end Run

namespace Pool

variable {pool : Pool} {task other : Nat} {point : Point}

@[simp] theorem move_program : (pool.move task point).program = pool.program := rfl

@[simp] theorem move_point_self : (pool.move task point).point task = point :=
  Function.update_self ..

theorem move_point_of_ne (h : other ≠ task) :
    (pool.move task point).point other = pool.point other := Function.update_of_ne h ..

end Pool

end Tasks

end FieldStore
