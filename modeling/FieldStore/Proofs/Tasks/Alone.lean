/-
A task that is alone.

When nobody else takes a step, an operation is what it is on a host of its own.  `Point.rest` is
the part of an operation that is still to be run at a point, written with the operations of a
host.  If the memory of a host answers for the device, then one step of the task makes no
difference to how the rest comes out, and the last step ends as the rest does.  So an operation
that is cut at its points ends as the operation does in one piece.  It also gets there: a task
that is alone never waits in vain.
-/
import FieldStore.Proofs.Tasks.Pool

namespace FieldStore

open Host

/-! ### The operations in pieces -/

/-- Obtaining storage from the device does not touch the program. -/
theorem Host.program_allocate (size : Nat) (host : Host) :
    (runs (allocate size) host).2.program = host.program :=
  outcome_of_ends (P := fun _ left => left.program = host.program)
    (ends_allocate (fun _ _ _ => rfl) (fun _ _ => rfl) fun _ _ _ => rfl)

/-- The call to the device. -/
def Transfer.onMemory (transfer : Transfer) (id : TreeId) (start : Nat) :
    HostM DeviceError Reply :=
  match transfer.payload with
  | .read length => do
      let lanes ← readRegion id start length
      return .lanes lanes
  | .write words => do
      writeRegion id start words
      return .done

/-- Nor does a transfer. -/
theorem program_onMemory (transfer : Transfer) (id : TreeId) (start : Nat) (host : Host) :
    (runs (transfer.onMemory id start) host).2.program = host.program := by
  refine outcome_of_ends (P := fun _ left => left.program = host.program) ?_
  unfold Transfer.onMemory
  cases transfer.payload with
  | read length => exact ends_bind.mpr (ends_readRegion (fun _ _ _ => rfl) fun _ _ => rfl)
  | write words => exact ends_bind.mpr (ends_writeRegion (fun _ _ _ => rfl) fun _ _ => rfl)

/-- The transfer, once the storage is known. -/
def Transfer.send (transfer : Transfer) (id : TreeId) : HostM FieldError Reply := do
  let start ← (Size.add transfer.field.offset transfer.offset : Outcome FieldError Nat)
  onDevice (transfer.onMemory id start)

/-- What follows a materialization. -/
def afterwards : Option Transfer → HostM FieldError Reply
  | none => return .done
  | some transfer => do
      match (← get).program.storage? transfer.field.tree with
      | some id => transfer.send id
      | none => throw (.error (.notMaterialized transfer.field.tree))

/-- The request on a host of its own. -/
def Request.run : Request → HostM FieldError Reply
  | read field offset length => (Query.read offset length).run field
  | write field words offset => do
      (Update.write words offset).run field
      return .done

namespace Tasks

/-- What is left of an operation at a point, on a host of its own. -/
def Point.rest : Point → HostM FieldError Reply
  | idle => return .done
  | looking transfer => do
      let id ← requireStorage transfer.field.tree
      transfer.send id
  | waiting goal | closing goal => do
      materialize
      afterwards goal
  | serving todo goal => do
      todo.forM fun (index, size) => obtainStorage index size
      afterwards goal
  | asking index size todo goal => do
      obtainStorage index size
      todo.forM fun (index, size) => obtainStorage index size
      afterwards goal
  | recording index id todo goal => do
      let host ← get
      setProgram (host.program.attach index id)
      todo.forM fun (index, size) => obtainStorage index size
      afterwards goal
  | checking transfer => afterwards (some transfer)
  | sending transfer id => transfer.send id
  | moving transfer id start => onDevice (transfer.onMemory id start)

/-- The memory of the host answers for the device. -/
def Answers (host : Host) (host' : Host) : Label → Prop
  | .granted _ size id => runs (allocate size) host = (.ok id, host')
  | .refused _ size failure => runs (allocate size) host = (.error failure, host')
  | .answered transfer id start answer =>
      runs (transfer.onMemory id start) host = (answer, host')
  | .quiet | .declared _ | .rejected _ | .requested _ _ | .called _ _ _ | .returned _ =>
      host' = host

/-- Whatever it answers, the program stays. -/
theorem Answers.program {host host' : Host} {label : Label} (h : Answers host host' label) :
    host'.program = host.program := by
  cases label with
  | granted _ size id =>
      have hruns : runs (allocate size) host = (.ok id, host') := h
      simpa only [hruns] using program_allocate size host
  | refused _ size failure =>
      have hruns : runs (allocate size) host = (.error failure, host') := h
      simpa only [hruns] using program_allocate size host
  | answered transfer id start answer =>
      have hruns : runs (transfer.onMemory id start) host = (answer, host') := h
      simpa only [hruns] using program_onMemory transfer id start host
  | quiet | declared | rejected | requested | called | returned =>
      cases h
      rfl

/-! ### What is left at one point and at the next -/

section Rest

variable {host : Host} {transfer : Transfer} {goal : Option Transfer} {id : TreeId}
  {index size start : Nat} {todo : List (Nat × Nat)}

theorem rest_looking_of_some (hstorage : host.program.storage? transfer.field.tree = some id) :
    runs (Point.looking transfer).rest host = runs (Point.sending transfer id).rest host := by
  simp only [Point.rest, requireStorage, runs_bind, runs_get, hstorage, runs_pure]

theorem rest_looking_of_none (hstorage : host.program.storage? transfer.field.tree = none) :
    runs (Point.looking transfer).rest host
      = runs (Point.waiting (some transfer)).rest host := by
  simp only [Point.rest, requireStorage, afterwards, runs_bind, runs_get, hstorage]
  rcases runs materialize host with ⟨result, host'⟩
  cases result with
  | error failure => rfl
  | ok u =>
      simp only
      cases host'.program.storage? transfer.field.tree with
      | some id => rfl
      | none => rfl

theorem rest_closing :
    runs (Point.closing goal).rest host
      = runs (Point.serving host.program.pending goal).rest
          { host with program := host.program.sealPending } := by
  simp only [Point.rest, materialize, runs_bind, runs_get, runs_setProgram]

theorem rest_serving_cons :
    runs (Point.serving ((index, size) :: todo) goal).rest host
      = runs (Point.asking index size todo goal).rest host := by
  simp only [Point.rest, List.forM, bind_assoc]

theorem rest_asking :
    runs (Point.asking index size todo goal).rest host
      = match runs (allocate size) host with
        | (.ok id, host') => runs (Point.recording index id todo goal).rest host'
        | (.error failure, host') => (.error (failure.map FieldError.device), host') := by
  simp only [Point.rest, obtainStorage, bind_assoc]
  rw [runs_bind, runs_onDevice]
  rcases runs (allocate size) host with ⟨result, host'⟩
  cases result <;> rfl

theorem rest_recording :
    runs (Point.recording index id todo goal).rest host
      = runs (Point.serving todo goal).rest
          { host with program := host.program.attach index id } := by
  simp only [Point.rest]
  rw [runs_bind, runs_get]
  simp only
  rw [runs_bind, runs_setProgram]

theorem rest_serving_nil :
    runs (Point.serving [] goal).rest host = runs (afterwards goal) host := by
  simp only [Point.rest, List.forM, pure_bind]

theorem rest_checking_of_some (hstorage : host.program.storage? transfer.field.tree = some id) :
    runs (Point.checking transfer).rest host = runs (Point.sending transfer id).rest host := by
  simp only [Point.rest, afterwards, runs_bind, runs_get, hstorage]

theorem rest_checking_of_none (hstorage : host.program.storage? transfer.field.tree = none) :
    runs (Point.checking transfer).rest host
      = (.error (.error (.notMaterialized transfer.field.tree)), host) := by
  simp only [Point.rest, afterwards, runs_bind, runs_get, hstorage, runs_throw]

theorem rest_sending_of_ok
    (hstart : (Size.add transfer.field.offset transfer.offset : Outcome FieldError Nat)
      = .ok start) :
    runs (Point.sending transfer id).rest host
      = runs (Point.moving transfer id start).rest host := by
  simp only [Point.rest, Transfer.send, runs_bind, runs_lift, hstart]

theorem rest_sending_of_error {failure : Failure FieldError}
    (hstart : (Size.add transfer.field.offset transfer.offset : Outcome FieldError Nat)
      = .error failure) :
    runs (Point.sending transfer id).rest host = (.error failure, host) := by
  simp only [Point.rest, Transfer.send, runs_bind, runs_lift, hstart]

end Rest

/-! ### One step -/

variable {pool next : Pool} {task : Nat} {label : Label} {host host' : Host}

/-- **A step of a task that is alone makes no difference to how its operation comes out**, and if
it is the last one, that is how it has come out. -/
theorem rest_step (hprogram : host.program = pool.program) (hbusy : pool.point task ≠ .idle)
    (hstep : Step pool task label next) (hanswers : Answers host host' label) :
    runs (pool.point task).rest host = match label.outcome? with
      | some outcome => (outcome, { host' with program := next.program })
      | none => runs (next.point task).rest { host' with program := next.program } := by
  have hsame : { host with program := pool.program } = host := by rw [← hprogram]
  have hkept : host'.program = pool.program := hanswers.program.trans hprogram
  cases hstep with
  | declare hpoint | reject hpoint | beginMaterialize hpoint | beginTransfer hpoint
  | outOfRange hpoint => exact absurd hpoint hbusy
  | found hpoint hstorage =>
      cases hanswers
      simpa [hpoint, Label.outcome?, hsame] using rest_looking_of_some (hprogram ▸ hstorage)
  | missing hpoint hstorage =>
      cases hanswers
      simpa [hpoint, Label.outcome?, hsame] using rest_looking_of_none (hprogram ▸ hstorage)
  | enter hpoint hfree =>
      cases hanswers
      simp [hpoint, Label.outcome?, Pool.withHolder, hsame, Point.rest]
  | close hpoint =>
      cases hanswers
      rw [hpoint, rest_closing, hprogram]
      simp [Label.outcome?, Pool.withProgram]
  | ask hpoint =>
      cases hanswers
      simpa [hpoint, Label.outcome?, hsame] using rest_serving_cons
  | @grant index size todo goal id hpoint =>
      have hruns : runs (allocate size) host = (.ok id, host') := hanswers
      rw [hpoint, rest_asking, hruns]
      simp [Label.outcome?, ← hkept]
  | @refuse index size todo goal failure hpoint =>
      have hruns : runs (allocate size) host = (.error failure, host') := hanswers
      rw [hpoint, rest_asking, hruns]
      simp [Label.outcome?, Pool.withHolder, ← hkept]
  | record hpoint =>
      cases hanswers
      rw [hpoint, rest_recording, hprogram]
      simp [Label.outcome?, Pool.withProgram]
  | finish hpoint =>
      cases hanswers
      rw [hpoint, rest_serving_nil]
      simp [Label.outcome?, Pool.withHolder, hsame, afterwards]
  | proceed hpoint =>
      cases hanswers
      rw [hpoint, rest_serving_nil]
      simp [Label.outcome?, Pool.withHolder, hsame, Point.rest]
  | obtained hpoint hstorage =>
      cases hanswers
      simpa [hpoint, Label.outcome?, hsame] using rest_checking_of_some (hprogram ▸ hstorage)
  | lacking hpoint hstorage =>
      cases hanswers
      simpa [hpoint, Label.outcome?, hsame] using rest_checking_of_none (hprogram ▸ hstorage)
  | call hpoint hstart =>
      cases hanswers
      simpa [hpoint, Label.outcome?, hsame] using rest_sending_of_ok hstart
  | overflow hpoint hstart =>
      cases hanswers
      simpa [hpoint, Label.outcome?, hsame] using rest_sending_of_error hstart
  | @answer start transfer id answer hpoint =>
      have hruns : runs (transfer.onMemory id start) host = (answer, host') := hanswers
      rw [hpoint, Point.rest, runs_onDevice, hruns]
      simp [Label.outcome?, ← hkept]

/-- Within an operation a task does not come back to rest. -/
theorem busy_of_step (hbusy : pool.point task ≠ .idle) (hstep : Step pool task label next)
    (hnone : label.outcome? = none) : next.point task ≠ .idle := by
  cases hstep with
  | declare hpoint | reject hpoint | beginMaterialize hpoint | beginTransfer hpoint
  | outOfRange hpoint => exact absurd hpoint hbusy
  | refuse | finish | lacking | overflow | answer => cases hnone
  | _ => simp

/-! ### A whole operation -/

/-- One task takes steps, the memory of a host answering for the device, until its operation has
ended. -/
inductive Finishes (task : Nat) : Pool → Host → Outcome FieldError Reply → Pool → Host → Prop
  | last {pool next : Pool} {host host' : Host} {label : Label} {outcome : Outcome FieldError Reply}
      (hstep : Step pool task label next) (hanswers : Answers host host' label)
      (hend : label.outcome? = some outcome) :
      Finishes task pool host outcome next { host' with program := next.program }
  | more {pool next last : Pool} {host host' left : Host} {label : Label}
      {outcome : Outcome FieldError Reply} (hstep : Step pool task label next)
      (hanswers : Answers host host' label) (hnone : label.outcome? = none)
      (hrest : Finishes task next { host' with program := next.program } outcome last left) :
      Finishes task pool host outcome last left

/-- An operation of a task that is alone comes out as the rest of it on the host does, and leaves
the host and the program that the rest leaves. -/
theorem runs_of_finishes {last : Pool} {outcome : Outcome FieldError Reply} {left : Host}
    (h : Finishes task pool host outcome last left) (hprogram : host.program = pool.program)
    (hbusy : pool.point task ≠ .idle) :
    runs (pool.point task).rest host = (outcome, left) ∧ left.program = last.program := by
  induction h with
  | last hstep hanswers hend =>
      rw [rest_step hprogram hbusy hstep hanswers, hend]
      exact ⟨rfl, rfl⟩
  | more hstep hanswers hnone _ ih =>
      rw [rest_step hprogram hbusy hstep hanswers, hnone]
      exact ih rfl (busy_of_step hbusy hstep hnone)

/-- The operation ends. -/
def CanFinish (task : Nat) (pool : Pool) (host : Host) : Prop :=
  ∃ outcome last left, Finishes task pool host outcome last left

theorem CanFinish.of_last {outcome : Outcome FieldError Reply} (hstep : Step pool task label next)
    (hanswers : Answers host host' label) (hend : label.outcome? = some outcome) :
    CanFinish task pool host := ⟨_, _, _, .last hstep hanswers hend⟩

theorem CanFinish.of_more (hstep : Step pool task label next)
    (hanswers : Answers host host' label) (hnone : label.outcome? = none)
    (h : CanFinish task next { host' with program := next.program }) :
    CanFinish task pool host := by
  obtain ⟨outcome, last, left, hrest⟩ := h
  exact ⟨outcome, last, left, .more hstep hanswers hnone hrest⟩

section CanFinish

variable {transfer : Transfer} {goal : Option Transfer} {id : TreeId}

theorem canFinish_sending (hpoint : pool.point task = .sending transfer id) :
    CanFinish task pool host := by
  cases hstart : (Size.add transfer.field.offset transfer.offset : Outcome FieldError Nat) with
  | error failure => exact .of_last (.overflow hpoint hstart) rfl rfl
  | ok start =>
      exact .of_more (.call hpoint hstart) rfl rfl
        (.of_last (.answer _ (Pool.move_point_self ..)) rfl rfl)

theorem canFinish_checking (hpoint : pool.point task = .checking transfer) :
    CanFinish task pool host := by
  cases hstorage : pool.program.storage? transfer.field.tree with
  | none => exact .of_last (.lacking hpoint hstorage) rfl rfl
  | some id =>
      exact .of_more (.obtained hpoint hstorage) rfl rfl (canFinish_sending Pool.move_point_self)

theorem canFinish_serving :
    ∀ (todo : List (Nat × Nat)) {pool : Pool} {host : Host},
      pool.point task = .serving todo goal → CanFinish task pool host := by
  intro todo
  induction todo with
  | nil =>
      intro pool host hpoint
      cases goal with
      | none => exact .of_last (.finish hpoint) rfl rfl
      | some transfer =>
          exact .of_more (.proceed hpoint) rfl rfl (canFinish_checking Pool.move_point_self)
  | cons entry todo ih =>
      intro pool host hpoint
      refine .of_more (.ask hpoint) rfl rfl ?_
      cases hruns : runs (allocate entry.2) { host with program := pool.program } with
      | mk result host' => 
        cases result with
        | ok id =>
            refine .of_more (.grant id Pool.move_point_self) hruns rfl ?_
            exact .of_more (.record Pool.move_point_self) rfl rfl (ih Pool.move_point_self)
        | error failure => exact .of_last (.refuse failure Pool.move_point_self) hruns rfl

theorem canFinish_waiting (hpoint : pool.point task = .waiting goal) (hfree : pool.holder = none) :
    CanFinish task pool host :=
  .of_more (.enter hpoint hfree) rfl rfl <|
    .of_more (.close Pool.move_point_self) rfl rfl (canFinish_serving _ Pool.move_point_self)

theorem canFinish_looking (hpoint : pool.point task = .looking transfer)
    (hfree : pool.holder = none) : CanFinish task pool host := by
  cases hstorage : pool.program.storage? transfer.field.tree with
  | none =>
      exact .of_more (.missing hpoint hstorage) rfl rfl
        (canFinish_waiting Pool.move_point_self hfree)
  | some id =>
      exact .of_more (.found hpoint hstorage) rfl rfl (canFinish_sending Pool.move_point_self)

end CanFinish

/-! ### The operations of a host -/

/-- A request is what is left of it after its range has been checked. -/
theorem runs_request (request : Request) (host : Host) :
    runs request.run host = match request.check with
      | .ok transfer => runs (Point.looking transfer).rest host
      | .error failure => (.error failure, host) := by
  cases request with
  | read field offset length =>
      simp only [Request.run, Query.run, Field.read, bind_assoc]
      rw [Request.check, runs_bind, runs_lift]
      cases field.range offset length with
      | error failure => rfl
      | ok range =>
          show runs _ host = runs _ host
          simp only [Point.rest, Transfer.send, Transfer.onMemory, onDevice_map]
  | write field words offset =>
      simp only [Request.run, Update.run, Field.write, bind_assoc]
      rw [Request.check, runs_bind, runs_lift]
      cases field.range offset (some (words.length * wordBytes)) with
      | error failure => rfl
      | ok range =>
          show runs _ host = runs _ host
          simp only [Point.rest, Transfer.send, Transfer.onMemory, onDevice_map]

/-- **A task that is alone reads and writes as a host does.**  If the range is refused, so is it
there.  Otherwise the transfer that the task begins ends, and however it ends, it ends there in
the same way and leaves the same host. -/
theorem transfer_alone {request : Request} (hidle : pool.point task = .idle)
    (hfree : pool.holder = none) (hown : request.field ∈ pool.fields)
    (hprogram : host.program = pool.program) :
    (∃ failure, Step pool task (.returned (.error failure)) pool ∧
        runs request.run host = (.error failure, host)) ∨
      ∃ begun, Step pool task .quiet begun ∧ CanFinish task begun host ∧
        ∀ {outcome last left}, Finishes task begun host outcome last left →
          runs request.run host = (outcome, left) ∧ left.program = last.program := by
  rw [runs_request]
  cases hcheck : request.check with
  | error failure => exact Or.inl ⟨failure, .outOfRange hidle hown hcheck, rfl⟩
  | ok transfer =>
      refine Or.inr ⟨_, .beginTransfer hidle hown hcheck,
        canFinish_looking Pool.move_point_self hfree, ?_⟩
      intro outcome last left h
      have hruns := runs_of_finishes h hprogram (by simp)
      rwa [Pool.move_point_self] at hruns

/-- **A task that is alone materializes as a host does.** -/
theorem materialize_alone (hidle : pool.point task = .idle) (hfree : pool.holder = none)
    (hprogram : host.program = pool.program) :
    ∃ begun, Step pool task .quiet begun ∧ CanFinish task begun host ∧
      ∀ {outcome last left}, Finishes task begun host outcome last left →
        runs (Command.materialize.run pool.fields) host = (outcome, left) ∧
          left.program = last.program := by
  refine ⟨_, .beginMaterialize hidle, canFinish_waiting Pool.move_point_self hfree, ?_⟩
  intro outcome last left h
  have hruns := runs_of_finishes h hprogram (by simp)
  rwa [Pool.move_point_self] at hruns

end Tasks

end FieldStore
