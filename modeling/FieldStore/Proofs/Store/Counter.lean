/-
What leaves the counter of textures alone.

Nothing that is done to fields, trees or memory touches the counter of textures, however it ends.
`KeepsCounter` says so of one computation, of every host at once.  It holds of a computation if it
holds of its steps, so each operation is gone through once, in the order in which it is written, and
nothing has to be known of the trees, the storage or the fields.
-/
import FieldStore.Proofs.Store.Command

namespace FieldStore

variable {α β ε : Type}

namespace Host

/-- Whether a computation leaves the counter of textures as it is, however it ends. -/
def KeepsCounter (action : HostM ε α) : Prop :=
  ∀ host, (runs action host).2.program.nextTexture = host.program.nextTexture

theorem keepsCounter_pure (a : α) : KeepsCounter (pure a : HostM ε α) := fun _ => rfl

theorem keepsCounter_record (event : Event) : KeepsCounter (record event : HostM ε Unit) :=
  fun _ => rfl

theorem keepsCounter_drawId : KeepsCounter (drawId : HostM ε TreeId) := fun _ => rfl

theorem keepsCounter_lift (outcome : Outcome ε α) : KeepsCounter (liftM outcome : HostM ε α) := by
  intro host
  rw [runs_lift]

theorem KeepsCounter.bind {x : HostM ε β} {f : β → HostM ε α} (hx : KeepsCounter x)
    (hf : ∀ b, KeepsCounter (f b)) : KeepsCounter (x >>= f) := by
  intro host
  have hfirst := hx host
  rw [runs_bind]
  rcases hrun : runs x host with ⟨result, mid⟩
  rw [hrun] at hfirst
  cases result with
  | ok b => exact (hf b mid).trans hfirst
  | error failure => exact hfirst

/-- A result that is made into a reply. -/
theorem KeepsCounter.bind_pure {x : HostM ε β} (hx : KeepsCounter x) (reply : β → α) :
    KeepsCounter (x >>= fun b => pure (reply b)) :=
  hx.bind fun b => keepsCounter_pure (reply b)

/-- A computation that looks at the host first. -/
theorem keepsCounter_get_bind {f : Host → HostM ε α}
    (h : ∀ host, (runs (f host) host).2.program.nextTexture = host.program.nextTexture) :
    KeepsCounter (get >>= f) := by
  intro host
  rw [runs_bind, runs_get]
  exact h host

theorem KeepsCounter.onDevice {action : HostM DeviceError α} (h : KeepsCounter action) :
    KeepsCounter (onDevice action) := by
  intro host
  rw [runs_onDevice]
  exact h host

theorem keepsCounter_of_program {action : HostM ε α}
    (h : ∀ host, Ends action host (fun _ left => left.program = host.program)
      fun _ left => left.program = host.program) : KeepsCounter action := by
  intro host
  have hprogram := outcome_of_ends (P := fun _ left => left.program = host.program) (h host)
  rw [hprogram]

theorem keepsCounter_allocate (size : Nat) : KeepsCounter (allocate size) :=
  keepsCounter_of_program fun _ =>
    ends_allocate (fun _ _ _ => rfl) (fun _ _ => rfl) fun _ _ _ => rfl

theorem keepsCounter_readRegion (id : TreeId) (offset length : Nat) :
    KeepsCounter (readRegion id offset length) :=
  keepsCounter_of_program fun _ => ends_readRegion (fun _ _ _ => rfl) fun _ _ => rfl

theorem keepsCounter_writeRegion (id : TreeId) (offset : Nat) (words : List Word) :
    KeepsCounter (writeRegion id offset words) :=
  keepsCounter_of_program fun _ => ends_writeRegion (fun _ _ _ => rfl) fun _ _ => rfl

theorem keepsCounter_declare (ty : ElementType) (dims : List Nat) :
    KeepsCounter (declare ty dims) := by
  intro host
  refine outcome_of_ends (P := fun _ left => left.program.nextTexture = host.program.nextTexture) ?_
  refine ends_declare ?_ fun _ _ => rfl
  intro field program hdeclare
  obtain ⟨_, _, -, -, -, -, -, -, -, -, -, rfl⟩ := declare_eq_ok hdeclare
  rfl

theorem keepsCounter_obtainStorage (index size : Nat) : KeepsCounter (obtainStorage index size) :=
  (keepsCounter_allocate size).onDevice.bind fun _ => keepsCounter_get_bind fun _ => rfl

theorem keepsCounter_obtainAll (entries : List (Nat × Nat)) :
    KeepsCounter (entries.forM fun (index, size) => obtainStorage index size) := by
  induction entries with
  | nil => exact keepsCounter_pure ()
  | cons entry rest ih => exact (keepsCounter_obtainStorage entry.1 entry.2).bind fun _ => ih

theorem keepsCounter_materialize : KeepsCounter materialize := by
  refine keepsCounter_get_bind fun host => ?_
  rw [runs_bind, runs_setProgram]
  exact keepsCounter_obtainAll host.program.pending _

theorem keepsCounter_requireStorage (tree : Nat) : KeepsCounter (requireStorage tree) := by
  refine keepsCounter_get_bind fun host => ?_
  cases host.program.storage? tree with
  | some id => rfl
  | none =>
      refine keepsCounter_materialize.bind (fun _ => keepsCounter_get_bind fun mid => ?_) host
      cases mid.program.storage? tree <;> rfl

end Host

open Host

theorem Field.keepsCounter_read (field : Field) (offset length : Option Nat) :
    KeepsCounter (field.read offset length) :=
  (keepsCounter_lift _).bind fun _ => (keepsCounter_requireStorage _).bind fun _ =>
    (keepsCounter_lift _).bind fun _ => (keepsCounter_readRegion _ _ _).onDevice

theorem Field.keepsCounter_write (field : Field) (words : List Word) (offset : Option Nat) :
    KeepsCounter (field.write words offset) :=
  (keepsCounter_lift _).bind fun _ => (keepsCounter_requireStorage _).bind fun _ =>
    (keepsCounter_lift _).bind fun _ => (keepsCounter_writeRegion _ _ _).onDevice

theorem Query.keepsCounter_run (field : Field) (request : Query) :
    KeepsCounter (request.run field) := by
  cases request with
  | read offset length => exact (field.keepsCounter_read offset length).bind_pure _
  | get indices =>
      refine KeepsCounter.bind_pure ?_ _
      exact (keepsCounter_lift _).bind fun _ =>
        (field.keepsCounter_read _ _).bind fun _ => keepsCounter_lift _
  | toArray =>
      refine KeepsCounter.bind_pure ?_ _
      exact keepsCounter_materialize.bind fun _ => (field.keepsCounter_read none none).bind fun _ =>
        (keepsCounter_lift _).bind fun _ => keepsCounter_lift _
  | toNumbers =>
      refine KeepsCounter.bind_pure ?_ _
      unfold Field.toNumbers
      cases field.type.primitive? with
      | none => exact (keepsCounter_record _).bind_pure _
      | some primitive => exact (field.keepsCounter_read none none).bind_pure _

theorem Update.keepsCounter_run (field : Field) (change : Update) :
    KeepsCounter (change.run field) := by
  rw [run_eq]
  exact (keepsCounter_lift _).bind fun pair => field.keepsCounter_write pair.1 pair.2

/-- **No command on fields or memory touches the counter.** -/
theorem Command.keepsCounter_run (fields : List Field) (command : Command) :
    KeepsCounter (command.run fields) := by
  cases command with
  | declare ty dims => exact (keepsCounter_declare ty dims).bind_pure _
  | materialize => exact keepsCounter_materialize.bind_pure _
  | query number request =>
      cases hfield : fields[number]? with
      | none =>
          simp only [run, hfield]
          exact keepsCounter_pure _
      | some field =>
          simp only [run, hfield]
          exact request.keepsCounter_run field
  | update number change =>
      cases hfield : fields[number]? with
      | none =>
          simp only [run, hfield]
          exact keepsCounter_pure _
      | some field =>
          simp only [run, hfield]
          exact (change.keepsCounter_run field).bind_pure _
  | queryForeign field request => exact request.keepsCounter_run field
  | updateForeign field change => exact (change.keepsCounter_run field).bind_pure _
  | allocate size => exact (keepsCounter_allocate size).onDevice.bind_pure _
  | readRegion id offset length =>
      exact (keepsCounter_readRegion id offset length).onDevice.bind_pure _
  | writeRegion id offset words =>
      exact (keepsCounter_writeRegion id offset words).onDevice.bind_pure _
  | drawId => exact keepsCounter_drawId.bind_pure _

end FieldStore
