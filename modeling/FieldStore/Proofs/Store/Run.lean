/-
How computations on a host end.

`Ends action host Q E` says how one computation begun on one host comes out: with a result and a
host of which `Q` holds, or with a failure and a host of which `E` holds.  The state survives a
failure, so a statement about one that leaves the failing case out says nothing about the next
operation.  The rules below take a computation apart step by step; every operation of the store
gets one lemma in this form, and nothing after that looks at how it is written.
-/
import FieldStore.Proofs.Device.Memory
import FieldStore.Store.Access

namespace FieldStore.Host

variable {α β ε ε' : Type}

/-- The end of a computation and the host that it leaves. -/
def runs (action : HostM ε α) (host : Host) : Outcome ε α × Host := (ExceptT.run action).run host

/-! ### One computation after another -/

/-- The second computation begins where the first one has ended well. -/
theorem runs_bind (x : HostM ε β) (f : β → HostM ε α) (host : Host) :
    runs (x >>= f) host = match runs x host with
      | (.ok b, host') => runs (f b) host'
      | (.error failure, host') => (.error failure, host') := by
  simp only [runs, ExceptT.run_bind, StateT.run_bind]
  rcases (ExceptT.run x).run host with ⟨result, host'⟩
  cases result <;> rfl

@[simp] theorem runs_pure (a : α) (host : Host) : runs (pure a : HostM ε α) host = (.ok a, host) :=
  rfl

@[simp] theorem runs_get (host : Host) : runs (get : HostM ε Host) host = (.ok host, host) := rfl

@[simp] theorem runs_setProgram (program : Program) (host : Host) :
    runs (setProgram program : HostM ε Unit) host = (.ok (), { host with program := program }) :=
  rfl

@[simp] theorem runs_throw (failure : Failure ε) (host : Host) :
    runs (throw failure : HostM ε α) host = (.error failure, host) := rfl

@[simp] theorem runs_lift (outcome : Outcome ε α) (host : Host) :
    runs (liftM outcome) host = (outcome, host) := by
  cases outcome <;> rfl

theorem runs_onDevice (action : HostM DeviceError α) (host : Host) :
    runs (onDevice action) host =
      ((runs action host).1.mapError (Failure.map FieldError.device), (runs action host).2) := rfl

/-- A computation is known by how it runs. -/
theorem eq_of_runs {x y : HostM ε α} (h : ∀ host, runs x host = runs y host) : x = y := funext h

theorem onDevice_map (action : HostM DeviceError α) (f : α → β) :
    onDevice (action >>= fun a => pure (f a)) = onDevice action >>= fun a => pure (f a) := by
  refine eq_of_runs fun host => ?_
  rw [runs_onDevice, runs_bind, runs_bind, runs_onDevice]
  rcases runs action host with ⟨result, host'⟩
  cases result <;> rfl

/-! ### What holds at the end -/

/-- What holds when the computation has ended, in the case of a result and of a failure. -/
def Ends (action : HostM ε α) (host : Host) (Q : α → Host → Prop)
    (E : Failure ε → Host → Prop) : Prop :=
  match runs action host with
  | (.ok a, host') => Q a host'
  | (.error failure, host') => E failure host'

section Rules

variable {host : Host} {Q Q' : α → Host → Prop} {E E' : Failure ε → Host → Prop}

theorem ends_mono {action : HostM ε α} (h : Ends action host Q E)
    (hQ : ∀ a host', Q a host' → Q' a host')
    (hE : ∀ failure host', E failure host' → E' failure host') :
    Ends action host Q' E' := by
  unfold Ends at h ⊢
  rcases hrun : runs action host with ⟨result, host'⟩
  rw [hrun] at h
  cases result with
  | ok a => exact hQ a host' h
  | error failure => exact hE failure host' h

theorem runs_of_ends {action : HostM ε α} (h : Ends action host Q E) :
    (∃ a host', runs action host = (.ok a, host') ∧ Q a host') ∨
      ∃ failure host', runs action host = (.error failure, host') ∧ E failure host' := by
  unfold Ends at h
  rcases hrun : runs action host with ⟨result, host'⟩
  rw [hrun] at h
  cases result with
  | ok a => exact Or.inl ⟨a, host', rfl, h⟩
  | error failure => exact Or.inr ⟨failure, host', rfl, h⟩

/-- Two statements about one computation. -/
theorem ends_and {action : HostM ε α} (h : Ends action host Q E) (h' : Ends action host Q' E') :
    Ends action host (fun a host' => Q a host' ∧ Q' a host')
      (fun failure host' => E failure host' ∧ E' failure host') := by
  unfold Ends at h h' ⊢
  rcases hrun : runs action host with ⟨result, host'⟩
  rw [hrun] at h h'
  cases result with
  | ok a => exact ⟨h, h'⟩
  | error failure => exact ⟨h, h'⟩

/-- A computation succeeds exactly if a condition holds, when success and failure both tell. -/
theorem succeeds_iff {action : HostM ε α} {P : Prop}
    (h : Ends action host (fun _ _ => P) (fun _ _ => ¬ P)) :
    (∃ a, (runs action host).1 = .ok a) ↔ P := by
  rcases runs_of_ends h with ⟨a, host', hrun, hP⟩ | ⟨failure, host', hrun, hP⟩
  · exact iff_of_true ⟨a, by rw [hrun]⟩ hP
  · refine iff_of_false ?_ hP
    intro hok
    obtain ⟨a, hok⟩ := hok
    rw [hrun] at hok
    cases hok

/-- What is known of every result is known of the one there is. -/
theorem of_outcome {action : HostM ε α} {a : α} (h : Ends action host Q E)
    (hok : (runs action host).1 = .ok a) : ∃ host', Q a host' := by
  rcases runs_of_ends h with ⟨found, host', hrun, hQ⟩ | ⟨failure, host', hrun, -⟩
  · rw [hrun] at hok
    cases hok
    exact ⟨host', hQ⟩
  · rw [hrun] at hok
    cases hok

/-- The same when the result does not matter. -/
theorem of_succeeds {action : HostM ε α} {P : Prop} (h : Ends action host (fun _ _ => P) E)
    (hok : ∃ a, (runs action host).1 = .ok a) : P := by
  obtain ⟨a, hok⟩ := hok
  obtain ⟨-, hP⟩ := of_outcome h hok
  exact hP

/-- What a computation is made to answer does not depend on its own result. -/
theorem of_then_pure {action : HostM ε β} {answer found : α}
    (hok : (runs (action >>= fun _ => pure answer) host).1 = .ok found) : found = answer := by
  rw [runs_bind] at hok
  rcases hrun : runs action host with ⟨result, host'⟩
  rw [hrun] at hok
  cases result with
  | ok _ =>
      cases hok
      rfl
  | error _ => cases hok

/-- To end in one way only is to have that result and that host. -/
theorem runs_eq_ok_iff {action : HostM ε α} {a : α} {host' : Host} :
    runs action host = (.ok a, host')
      ↔ Ends action host (fun found left => found = a ∧ left = host') fun _ _ => False := by
  constructor
  · intro h
    unfold Ends
    rw [h]
    exact ⟨rfl, rfl⟩
  · intro h
    rcases runs_of_ends h with ⟨found, left, hrun, rfl, rfl⟩ | ⟨_, _, _, hfalse⟩
    · exact hrun
    · exact hfalse.elim

/-- What is known of a computation in either case is known of its outcome. -/
theorem outcome_of_ends {action : HostM ε α} {P : Outcome ε α → Host → Prop}
    (h : Ends action host (fun a => P (.ok a)) fun failure => P (.error failure)) :
    P (runs action host).1 (runs action host).2 := by
  unfold Ends at h
  rcases hrun : runs action host with ⟨result, host'⟩
  rw [hrun] at h
  cases result with
  | ok a => exact h
  | error failure => exact h

/-- The outcome of a computation that ends in no other way. -/
theorem outcome_eq_of_ends {action : HostM ε α} {outcome : Outcome ε α}
    (h : Ends action host (fun a _ => outcome = .ok a) fun failure _ => outcome = .error failure) :
    (runs action host).1 = outcome :=
  (outcome_of_ends (P := fun found _ => outcome = found) h).symm

@[simp] theorem ends_pure {a : α} : Ends (pure a) host Q E ↔ Q a host := Iff.rfl

theorem ends_bind {x : HostM ε β} {f : β → HostM ε α} :
    Ends (x >>= f) host Q E ↔ Ends x host (fun b host' => Ends (f b) host' Q E) E := by
  unfold Ends
  rw [runs_bind]
  rcases runs x host with ⟨result, host'⟩
  cases result <;> rfl

/-- An outcome that does not depend on the host leaves it as it is. -/
theorem ends_lift {outcome : Outcome ε α} (hQ : ∀ a, outcome = .ok a → Q a host)
    (hE : ∀ failure, outcome = .error failure → E failure host) :
    Ends (liftM outcome) host Q E := by
  cases outcome with
  | ok a => exact hQ a rfl
  | error failure => exact hE failure rfl

/-- An outcome that is a result. -/
@[simp] theorem ends_ok {a : α} : Ends (liftM (.ok a : Outcome ε α)) host Q E ↔ Q a host := Iff.rfl

@[simp] theorem ends_get {Q : Host → Host → Prop} {E : Failure ε → Host → Prop} :
    Ends (get : HostM ε Host) host Q E ↔ Q host host := Iff.rfl

@[simp] theorem ends_setProgram {program : Program} {Q : Unit → Host → Prop}
    {E : Failure ε → Host → Prop} :
    Ends (setProgram program : HostM ε Unit) host Q E ↔ Q () { host with program := program } :=
  Iff.rfl

@[simp] theorem ends_drawId {Q : TreeId → Host → Prop} {E : Failure ε → Host → Prop} :
    Ends (drawId : HostM ε TreeId) host Q E
      ↔ Q ⟨host.nextId⟩ { host with nextId := host.nextId + 1 } :=
  Iff.rfl

theorem ends_declare {ty : ElementType} {dims : List Nat} {Q : Field → Host → Prop}
    {E : Failure FieldError → Host → Prop}
    (hok : ∀ field program, host.program.declare ty dims = .ok (field, program) →
      Q field { host with program := program })
    (herror : ∀ failure, host.program.declare ty dims = .error failure → E failure host) :
    Ends (declare ty dims) host Q E := by
  unfold declare
  rw [ends_bind, ends_get, ends_bind]
  refine ends_lift ?_ herror
  intro pair hdeclare
  obtain ⟨field, program⟩ := pair
  exact hok field program hdeclare

/-- Device errors are passed on as errors of the library. -/
theorem ends_onDevice {action : HostM DeviceError α} {E : Failure FieldError → Host → Prop} :
    Ends (onDevice action) host Q E
      ↔ Ends action host Q fun failure => E (failure.map FieldError.device) := by
  unfold Ends
  rw [runs_onDevice]
  rcases runs action host with ⟨result, host'⟩
  cases result <;> rfl

end Rules

/-! ### The device

An allocation that is refused changes nothing.  One that is granted but does not fit in one
object has used up an identity by then. -/

section Device

variable {host : Host} {E : Failure DeviceError → Host → Prop}

theorem ends_allocate {size : Nat} {Q : TreeId → Host → Prop}
    (hok : ∀ padded, host.memory.grantedSize size = .ok padded → padded ≤ Size.objectLimit →
      Q ⟨host.nextId⟩ { host with
        memory := host.memory.withZeros ⟨host.nextId⟩ padded
        nextId := host.nextId + 1 })
    (hrefused : ∀ failure, host.memory.grantedSize size = .error failure → E failure host)
    (hfull : ∀ padded, host.memory.grantedSize size = .ok padded → Size.objectLimit < padded →
      E (.fault .capacity) { host with nextId := host.nextId + 1 }) :
    Ends (allocate size) host Q E := by
  unfold allocate
  rw [ends_bind, ends_get, ends_bind]
  refine ends_lift ?_ hrefused
  intro padded hgranted
  rw [ends_bind, ends_drawId, ends_bind]
  refine ends_lift ?_ ?_
  · intro memory hplace
    obtain ⟨hle, rfl⟩ := HostMemory.place_eq_ok_iff.mp hplace
    exact hok padded hgranted hle
  · intro failure hplace
    rcases Nat.lt_or_ge Size.objectLimit padded with hlt | hle
    · have hfault : failure = .fault .capacity := by
        have hno : ¬ 1 * padded ≤ Size.objectLimit := by omega
        rw [HostMemory.place, Size.reserve, if_neg hno] at hplace
        cases hplace
        rfl
      rw [hfault]
      exact hfull padded hgranted hlt
    · rw [HostMemory.place_eq_ok_iff.mpr ⟨hle, rfl⟩] at hplace
      cases hplace

/-- A size that is granted becomes a region if it can be one object. -/
theorem ends_allocate_of_granted {size padded : Nat} {Q : TreeId → Host → Prop}
    (hgranted : host.memory.grantedSize size = .ok padded)
    (hok : padded ≤ Size.objectLimit → Q ⟨host.nextId⟩ { host with
      memory := host.memory.withZeros ⟨host.nextId⟩ padded
      nextId := host.nextId + 1 })
    (hfull : Size.objectLimit < padded →
      E (.fault .capacity) { host with nextId := host.nextId + 1 }) :
    Ends (allocate size) host Q E := by
  refine ends_allocate ?_ ?_ ?_
  · intro found hfound hle
    cases hgranted.symm.trans hfound
    exact hok hle
  · intro failure hrefused
    cases hgranted.symm.trans hrefused
  · intro found hfound hlt
    cases hgranted.symm.trans hfound
    exact hfull hlt

theorem ends_readRegion {id : TreeId} {offset length : Nat} {Q : Lanes → Host → Prop}
    (hok : ∀ bytes, host.memory.region? id = some bytes →
      checkRange offset length bytes.length = .ok () →
        Q (Lanes.ofBytes (window offset length bytes))
          { host with memory := host.memory.afterRead id offset length })
    (herror : ∀ failure, host.memory.read id offset length = .error failure → E failure host) :
    Ends (readRegion id offset length) host Q E := by
  unfold readRegion
  rw [ends_bind, ends_get, ends_bind]
  refine ends_lift ?_ herror
  intro pair hread
  obtain ⟨lanes, memory⟩ := pair
  obtain ⟨bytes, hbytes, hrange, rfl, rfl⟩ := HostMemory.read_eq_ok_iff.mp hread
  exact hok bytes hbytes hrange

/-- A range that passes is read. -/
theorem ends_readRegion_of_range {id : TreeId} {offset length : Nat} {bytes : List Byte}
    {Q : Lanes → Host → Prop} (hbytes : host.memory.region? id = some bytes)
    (hrange : checkRange offset length bytes.length = .ok ())
    (hok : Q (Lanes.ofBytes (window offset length bytes))
      { host with memory := host.memory.afterRead id offset length }) :
    Ends (readRegion id offset length) host Q E := by
  refine ends_readRegion ?_ ?_
  · intro found hfound _
    cases hbytes.symm.trans hfound
    exact hok
  · intro failure hfailed
    rw [HostMemory.read_eq_ok_iff.mpr ⟨bytes, hbytes, hrange, rfl, rfl⟩] at hfailed
    cases hfailed

theorem ends_writeRegion {id : TreeId} {offset : Nat} {words : List Word} {Q : Unit → Host → Prop}
    (hok : ∀ bytes, host.memory.region? id = some bytes →
      checkRange offset (words.length * wordBytes) bytes.length = .ok () →
        Q () { host with memory := host.memory.afterWrite id offset words bytes })
    (herror : ∀ failure, host.memory.write id offset words = .error failure → E failure host) :
    Ends (writeRegion id offset words) host Q E := by
  unfold writeRegion
  rw [ends_bind, ends_get, ends_bind]
  refine ends_lift ?_ herror
  intro memory hwrite
  obtain ⟨bytes, hbytes, hrange, rfl⟩ := HostMemory.write_eq_ok_iff.mp hwrite
  exact hok bytes hbytes hrange

/-- A range that passes is written. -/
theorem ends_writeRegion_of_range {id : TreeId} {offset : Nat} {words : List Word}
    {bytes : List Byte} {Q : Unit → Host → Prop} (hbytes : host.memory.region? id = some bytes)
    (hrange : checkRange offset (words.length * wordBytes) bytes.length = .ok ())
    (hok : Q () { host with memory := host.memory.afterWrite id offset words bytes }) :
    Ends (writeRegion id offset words) host Q E := by
  refine ends_writeRegion ?_ ?_
  · intro found hfound _
    cases hbytes.symm.trans hfound
    exact hok
  · intro failure hfailed
    rw [HostMemory.write_eq_ok_iff.mpr ⟨bytes, hbytes, hrange, rfl⟩] at hfailed
    cases hfailed

end Device

end FieldStore.Host
