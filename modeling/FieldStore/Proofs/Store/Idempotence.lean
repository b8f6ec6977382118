/-
Materializing twice.

A materialization that has succeeded leaves no tree that wants storage, so there is nothing for a
second one to do.  One that was refused has closed every tree that wants storage and served those
before the refused one.  The second begins with just that tree; its size and the limit are what they
were, so it is refused again, for the same reason and before anything has changed.  Only a region
that no object can hold is an exception: each attempt at it uses up an identity.

After a success no access to a field comes to the allocation of a region, up to the next
declaration.  What lies in between, on fields of other programs or on the memory directly, gives no
tree a reason to want storage.
-/
import FieldStore.Proofs.Store.Accounting

namespace FieldStore

variable {fields : List Field} {host left : Host}

/-- A list is cut in one way before the first entry that does not qualify. -/
theorem split_unique {α : Type} {P : α → Prop} :
    ∀ {front front' back back' : List α} {entry entry' : α},
      front ++ entry :: back = front' ++ entry' :: back' →
        (∀ e ∈ front, P e) → (∀ e ∈ front', P e) → ¬ P entry → ¬ P entry' →
          front = front' ∧ entry = entry' := by
  intro front
  induction front with
  | nil =>
      intro front' back back' entry entry' heq _ hfront' hno _
      cases front' with
      | nil => exact ⟨rfl, (List.cons.inj heq).1⟩
      | cons first rest =>
          cases (List.cons.inj heq).1
          exact absurd (hfront' _ List.mem_cons_self) hno
  | cons first rest ih =>
      intro front' back back' entry entry' heq hfront hfront' hno hno'
      cases front' with
      | nil =>
          cases (List.cons.inj heq).1
          exact absurd (hfront _ List.mem_cons_self) hno'
      | cons first' rest' =>
          obtain ⟨rfl, hrest⟩ := List.cons.inj heq
          obtain ⟨rfl, rfl⟩ := ih hrest (List.forall_mem_cons.mp hfront).2
            (List.forall_mem_cons.mp hfront').2 hno hno'
          exact ⟨rfl, rfl⟩

namespace Host

/-! ### The second materialization -/

/-- Without a tree that wants storage there is nothing to do. -/
theorem runs_materialize_of_pending_nil (hnil : host.program.pending = []) :
    runs materialize host = (.ok (), host) := by
  have hclosed : { host with program := host.program.sealPending } = host :=
    closed_of_pending_nil hnil
  unfold materialize
  rw [runs_bind, runs_get]
  show runs (setProgram host.program.sealPending >>= fun _ => _) host = _
  rw [runs_bind, runs_setProgram, hclosed, hnil]
  rfl

/-- There is one way to refuse a region. -/
theorem Refuses.unique {size : Nat} {failure failure' : Failure FieldError} {left' : Host}
    (h : host.Refuses size failure left) (h' : host.Refuses size failure' left') :
    failure = failure' ∧ left = left' := by
  cases h with
  | limit hlimit hlt =>
      cases h' with
      | limit hlimit' _ =>
          cases hlimit.symm.trans hlimit'
          exact ⟨rfl, rfl⟩
      | room hfits _ => exact absurd (hfits _ hlimit) (Nat.not_le.mpr hlt)
  | room hfits _ =>
      cases h' with
      | limit hlimit hlt => exact absurd (hfits _ hlimit) (Nat.not_le.mpr hlt)
      | room => exact ⟨rfl, rfl⟩

/-- There is one way for a materialization to fail. -/
theorem Falters.unique {failure failure' : Failure FieldError} {left' : Host}
    (h : host.Falters failure left) (h' : host.Falters failure' left') : failure = failure' := by
  obtain ⟨given, index, size, rest, hpending, hgranted, hrefuses⟩ := h
  obtain ⟨given', index', size', rest', hpending', hgranted', hrefuses'⟩ := h'
  have hno : ¬ host.memory.Grants size := by
    have hrefused := hrefuses.not_grants
    rwa [HostMemory.Grants, limit_supply] at hrefused
  have hno' : ¬ host.memory.Grants size' := by
    have hrefused := hrefuses'.not_grants
    rwa [HostMemory.Grants, limit_supply] at hrefused
  obtain ⟨rfl, hentry⟩ := split_unique (P := fun entry => host.memory.Grants entry.2)
    (hpending.symm.trans hpending') hgranted hgranted' hno hno'
  cases hentry
  exact (hrefuses.unique hrefuses').1

/-- A materialization that begins with a tree that is refused ends with it. -/
theorem runs_materialize_of_refuses {index size : Nat} {rest : List (Nat × Nat)}
    {failure : Failure FieldError} (h : Placed fields host) (hsealed : PendingSealed host)
    (hpending : host.program.pending = (index, size) :: rest)
    (hrefuses : host.Refuses size failure left) :
    runs materialize host = (.error failure, left) := by
  rcases runs_of_ends (ends_materialize_supply h) with
    ⟨_, _, -, hgrants, -⟩ | ⟨_, _, hrun, given, _, _, _, hsplit, hgrants, hrefuses'⟩
  · exact absurd (hgrants (index, size) (by simp [hpending])) hrefuses.not_grants
  · rw [hpending] at hsplit
    cases given with
    | nil =>
        cases hsplit
        have hsame : host.closed.supply [] = host := hsealed.closed_eq
        rw [hsame] at hrefuses'
        obtain ⟨rfl, rfl⟩ := hrefuses.unique hrefuses'
        exact hrun
    | cons entry given =>
        cases hsplit
        exact absurd (hgrants (index, size) (by simp)) hrefuses.not_grants

/-- **A second materialization ends like the first one**, and where it leaves the host, unless there
was no room for a region. -/
theorem materialize_again (h : Placed fields host) :
    let once := runs materialize host
    (runs materialize once.2).1 = once.1 ∧
      (once.1 ≠ .error (.fault .capacity) → (runs materialize once.2).2 = once.2) := by
  intro once
  rcases runs_of_ends (ends_materialize_supply h) with
    ⟨_, host', hrun, -, rfl⟩ |
      ⟨failure, left, hrun, given, index, size, rest, hpending, -, hrefuses⟩
  · obtain ⟨-, hnil⟩ := kept_closed_supply h (List.append_nil _).symm
    have hagain := runs_materialize_of_pending_nil hnil
    simp only [once, hrun, hagain, implies_true, and_self]
  · obtain ⟨hkept, hrest⟩ := kept_closed_supply h hpending
    have hsealed := pendingSealed_closed_supply h hpending
    have hplaced := (kept_of_refuses hkept.placed hrefuses).placed
    cases hrefuses with
    | limit hlimit hlt =>
        have hagain := runs_materialize_of_refuses hkept.placed hsealed hrest (.limit hlimit hlt)
        simp only [once, hrun, hagain, implies_true, and_self]
    | room hfits hlt =>
        have hagain := runs_materialize_of_refuses hplaced hsealed hrest (.room hfits hlt)
        simp only [once, hrun, hagain, ne_eq, not_true, false_implies, and_self]

end Host

/-! ### No storage wanted -/

/-- Nothing but a new field changes a program whose trees all have storage. -/
theorem Command.Leaves.program {command : Command} {outcome : Outcome FieldError Reply}
    (h : Leaves fields host command outcome left) (hnil : host.program.pending = [])
    (hnone : Ledger.declared outcome = []) : left.program = host.program := by
  cases h with
  | declared => cases hnone
  | performed hperforms => exact (hperforms.transfers hnil).program
  | direct hmoved => exact hmoved.program

namespace Ledger

/-- Nothing is allocated by a command: no identity is drawn, no region is added, and every tree has
the storage that it had. -/
structure AllocatesNothing (ledger : Ledger) (command : Command) : Prop where
  nextId : (ledger.step command).host.nextId = ledger.host.nextId
  ids : (ledger.step command).host.memory.regions.map Prod.fst
    = ledger.host.memory.regions.map Prod.fst
  program : (ledger.step command).host.program = ledger.host.program

variable {ledger : Ledger}

theorem allocatesNothing_of_pending_nil {command : Command}
    (h : Placed ledger.fields ledger.host) (hnil : ledger.host.program.pending = [])
    (haccess : command.IsAccess) (hgenuine : command.Genuine) :
    ledger.AllocatesNothing command := by
  have hends : Host.Ends (command.run ledger.fields) ledger.host
      (fun _ left => ∃ entries, ledger.host.Transfers entries left)
      (fun _ left => ∃ entries, ledger.host.Transfers entries left) :=
    Host.ends_mono (command.ends_performs h haccess hgenuine)
      (fun _ _ hperforms => ⟨_, hperforms.transfers hnil⟩)
      fun _ _ hperforms => ⟨_, hperforms.transfers hnil⟩
  obtain ⟨entries, htransfers⟩ := Host.outcome_of_ends
    (P := fun _ left => ∃ entries, ledger.host.Transfers entries left) hends
  exact ⟨htransfers.nextId, htransfers.ids, htransfers.program⟩

theorem length_fields_le_after (commands : List Command) :
    ∀ ledger : Ledger, ledger.fields.length ≤ (ledger.after commands).fields.length := by
  induction commands with
  | nil => exact fun _ => Nat.le_refl _
  | cons command rest ih =>
      intro ledger
      refine Nat.le_trans ?_ (ih (ledger.step command))
      rw [step, List.length_append]
      exact Nat.le_add_right _ _

/-- The induction is on the run, each command of which has added no field. -/
theorem pending_after_nil :
    ∀ (commands : List Command) {ledger : Ledger}, Placed ledger.fields ledger.host →
      ledger.host.program.pending = [] → (∀ command ∈ commands, command.Genuine) →
        (ledger.after commands).fields = ledger.fields →
          (ledger.after commands).host.program.pending = [] := by
  intro commands
  induction commands with
  | nil => intro ledger _ hnil _ _; exact hnil
  | cons command rest ih =>
      intro ledger h hnil hgenuine hfields
      obtain ⟨hfirst, hrest⟩ := List.forall_mem_cons.mp hgenuine
      have hnone : declared (ledger.outcome command) = [] := by
        have hlength := length_fields_le_after rest (ledger.step command)
        have hsame : ((ledger.step command).after rest).fields = ledger.fields := hfields
        rw [hsame, step, List.length_append] at hlength
        exact List.eq_nil_of_length_eq_zero (by omega)
      have hstep : (ledger.step command).fields = ledger.fields := by
        rw [step, hnone, List.append_nil]
      have hprogram : (ledger.step command).host.program = ledger.host.program :=
        (leaves_step h hfirst).program hnil hnone
      exact ih (stays_step command h).placed (by rw [hprogram, hnil]) hrest
        (hfields.trans hstep.symm)

/-- To materialize is to leave the host that a materialization leaves, and to declare nothing. -/
theorem materialize_eq (ledger : Ledger) :
    ledger.outcome .materialize = (Host.runs Host.materialize ledger.host).1.map (fun _ => .done) ∧
      ledger.step .materialize = ⟨(Host.runs Host.materialize ledger.host).2, ledger.fields⟩ := by
  have hrun : Host.runs (Command.materialize.run ledger.fields) ledger.host
      = ((Host.runs Host.materialize ledger.host).1.map (fun _ => .done),
        (Host.runs Host.materialize ledger.host).2) := by
    unfold Command.run
    rw [Host.runs_bind]
    rcases Host.runs Host.materialize ledger.host with ⟨result, left⟩
    cases result <;> rfl
  rw [step, outcome, hrun]
  refine ⟨rfl, congrArg (Ledger.mk _) ?_⟩
  cases (Host.runs Host.materialize ledger.host).1 with
  | ok => exact List.append_nil _
  | error => exact List.append_nil _

/-- **Materialization is idempotent**, be it granted or refused.  In every state that a run reaches
a second materialization ends as the first one did; and unless there was no room for a region it
leaves everything as the first one left it.  After a success every tree has storage, and until
another field is declared no command that materializes or uses a field of this program allocates
anything. -/
theorem materialize_idempotent (limit : Option Nat) (nextId : Nat) (history : List Command) :
    let now := (start limit nextId).after history
    let once := now.step .materialize
    once.outcome .materialize = now.outcome .materialize ∧
    (now.outcome .materialize ≠ .error (.fault .capacity) → once.step .materialize = once) ∧
    ∀ reply, now.outcome .materialize = .ok reply →
      (∀ index, index < once.host.program.trees.length →
        (once.host.program.storage? index).isSome = true) ∧
      ∀ more : List Command,
        (∀ command ∈ more, command.Genuine) → (once.after more).fields = once.fields →
          let later := once.after more
          later.AllocatesNothing .materialize ∧
          (∀ number request, later.AllocatesNothing (.query number request)) ∧
          ∀ number change, later.AllocatesNothing (.update number change) := by
  intro now once
  have hplaced : Placed now.fields now.host :=
    (stays_after history (placed_start limit nextId)).placed
  obtain ⟨hsame, hstays⟩ := Host.materialize_again hplaced
  obtain ⟨houtcome, hstep⟩ := now.materialize_eq
  obtain ⟨houtcome', hstep'⟩ := once.materialize_eq
  have honce : once = ⟨(Host.runs Host.materialize now.host).2, now.fields⟩ := hstep
  refine ⟨?_, ?_, ?_⟩
  · rw [houtcome', houtcome, honce, hsame]
  · intro hroom
    have hroom' : (Host.runs Host.materialize now.host).1 ≠ .error (.fault .capacity) := by
      intro hfull
      rw [houtcome, hfull] at hroom
      exact hroom rfl
    rw [hstep', honce, hstays hroom']
  · intro reply hok
    have hplaced' : Placed once.fields once.host := (stays_step .materialize hplaced).placed
    have hnil : once.host.program.pending = [] := by
      rcases Host.runs_of_ends (Host.ends_materialize_supply hplaced) with
        ⟨_, left, hrun, -, rfl⟩ | ⟨failure, left, hrun, -⟩
      · rw [honce, hrun]
        exact (Host.kept_closed_supply hplaced (List.append_nil _).symm).2
      · rw [houtcome, hrun] at hok
        cases hok
    refine ⟨fun index hlt => Host.isSome_storage?_of_pending_nil hplaced' hnil hlt, ?_⟩
    intro more hgenuine hfields later
    have hlater : Placed later.fields later.host := (stays_after more hplaced').placed
    have hnil' : later.host.program.pending = [] :=
      pending_after_nil more hplaced' hnil hgenuine hfields
    exact ⟨allocatesNothing_of_pending_nil hlater hnil' trivial trivial,
      fun _ _ => allocatesNothing_of_pending_nil hlater hnil' trivial trivial,
      fun _ _ => allocatesNothing_of_pending_nil hlater hnil' trivial trivial⟩

/-- A tree that is served, and then one that is refused twice. -/
theorem materialize_idempotent_refused :
    let first := (start (some 8) 0).after [.declare (.scalar .i32) [2]]
    let now := (start (some 8) 0).after
      [.declare (.scalar .i32) [2], .materialize, .declare (.scalar .i32) [3]]
    let once := now.step .materialize
    ((first.step .materialize).after [.query 0 (.get [1])]).AllocatesNothing
        (.update 0 (.set [0] (.number ⟨0⟩))) ∧
      once.outcome .materialize = .error (.error (.device (.memoryExhaustion 12 8))) ∧
      once.step .materialize = once := by
  intro first now once
  have hrefused : now.outcome .materialize
      = .error (.error (.device (.memoryExhaustion 12 8))) := by rfl
  obtain ⟨-, -, hserved⟩ := materialize_idempotent (some 8) 0 [.declare (.scalar .i32) [2]]
  obtain ⟨hsame, hroom, -⟩ := materialize_idempotent (some 8) 0
    [.declare (.scalar .i32) [2], .materialize, .declare (.scalar .i32) [3]]
  obtain ⟨-, hmore⟩ := hserved .done rfl
  obtain ⟨-, -, hupdate⟩ := hmore [.query 0 (.get [1])] (by simp [Command.Genuine]) rfl
  refine ⟨hupdate 0 (.set [0] (.number ⟨0⟩)), hsame.trans hrefused, hroom ?_⟩
  intro hfull
  rw [hrefused] at hfull
  cases hfull

end Ledger

end FieldStore
