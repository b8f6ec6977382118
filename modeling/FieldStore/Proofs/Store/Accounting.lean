/-
What a run transfers, and what the traffic of the memory tells about it.

The transfers of a run can be told from its commands and how they ended.  A successful request on a
field is one transfer of its range, in the tree of the field; anything else that is not a transfer
by itself is none, and so is what fails.  The traffic of the memory is then the account of these
transfers and of nothing else: how many there were, of how many bytes, and which came last.

A `toArray` that has no room for its array comes to nothing after its read, and the read is on the
account.  That it got so far shows in the trees, all of which have their storage by then.
-/
import FieldStore.Proofs.Store.Failures
import FieldStore.Proofs.Store.Movement

namespace FieldStore

/-! ### What traffic tells -/

namespace Traffic

/-- The range of a read. -/
def Entry.read? : Entry → Option TransferRange
  | .read range => some range
  | .write _ => .none

/-- The range of a write. -/
def Entry.write? : Entry → Option TransferRange
  | .read _ => .none
  | .write range => some range

/-- What some transfers come to: how many there were in each direction, of how many bytes, and
which was the last. -/
def account (entries : List Entry) : Traffic :=
  let reads := entries.filterMap Entry.read?
  let writes := entries.filterMap Entry.write?
  ⟨reads.length, writes.length, (reads.map TransferRange.length).sum % Size.bound,
    (writes.map TransferRange.length).sum % Size.bound, reads.getLast?, writes.getLast?⟩

theorem account_append (entries : List Entry) (entry : Entry) :
    account (entries ++ [entry]) = (account entries).note entry := by
  cases entry with
  | read range => simp [account, note, read, List.filterMap_cons, Entry.read?, Entry.write?]
  | write range => simp [account, note, write, List.filterMap_cons, Entry.read?, Entry.write?]

/-- **Traffic keeps the account** of what is transferred. -/
theorem foldl_note_account (entries : List Entry) :
    ∀ before : List Entry, entries.foldl note (account before) = account (before ++ entries) := by
  induction entries with
  | nil => intro before; rw [List.append_nil, List.foldl_nil]
  | cons entry rest ih =>
      intro before
      rw [List.foldl_cons, ← account_append, ih, List.append_assoc, List.singleton_append]

end Traffic

/-! ### The transfers of a run -/

/-- The transfer of a range of a field in the storage that its tree has. -/
def Field.entries (field : Field) (kind : TransferRange → Traffic.Entry) (range : Nat × Nat)
    (host : Host) : List Traffic.Entry :=
  match host.program.storage? field.tree with
  | some id => [kind ⟨id, field.offset + range.1, range.2⟩]
  | none => []

/-- What a query has transferred, by how it has ended and the host that it has left. -/
def Query.moved (field : Field) : Query → Outcome FieldError Reply → Host → List Traffic.Entry
  | request, .ok _, left =>
      match request.extent? field with
      | some range => field.entries .read range left
      | none => []
  | toArray, .error (.fault .capacity), left =>
      if left.program.pending = [] then field.entries .read (0, field.size) left else []
  | _, .error _, _ => []

/-- What an update has transferred. -/
def Update.moved (field : Field) (change : Update) :
    Outcome FieldError Reply → Host → List Traffic.Entry
  | .ok _, left => field.entries .write (change.extent field) left
  | .error _, _ => []

/-- What a command has transferred. -/
def Command.moved (fields : List Field) (outcome : Outcome FieldError Reply) (left : Host) :
    Command → List Traffic.Entry
  | query number request =>
      match fields[number]? with
      | some field => request.moved field outcome left
      | none => []
  | update number change =>
      match fields[number]? with
      | some field => change.moved field outcome left
      | none => []
  | queryForeign field request => request.moved field outcome left
  | updateForeign field change => change.moved field outcome left
  | readRegion id offset length =>
      match outcome with
      | .ok _ => [.read ⟨id, offset, length⟩]
      | .error _ => []
  | writeRegion id offset words =>
      match outcome with
      | .ok _ => [.write ⟨id, offset, words.length * wordBytes⟩]
      | .error _ => []
  | declare _ _ | materialize | allocate _ | drawId => []

/-- Whether the reply to a command is to be an array of all elements of a field. -/
def Command.AsksArray : Command → Prop
  | query _ .toArray | queryForeign _ .toArray => True
  | _ => False

namespace Ledger

/-- What a command transfers. -/
def moved (ledger : Ledger) (command : Command) : List Traffic.Entry :=
  command.moved ledger.fields (ledger.outcome command) (ledger.step command).host

/-- What a run transfers. -/
def transfers : Ledger → List Command → List Traffic.Entry
  | _, [] => []
  | ledger, command :: rest => ledger.moved command ++ (ledger.step command).transfers rest

end Ledger

/-! ### One request -/

variable {fields : List Field} {host left : Host} {field : Field}

theorem Field.Moves.entries_eq {kind : TransferRange → Traffic.Entry} {range : Nat × Nat}
    (h : field.Moves kind range host left) :
    ∃ id, left.program.storage? field.tree = some id ∧
      field.entries kind range left = [kind ⟨id, field.offset + range.1, range.2⟩] := by
  obtain ⟨id, hstorage, -⟩ := h
  refine ⟨id, hstorage, ?_⟩
  rw [entries, hstorage]

theorem Field.Moves.performs {kind : TransferRange → Traffic.Entry} {range : Nat × Nat}
    (h : field.Moves kind range host left) :
    host.Performs (field.entries kind range left) left := by
  obtain ⟨id, hstorage, hperforms⟩ := h
  rwa [entries, hstorage]

/-- What a query that has succeeded has moved depends on its range alone. -/
theorem Query.moved_ok (request : Query) (reply : Reply) :
    request.moved field (.ok reply) left =
      match request.extent? field with
      | some range => field.entries .read range left
      | none => [] := by
  cases request <;> rfl

theorem Query.Moves.performs {request : Query} {reply : Reply}
    (h : request.Moves field host left) :
    host.Performs (request.moved field (.ok reply) left) left := by
  rw [moved_ok]
  rw [Moves] at h
  cases hextent : request.extent? field with
  | none =>
      simp only [hextent] at h
      exact ⟨host, .untouched, h⟩
  | some range =>
      simp only [hextent] at h
      exact h.performs

theorem Query.moved_error {request : Query} {failure : Failure FieldError}
    (h : request = .toArray → failure = .fault .capacity → left.program.pending ≠ []) :
    request.moved field (.error failure) left = [] := by
  unfold moved
  split
  · next heq => cases heq
  · next heq =>
      cases heq
      exact if_neg (h rfl rfl)
  · rfl

theorem Query.Misses.performs {request : Query} {failure : Failure FieldError}
    (h : Query.Misses field host request failure left) :
    host.Performs (request.moved field (.error failure) left) left := by
  cases h with
  | before hreadied hwanting =>
      rw [Query.moved_error hwanting]
      exact hreadied.performs
  | noRoom hnil hmoves =>
      have hmoved : Query.toArray.moved field (.error (.fault .capacity)) left
          = field.entries .read (0, field.size) left := if_pos hnil
      rw [hmoved]
      exact hmoves.performs

/-! ### One command -/

/-- The transfers of a command, and the storage obtained for them, are all that it does. -/
theorem Command.ends_performs {command : Command} (h : Placed fields host)
    (haccess : command.IsAccess) (hgenuine : command.Genuine) :
    Host.Ends (command.run fields) host
      (fun reply left => host.Performs (command.moved fields (.ok reply) left) left)
      (fun failure left => host.Performs (command.moved fields (.error failure) left) left) := by
  have hquery : ∀ (field : Field) (request : Query), field.Sound →
      Host.Ends (request.run field) host
        (fun reply left => host.Performs (request.moved field (.ok reply) left) left)
        (fun failure left => host.Performs (request.moved field (.error failure) left) left) :=
    fun field request hsound => Host.ends_mono (ends_query_moves request h hsound)
      (fun _ _ hmoves => hmoves.performs) fun _ _ hmisses => hmisses.performs
  have hupdate : ∀ (field : Field) (change : Update), field.Sound →
      Host.Ends (change.run field) host
        (fun _ left => host.Performs (change.moved field (.ok .done) left) left)
        (fun failure left => host.Performs (change.moved field (.error failure) left) left) :=
    fun field change hsound => Host.ends_mono (ends_update_moves change h hsound)
      (fun _ _ hmoves => hmoves.performs) fun _ _ hreadied => hreadied.performs
  cases command with
  | materialize =>
      unfold run
      rw [Host.ends_bind]
      refine Host.ends_mono (Host.ends_materialize_supply h) ?_ ?_
      · intro _ left hend
        obtain ⟨-, rfl⟩ := hend
        exact (Host.Readied.supplied (List.append_nil _).symm).performs
      · intro failure left hfalters
        exact hfalters.readied.performs
  | query number request =>
      cases hfield : fields[number]? with
      | none =>
          simp only [run, moved, hfield]
          exact Host.Readied.untouched.performs
      | some field =>
          simp only [run, moved, hfield]
          exact hquery field request (h.toArranged.sound (List.mem_of_getElem? hfield))
  | update number change =>
      cases hfield : fields[number]? with
      | none =>
          simp only [run, moved, hfield]
          exact Host.Readied.untouched.performs
      | some field =>
          simp only [run, moved, hfield]
          rw [Host.ends_bind]
          exact hupdate field change (h.toArranged.sound (List.mem_of_getElem? hfield))
  | queryForeign field request => exact hquery field request hgenuine.sound
  | updateForeign field change =>
      unfold run
      rw [Host.ends_bind]
      exact hupdate field change hgenuine.sound
  | declare | allocate | readRegion | writeRegion | drawId => exact haccess.elim

/-- What goes to the memory directly leaves the program and the limit as they are. -/
theorem Command.ends_direct {command : Command} (hdirect : command.IsDirect) :
    Host.Ends (command.run fields) host
      (fun reply left => host.Moved left ∧ host.nextId ≤ left.nextId ∧ left.memory.traffic
        = (command.moved fields (.ok reply) left).foldl Traffic.note host.memory.traffic)
      (fun failure left => host.Moved left ∧ host.nextId ≤ left.nextId ∧ left.memory.traffic
        = (command.moved fields (.error failure) left).foldl Traffic.note host.memory.traffic) := by
  cases command with
  | allocate size =>
      unfold run
      rw [Host.ends_bind, Host.ends_onDevice]
      exact Host.ends_allocate (fun _ _ _ => ⟨⟨rfl, rfl⟩, Nat.le_succ _, rfl⟩)
        (fun _ _ => ⟨.refl host, Nat.le_refl _, rfl⟩)
        fun _ _ _ => ⟨⟨rfl, rfl⟩, Nat.le_succ _, rfl⟩
  | readRegion id offset length =>
      unfold run
      rw [Host.ends_bind, Host.ends_onDevice]
      exact Host.ends_readRegion (fun _ _ _ => ⟨⟨rfl, rfl⟩, Nat.le_refl _, rfl⟩)
        fun _ _ => ⟨.refl host, Nat.le_refl _, rfl⟩
  | writeRegion id offset words =>
      unfold run
      rw [Host.ends_bind, Host.ends_onDevice]
      exact Host.ends_writeRegion (fun _ _ _ => ⟨⟨rfl, rfl⟩, Nat.le_refl _, rfl⟩)
        fun _ _ => ⟨.refl host, Nat.le_refl _, rfl⟩
  | drawId => exact ⟨⟨rfl, rfl⟩, Nat.le_succ _, rfl⟩
  | declare | materialize | query | update | queryForeign | updateForeign => exact hdirect.elim

/-- What a command can leave behind: one field more, what it has performed on a field, or what going
to the memory directly leaves. -/
inductive Command.Leaves (fields : List Field) (host : Host) :
    Command → Outcome FieldError Reply → Host → Prop
  | declared {ty : ElementType} {dims : List Nat} {field : Field} {program : Program}
      (hdeclare : host.program.declare ty dims = .ok (field, program)) :
      Leaves fields host (.declare ty dims) (.ok (.field field)) { host with program := program }
  | performed {command : Command} {outcome : Outcome FieldError Reply} {left : Host}
      (hperforms : host.Performs (command.moved fields outcome left) left) :
      Leaves fields host command outcome left
  | direct {command : Command} {outcome : Outcome FieldError Reply} {left : Host}
      (hmoved : host.Moved left) (hnext : host.nextId ≤ left.nextId)
      (htraffic : left.memory.traffic
        = (command.moved fields outcome left).foldl Traffic.note host.memory.traffic) :
      Leaves fields host command outcome left

/-- There is nothing else that a command leaves, whether it succeeds or not. -/
theorem Command.ends_leaves {command : Command} (h : Placed fields host)
    (hgenuine : command.Genuine) :
    Host.Ends (command.run fields) host
      (fun reply left => Leaves fields host command (.ok reply) left)
      (fun failure left => Leaves fields host command (.error failure) left) := by
  cases command with
  | declare ty dims =>
      unfold run
      rw [Host.ends_bind]
      exact Host.ends_declare (fun _ _ hdeclare => .declared hdeclare)
        fun _ _ => .performed Host.Readied.untouched.performs
  | materialize | query | update | queryForeign | updateForeign =>
      exact Host.ends_mono (ends_performs h trivial hgenuine)
        (fun _ _ hperforms => .performed hperforms) fun _ _ hperforms => .performed hperforms
  | allocate | readRegion | writeRegion | drawId =>
      exact Host.ends_mono (ends_direct trivial)
        (fun _ _ ⟨hmoved, hnext, htraffic⟩ => .direct hmoved hnext htraffic)
        fun _ _ ⟨hmoved, hnext, htraffic⟩ => .direct hmoved hnext htraffic

/-- **The traffic of a command** is that of its transfers. -/
theorem Command.Leaves.traffic {command : Command} {outcome : Outcome FieldError Reply}
    (h : Leaves fields host command outcome left) :
    left.memory.traffic
      = (command.moved fields outcome left).foldl Traffic.note host.memory.traffic := by
  cases h with
  | declared => rfl
  | performed hperforms => exact hperforms.traffic
  | direct _ _ htraffic => exact htraffic

namespace Ledger

variable {ledger : Ledger} {number : Nat}

theorem leaves_step {command : Command} (h : Placed ledger.fields ledger.host)
    (hgenuine : command.Genuine) :
    command.Leaves ledger.fields ledger.host (ledger.outcome command)
      (ledger.step command).host :=
  Host.outcome_of_ends (P := command.Leaves ledger.fields ledger.host)
    (command.ends_leaves h hgenuine)

theorem traffic_step {command : Command} (h : Placed ledger.fields ledger.host)
    (hgenuine : command.Genuine) :
    (ledger.step command).host.memory.traffic
      = (ledger.moved command).foldl Traffic.note ledger.host.memory.traffic :=
  (leaves_step h hgenuine).traffic

/-- The induction is on the run, the account of what came before it being part of the claim. -/
theorem traffic_after :
    ∀ (commands : List Command) {ledger : Ledger} (before : List Traffic.Entry),
      Placed ledger.fields ledger.host → (∀ command ∈ commands, command.Genuine) →
        ledger.host.memory.traffic = Traffic.account before →
          (ledger.after commands).host.memory.traffic
            = Traffic.account (before ++ ledger.transfers commands) := by
  intro commands
  induction commands with
  | nil =>
      intro ledger before _ _ hbefore
      rw [transfers, List.append_nil]
      exact hbefore
  | cons command rest ih =>
      intro ledger before h hgenuine hbefore
      obtain ⟨hfirst, hrest⟩ := List.forall_mem_cons.mp hgenuine
      have hstep : (ledger.step command).host.memory.traffic
          = Traffic.account (before ++ ledger.moved command) := by
        rw [traffic_step h hfirst, hbefore, Traffic.foldl_note_account]
      rw [transfers, ← List.append_assoc]
      exact ih _ (stays_step command h).placed hrest hstep

/-- A query that has succeeded has read its range, once and in the tree of its field, or nothing
if it has no range. -/
theorem moved_query {request : Query} {reply : Reply} (h : Placed ledger.fields ledger.host)
    (hfield : ledger.fields[number]? = some field)
    (hok : ledger.outcome (.query number request) = .ok reply) :
    match request.extent? field with
    | some range =>
        ∃ id, (ledger.step (.query number request)).host.program.storage? field.tree = some id ∧
          ledger.moved (.query number request) = [.read ⟨id, field.offset + range.1, range.2⟩]
    | none => ledger.moved (.query number request) = [] := by
  have hsound := h.toArranged.sound (List.mem_of_getElem? hfield)
  have hends := ends_query_moves request h hsound
  rw [moved, hok]
  rw [outcome] at hok
  rw [step]
  simp only [Command.run, Command.moved, hfield] at hok ⊢
  rcases Host.runs_of_ends hends with ⟨found, left, hrun, hmoves⟩ | ⟨failure, left, hrun, -⟩
  · rw [hrun, Query.moved_ok]
    rw [Query.Moves] at hmoves
    cases hextent : request.extent? field with
    | none => rfl
    | some range =>
        simp only [hextent] at hmoves
        exact hmoves.entries_eq
  · rw [hrun] at hok
    cases hok

theorem moved_update {change : Update} {reply : Reply} (h : Placed ledger.fields ledger.host)
    (hfield : ledger.fields[number]? = some field)
    (hok : ledger.outcome (.update number change) = .ok reply) :
    ∃ id, (ledger.step (.update number change)).host.program.storage? field.tree = some id ∧
      ledger.moved (.update number change) = [.write ⟨id, field.offset + (change.extent field).1,
        (change.extent field).2⟩] := by
  have hsound := h.toArranged.sound (List.mem_of_getElem? hfield)
  have hends : Host.Ends ((Command.update number change).run ledger.fields) ledger.host
      (fun _ left => field.Moves .write (change.extent field) ledger.host left)
      (fun _ left => ledger.host.Readied left) := by
    simp only [Command.run, hfield]
    rw [Host.ends_bind]
    exact ends_update_moves change h hsound
  rw [moved, hok]
  rw [outcome] at hok
  rw [step]
  rcases Host.runs_of_ends hends with ⟨found, left, hrun, hmoves⟩ | ⟨failure, left, hrun, -⟩
  · rw [hrun]
    simp only [Command.moved, hfield]
    exact hmoves.entries_eq
  · rw [hrun] at hok
    cases hok

/-- What fails has moved nothing, unless there was no room for an array. -/
theorem moved_of_failure {command : Command} {failure : Failure FieldError}
    (hfailed : ledger.outcome command = .error failure) :
    ledger.moved command = [] ∨ failure = .fault .capacity ∧ command.AsksArray := by
  have hquery : ∀ (field : Field) (request : Query),
      request.moved field (.error failure) (ledger.step command).host = [] ∨
        failure = .fault .capacity ∧ request = .toArray := by
    intro field request
    by_cases hroom : failure = .fault .capacity ∧ request = .toArray
    · exact Or.inr hroom
    · exact Or.inl (Query.moved_error fun harray hcapacity => absurd ⟨hcapacity, harray⟩ hroom)
  rw [moved, hfailed]
  cases command with
  | query number request =>
      cases hfield : ledger.fields[number]? with
      | none =>
          left
          simp only [Command.moved, hfield]
      | some field =>
          simp only [Command.moved, hfield]
          rcases hquery field request with hnone | ⟨hcapacity, rfl⟩
          · exact Or.inl hnone
          · exact Or.inr ⟨hcapacity, trivial⟩
  | update number change =>
      left
      cases hfield : ledger.fields[number]? with
      | none => simp only [Command.moved, hfield]
      | some field =>
          simp only [Command.moved, hfield]
          rfl
  | queryForeign field request =>
      rcases hquery field request with hnone | ⟨hcapacity, rfl⟩
      · exact Or.inl hnone
      · exact Or.inr ⟨hcapacity, trivial⟩
  | updateForeign | readRegion | writeRegion | declare | materialize | allocate | drawId =>
      exact Or.inl rfl

/-- **The traffic of the memory is the account of the transfers of the run.**  A run may use
fields of this program and of others and go to the memory directly, and any of its commands may
fail.  Every command adds its own transfers.  A query on a field of this program that succeeds is
one read of its range, and an update one write of its range, in the storage of the tree of the field
and from the place of the field on; a struct field that is asked for its numbers is not read.
Declarations and materializations are no transfers, and neither is what ends in an error, or in a
fault, unless that is for want of room for an array. -/
theorem traffic_is_account (limit : Option Nat) (nextId : Nat) (commands : List Command)
    (hgenuine : ∀ command ∈ commands, command.Genuine) :
    let first := start limit nextId
    let now := first.after commands
    now.host.memory.traffic = Traffic.account (first.transfers commands) ∧
    (∀ command : Command, command.Genuine →
      (now.step command).host.memory.traffic
        = (now.moved command).foldl Traffic.note now.host.memory.traffic) ∧
    (∀ number field, now.fields[number]? = some field →
      (∀ request reply, now.outcome (.query number request) = .ok reply →
        match request.extent? field with
        | some range =>
            ∃ id, (now.step (.query number request)).host.program.storage? field.tree = some id ∧
              now.moved (.query number request)
                = [.read ⟨id, field.offset + range.1, range.2⟩]
        | none => now.moved (.query number request) = []) ∧
      ∀ change reply, now.outcome (.update number change) = .ok reply →
        ∃ id, (now.step (.update number change)).host.program.storage? field.tree = some id ∧
          now.moved (.update number change)
            = [.write ⟨id, field.offset + (change.extent field).1, (change.extent field).2⟩]) ∧
    (∀ ty dims, now.moved (.declare ty dims) = []) ∧ now.moved .materialize = [] ∧
    (∀ command cause, now.outcome command = .error (.error cause) → now.moved command = []) ∧
    ∀ command fault, now.outcome command = .error (.fault fault) →
      now.moved command = [] ∨ fault = .capacity ∧ command.AsksArray := by
  intro first now
  have hplaced : Placed now.fields now.host :=
    (stays_after commands (placed_start limit nextId)).placed
  refine ⟨?_, fun _ => traffic_step hplaced, ?_, fun _ _ => rfl, rfl, ?_, ?_⟩
  · exact traffic_after commands [] (placed_start limit nextId) hgenuine rfl
  · intro number field hfield
    exact ⟨fun _ _ => moved_query hplaced hfield, fun _ _ => moved_update hplaced hfield⟩
  · intro command cause hfailed
    rcases moved_of_failure hfailed with hnone | ⟨hcapacity, -⟩
    · exact hnone
    · cases hcapacity
  · intro command fault hfailed
    rcases moved_of_failure hfailed with hnone | ⟨hcapacity, harray⟩
    · exact Or.inl hnone
    · cases hcapacity
      exact Or.inr ⟨rfl, harray⟩

/-- An element is written and read back, another one does not exist, and the field is read as a
whole.  The next element to be read is the last one. -/
theorem traffic_is_account_element :
    let commands : List Command := [.declare (.vector .f32 2) [3],
      .update 0 (.set [1] (.vector [⟨0x3FF0000000000000⟩, ⟨0x4000000000000000⟩])),
      .query 0 (.get [1]), .query 0 (.get [3]), .query 0 .toArray]
    let now := (start none 0).after commands
    (∀ command ∈ commands, command.Genuine) ∧
      now.host.memory.traffic = ⟨2, 1, 32, 8, some ⟨⟨0⟩, 0, 24⟩, some ⟨⟨0⟩, 8, 8⟩⟩ ∧
      now.moved (.query 0 (.get [2])) = [.read ⟨⟨0⟩, 16, 8⟩] := by
  intro commands now
  have hgenuine : ∀ command ∈ commands, command.Genuine := by simp [commands, Command.Genuine]
  obtain ⟨htraffic, -, hfields, -⟩ := traffic_is_account none 0 commands hgenuine
  obtain ⟨field, reply, hfield, hreply, hplace, hrange, hstored⟩ :
      ∃ (field : Field) (reply : Reply), now.fields[0]? = some field ∧
        now.outcome (.query 0 (.get [2])) = .ok reply ∧ field.offset = 0 ∧
        field.elementRange [2] = (16, 8) ∧
        (now.step (.query 0 (.get [2]))).host.program.storage? field.tree = some ⟨0⟩ :=
    ⟨_, _, rfl, rfl, rfl, rfl, rfl⟩
  obtain ⟨id, hstorage, hmoved⟩ := (hfields 0 field hfield).1 (.get [2]) reply hreply
  cases hstored.symm.trans hstorage
  rw [hplace, hrange] at hmoved
  exact ⟨hgenuine, htraffic.trans (by rfl), hmoved⟩

end Ledger

end FieldStore
