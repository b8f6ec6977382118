/-
What an error leaves behind.

A request is checked before anything is done, so an error of the request itself leaves everything
as it was.  The errors that come later are about storage, and the most that has happened by then
is a materialization: trees that wanted storage have been closed, and some of them have been given
a region of zeros under an identity that nobody had before.  No byte that was there has changed,
and nothing has been transferred.

`Prepared` says that much of two hosts.  Closing the trees establishes it and serving one more
keeps it, so it holds wherever a materialization stops.
-/
import FieldStore.Proofs.Store.Demand

namespace FieldStore

variable {fields : List Field} {host host' mid : Host} {field : Field}

/-! ### Hosts that have been prepared -/

/-- What a tree is while storage is being obtained: the same as before, or, if it wanted storage,
closed, and then perhaps with a new region of zeros. -/
inductive Tree.Prepared (host host' : Host) (tree : Tree) : Tree → Prop
  | same : Prepared host host' tree tree
  | closed (hpending : tree.isPending = true) : Prepared host host' tree tree.close
  | given {id : TreeId} (hpending : tree.isPending = true) (hnew : host.nextId ≤ id.number)
      (hzeros : host'.memory.region? id = some (List.replicate tree.size 0)) :
      Prepared host host' tree (tree.close.give id)

/-- A region that a tree has been given since. -/
structure Host.Added (host host' : Host) (id : TreeId) (bytes : List Byte) : Prop where
  new : host.nextId ≤ id.number
  unknown : host.memory.region? id = none
  owned : ∃ index tree, host.program.trees[index]? = some tree ∧ tree.isPending = true ∧
    host'.program.storage? index = some id ∧ bytes = List.replicate tree.size 0

/-- What a host is while storage is being obtained. -/
structure Host.Prepared (host host' : Host) : Prop where
  length : host'.program.trees.length = host.program.trees.length
  trees : ∀ (index : Nat) (tree tree' : Tree), host.program.trees[index]? = some tree →
    host'.program.trees[index]? = some tree' → tree.Prepared host host' tree'
  /-- The regions are the same, byte for byte, and come before those that were added. -/
  regions : ∃ added, host'.memory.regions = host.memory.regions ++ added ∧
    ∀ entry ∈ added, host.Added host' entry.1 entry.2
  traffic : host'.memory.traffic = host.memory.traffic
  limit : host'.memory.limit = host.memory.limit
  nextTexture : host'.program.nextTexture = host.program.nextTexture
  nextId : host.nextId ≤ host'.nextId
  log : host'.log = host.log

/-- A tree that is served wanted storage from the beginning and has only been closed since. -/
theorem Tree.Prepared.of_pending {tree current : Tree} (hprepared : tree.Prepared host mid current)
    (hpending : current.isPending = true) (hsealed : current.isSealed = true) :
    tree.isPending = true ∧ current = tree.close := by
  cases hprepared with
  | same =>
      refine ⟨hpending, ?_⟩
      rw [Tree.close, ← hsealed]
  | closed hpending' => exact ⟨hpending', rfl⟩
  | given => cases hpending

/-- A tree stays what it is while its region is. -/
theorem Tree.Prepared.grown {tree current : Tree} {left : Host}
    (h : tree.Prepared host mid current) (hgrown : Grown mid left) :
    tree.Prepared host left current := by
  cases h with
  | same => exact .same
  | closed hpending => exact .closed hpending
  | given hpending hnew hzeros => exact .given hpending hnew (hgrown.regions _ _ hzeros)

/-- A tree that has been given a region keeps it. -/
theorem Host.Added.grown {id : TreeId} {bytes : List Byte} {left : Host}
    (h : host.Added mid id bytes) (hgrown : Grown mid left) : host.Added left id bytes := by
  obtain ⟨index, tree, hget, hpending, hstorage, hbytes⟩ := h.owned
  obtain ⟨owner, howner, hid⟩ := Option.bind_eq_some_iff.mp hstorage
  have hlasting := hgrown.lasting index owner howner (by rw [hid]; rfl)
  refine ⟨h.new, h.unknown, index, tree, hget, hpending, ?_, hbytes⟩
  rw [Host.storage?_of_get hlasting, hid]

namespace Host

theorem Prepared.refl (host : Host) : host.Prepared host := by
  refine ⟨rfl, ?_, ⟨[], (List.append_nil _).symm, nofun⟩, rfl, rfl, rfl, Nat.le_refl _, rfl⟩
  intro index tree tree' hget hget'
  cases hget.symm.trans hget'
  exact .same

theorem Prepared.region? (h : host.Prepared host') {id : TreeId} {bytes : List Byte}
    (hbytes : host.memory.region? id = some bytes) : host'.memory.region? id = some bytes := by
  obtain ⟨added, hregions, -⟩ := h.regions
  rw [HostMemory.region?] at hbytes
  rw [HostMemory.region?, hregions, List.lookup_append, hbytes, Option.some_or]

theorem prepared_closed (host : Host) : host.Prepared host.closed := by
  refine ⟨List.length_map _, ?_, ⟨[], (List.append_nil _).symm, nofun⟩, rfl, rfl, rfl,
    Nat.le_refl _, rfl⟩
  intro index tree tree' hget hget'
  obtain ⟨tree'', hget'', rfl⟩ := getElem?_sealPending hget'
  cases hget.symm.trans hget''
  unfold closePending
  by_cases hpending : tree.isPending = true
  · rw [if_pos hpending]
    exact .closed hpending
  · rw [if_neg hpending]
    exact .same

/-- Serving one more tree. -/
theorem Prepared.served {index size : Nat} {rest : List (Nat × Nat)} (hprepared : host.Prepared mid)
    (h : Placed fields mid) (hpending : mid.program.pending = (index, size) :: rest)
    (hsealed : PendingSealed mid) : host.Prepared (mid.served index size) := by
  obtain ⟨front, current, back, hsplit, rfl, rfl, hcurrent, -, -⟩ :=
    Program.pendingFrom_eq_cons hpending
  rw [Nat.zero_add]
  have hclosed : current.isSealed = true := hsealed current (by simp [hsplit]) hcurrent
  have hgrown := grown_served h hsplit (isPending_iff.mp hcurrent).1
  have hmid : mid.program.trees[front.length]? = some current := by simp [hsplit]
  -- The tree that is served as it was in the beginning.
  obtain ⟨tree, hget⟩ : ∃ tree, host.program.trees[front.length]? = some tree := by
    obtain ⟨hlt, -⟩ := List.getElem?_eq_some_iff.mp hmid
    exact ⟨_, List.getElem?_eq_getElem (hprepared.length ▸ hlt)⟩
  obtain ⟨hwants, hsame⟩ := (hprepared.trees _ tree current hget hmid).of_pending hcurrent hclosed
  have hsize : current.size = tree.size := by rw [hsame, Tree.close]
  have hzeros : (mid.served front.length current.size).memory.region? ⟨mid.nextId⟩
      = some (List.replicate tree.size 0) := by
    rw [← hsize]
    exact HostMemory.region?_withZeros_self h.region?_next
  constructor
  case length => exact hgrown.trees.length.trans hprepared.length
  case trees =>
    intro index tree₀ tree' hget₀ hget'
    rw [trees_served hsplit] at hget'
    rcases getElem?_replaced current hget' with ⟨rfl, rfl⟩ | ⟨-, hother⟩
    · cases hget.symm.trans hget₀
      have hgiven : current.give ⟨mid.nextId⟩ = tree.close.give ⟨mid.nextId⟩ := by rw [hsame]
      rw [hgiven]
      exact .given hwants hprepared.nextId hzeros
    · rw [← hsplit] at hother
      exact (hprepared.trees index tree₀ tree' hget₀ hother).grown hgrown
  case regions =>
    obtain ⟨added, hregions, hadded⟩ := hprepared.regions
    refine ⟨added ++ [(⟨mid.nextId⟩, List.replicate current.size 0)], ?_, ?_⟩
    · rw [← List.append_assoc, ← hregions]
      rfl
    · intro entry hmem
      rcases List.mem_append.mp hmem with hold | hlast
      · exact (hadded entry hold).grown hgrown
      · cases List.mem_singleton.mp hlast
        refine ⟨hprepared.nextId, ?_, front.length, tree, hget, hwants, ?_, by rw [hsize]⟩
        · cases hknown : host.memory.region? ⟨mid.nextId⟩ with
          | none => rfl
          | some bytes =>
              have hc := hprepared.region? hknown
              rw [h.region?_next] at hc
              cases hc
        · rw [Program.storage?, trees_served hsplit]
          simp [Tree.give]
  case traffic => exact hprepared.traffic
  case limit => exact hprepared.limit
  case nextTexture => exact hprepared.nextTexture
  case nextId => exact Nat.le_succ_of_le hprepared.nextId
  case log => exact hprepared.log

/-- The induction is on the trees that have been served, as for the placement. -/
theorem Prepared.supply :
    ∀ {given rest : List (Nat × Nat)} {mid : Host}, host.Prepared mid → Placed fields mid →
      mid.program.pending = given ++ rest → PendingSealed mid →
        host.Prepared (mid.supply given) := by
  intro given
  induction given with
  | nil => intro rest mid hprepared _ _ _; exact hprepared
  | cons entry given ih =>
      intro rest mid hprepared h hpending hsealed
      obtain ⟨hkept, hrest, hsealed'⟩ := kept_served h hpending hsealed
      exact ih (hprepared.served h hpending hsealed) hkept.placed hrest hsealed'

/-- **Wherever a materialization stops, the host has been prepared.** -/
theorem prepared_closed_supply {given rest : List (Nat × Nat)} (h : Placed fields host)
    (hpending : host.program.pending = given ++ rest) :
    host.Prepared (host.closed.supply given) :=
  (prepared_closed host).supply (kept_sealPending h).placed (host.pending_closed.trans hpending)
    (pendingSealed_closed host)

end Host

/-! ### Errors -/

/-- Whether an error is about storage: a tree without any, or a device that refuses. -/
def FieldError.OfStorage : FieldError → Prop
  | notMaterialized _ | device _ => True
  | _ => False

/-- What an error leaves. -/
structure Host.Spared (host : Host) (cause : FieldError) (host' : Host) : Prop where
  same : ¬ cause.OfStorage → host' = host
  prepared : host.Prepared host'

theorem Host.Spared.refl (host : Host) (cause : FieldError) : host.Spared cause host :=
  ⟨fun _ => rfl, .refl host⟩

theorem Host.Spared.of_storage {cause : FieldError} (hcause : cause.OfStorage)
    (hprepared : host.Prepared host') : host.Spared cause host' :=
  ⟨fun hno => absurd hcause hno, hprepared⟩

theorem Demand.Met.prepared {demand : Demand} {tree : Nat} (h : Placed fields host)
    (hmet : demand.Met host tree mid) : host.Prepared mid := by
  cases hmet with
  | found => exact .refl host
  | made => exact Host.prepared_closed_supply h (List.append_nil _).symm

theorem Demand.Unmet.spared {demand : Demand} {tree : Nat} {cause : FieldError}
    (h : Placed fields host) (hunmet : demand.Unmet host tree (.error cause) host') :
    host.Spared cause host' := by
  cases hunmet with
  | refused _ hfalters =>
      obtain ⟨given, index, size, rest, hpending, -, hrefuses⟩ := hfalters
      cases hrefuses with
      | limit => exact .of_storage trivial (Host.prepared_closed_supply h hpending)
  | absent hwants hgrants => exact .of_storage trivial (Met.made hwants hgrants |>.prepared h)

theorem Denied.spared {wanted : Outcome FieldError Demand} {tree : Nat} {cause : FieldError}
    (h : Placed fields host) (hdenied : Denied wanted host tree (.error cause) host') :
    host.Spared cause host' := by
  cases hdenied with
  | refused => exact .refl host cause
  | unmet _ hunmet => exact hunmet.spared h
  | missed _ hmet => exact .of_storage trivial (hmet.prepared h)

/-- A field that some program has declared. -/
def Field.Declared (field : Field) : Prop :=
  ∃ (program : Program) (ty : ElementType) (dims : List Nat) (program' : Program),
    program.declare ty dims = .ok (field, program')

theorem Field.Declared.sound (h : field.Declared) : field.Sound := by
  obtain ⟨program, ty, dims, program', hdeclare⟩ := h
  obtain ⟨closed, tree, -, hcheck, hfits, -, -, hsize, rfl, rfl, hend, -⟩ := declare_eq_ok hdeclare
  exact ⟨hcheck, hfits, hsize, by omega⟩

/-- A command whose field, if it comes from elsewhere, has been declared there. -/
def Command.Genuine : Command → Prop
  | queryForeign field _ | updateForeign field _ => field.Declared
  | _ => True

/-- **An error leaves what it should**, one command at a time. -/
theorem Command.spared {command : Command} (h : Placed fields host) (hgenuine : command.Genuine) :
    Host.Ends (command.run fields) host (fun _ _ => True)
      fun failure host' => ∀ cause, failure = .error cause → host.Spared cause host' := by
  have hrefl : ∀ {failure : Failure FieldError} {cause : FieldError}, failure = .error cause →
      host.Spared cause host := fun _ => .refl host _
  by_cases hrequest : command.IsRequest
  · have hsound : ∀ field request, command = .queryForeign field request → field.Sound := by
      rintro field request rfl
      exact hgenuine.sound
    refine Host.ends_mono (command.ends_demand h hrequest hsound) (fun _ _ _ => trivial) ?_
    rintro failure host' hdenied cause rfl
    exact hdenied.spared h
  · cases command with
    | declare ty dims =>
        unfold Command.run
        rw [Host.ends_bind]
        exact Host.ends_declare (fun _ _ _ => trivial) fun _ _ _ => hrefl
    | allocate size =>
        unfold Command.run
        rw [Host.ends_bind, Host.ends_onDevice]
        refine Host.ends_allocate (fun _ _ _ => trivial) (fun _ _ _ => hrefl) ?_
        intro padded _ _ cause hcause
        cases hcause
    | readRegion id offset length =>
        unfold Command.run
        rw [Host.ends_bind, Host.ends_onDevice]
        exact Host.ends_readRegion (fun _ _ _ => trivial) fun _ _ _ => hrefl
    | writeRegion id offset words =>
        unfold Command.run
        rw [Host.ends_bind, Host.ends_onDevice]
        exact Host.ends_writeRegion (fun _ _ _ => trivial) fun _ _ _ => hrefl
    | materialize | query | update | queryForeign | updateForeign | drawId =>
        exact absurd trivial hrequest

/-- A running total that has no address is that of a tree that was there and open, because a tree
that has just been opened begins at zero. -/
theorem openTree_of_overflow {trees closed : List Tree} {tree : Tree} {size : Nat}
    (hopen : Program.openTree trees = (closed, tree)) (hsize : size < Size.bound)
    (hover : Size.bound ≤ tree.size + size) : trees = closed ++ [tree] := by
  obtain ⟨-, hsplit | ⟨-, rfl⟩⟩ := openTree_eq hopen
  · exact hsplit
  · have hzero : Tree.empty.size = 0 := rfl
    omega

namespace Ledger

/-- **Errors leave the state intact.**  In every state that a run reaches, take any command that
ends with an error, be it on a field of this program or on one that another program declared.  No
field is added.  Unless the error is about storage, nothing at all has changed; if it is, the host
has been prepared and no more: every region has the bytes it had, nothing has been transferred,
and trees have been closed and given new regions of zeros at most.  A declaration that fails, by
an error or by a fault, leaves everything as it was; and when it fails because the total of the
open tree has no address, that tree was there before. -/
theorem state_after_error (limit : Option Nat) (nextId : Nat) (history : List Command) :
    let now := (start limit nextId).after history
    (∀ (command : Command) (cause : FieldError), command.Genuine →
      now.outcome command = .error (.error cause) →
        let later := now.step command
        later.fields = now.fields ∧ (¬ cause.OfStorage → later = now) ∧
          now.host.Prepared later.host) ∧
    (∀ (ty : ElementType) (dims : List Nat) (failure : Failure FieldError),
      now.outcome (.declare ty dims) = .error failure → now.step (.declare ty dims) = now) ∧
    ∀ (closed : List Tree) (tree : Tree) (size : Nat),
      Program.openTree now.host.program.trees = (closed, tree) → size < Size.bound →
        Size.bound ≤ tree.size + size → now.host.program.trees = closed ++ [tree] := by
  intro now
  have hplaced := (stays_after history (placed_start limit nextId)).placed
  -- A command that fails declares nothing, so the ledger is known by its host.
  have hstep : ∀ {command : Command} {failure : Failure FieldError},
      now.outcome command = .error failure →
        now.step command = ⟨(Host.runs (command.run now.fields) now.host).2, now.fields⟩ := by
    intro command failure hfailed
    rw [step, hfailed]
    exact congrArg (Ledger.mk _) (List.append_nil _)
  refine ⟨?_, ?_, fun closed tree size => openTree_of_overflow⟩
  · intro command cause hgenuine hfailed later
    have hlater : later = ⟨_, now.fields⟩ := hstep hfailed
    have hspared : now.host.Spared cause later.host := by
      rcases Host.runs_of_ends (Command.spared hplaced hgenuine) with
        ⟨reply, host', hrun, -⟩ | ⟨failure, host', hrun, hspared⟩
      · rw [outcome, hrun] at hfailed
        cases hfailed
      · rw [outcome, hrun] at hfailed
        cases hfailed
        rw [hlater, hrun]
        exact hspared cause rfl
    refine ⟨by rw [hlater], fun hcause => ?_, hspared.prepared⟩
    have hsame := hspared.same hcause
    rw [hlater] at hsame ⊢
    exact congrArg (Ledger.mk · now.fields) hsame
  · intro ty dims failure hfailed
    rw [hstep hfailed]
    have hends : Host.Ends ((Command.declare ty dims).run now.fields) now.host (fun _ _ => True)
        fun _ host' => host' = now.host := by
      unfold Command.run
      rw [Host.ends_bind]
      exact Host.ends_declare (fun _ _ _ => trivial) fun _ _ => rfl
    rcases Host.runs_of_ends hends with ⟨reply, host', hrun, -⟩ | ⟨failure', host', hrun, rfl⟩
    · rw [outcome, hrun] at hfailed
      cases hfailed
    · rw [hrun]

/-- The tree of a field that another program declared does not exist here.  By the time this is
known the only tree there is has been given its region. -/
theorem state_after_error_foreign :
    let now := (start none 0).after [.declare (.scalar .i32) [2]]
    ∃ field : Field, field.Declared ∧
      now.outcome (.queryForeign field (.get [0])) = .error (.error (.notMaterialized 1)) ∧
      now.host.Prepared (now.step (.queryForeign field (.get [0]))).host ∧
      (now.step (.queryForeign field (.get [0]))).host.memory.regions
        = [(⟨0⟩, [0, 0, 0, 0, 0, 0, 0, 0])] := by
  intro now
  obtain ⟨field, hdeclared, hfailed, hregions⟩ : ∃ field : Field, field.Declared ∧
      now.outcome (.queryForeign field (.get [0])) = .error (.error (.notMaterialized 1)) ∧
      (now.step (.queryForeign field (.get [0]))).host.memory.regions
        = [(⟨0⟩, [0, 0, 0, 0, 0, 0, 0, 0])] :=
    ⟨_, ⟨⟨[⟨4, 1, true, none⟩], 0⟩, .scalar .i32, [1], _, rfl⟩, rfl, rfl⟩
  obtain ⟨-, -, hprepared⟩ := (state_after_error none 0 _).1 (.queryForeign field (.get [0]))
    _ hdeclared hfailed
  exact ⟨field, hdeclared, hfailed, hprepared, hregions⟩

end Ledger

end FieldStore
