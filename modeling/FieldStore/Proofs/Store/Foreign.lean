/-
Fields of other programs.

A field does not say which program declared it.  Used with another program it stands for that
program's tree of the same position, of which its declaration knew nothing: the tree may not exist,
it may have no storage, and it may be shorter than the field.  None of this does any harm.  A field
that was declared lies at addresses, so the range that is asked for has a place; the device compares
it with the tree that is there; and whatever happens, it happens to the program that was asked.

How such a transfer ends depends on the tree alone once it has storage, and otherwise on a
materialization.  As a program is either blocked or served as a whole, a materialization that fails
has not given storage to the tree in question.
-/
import FieldStore.Proofs.Store.Books
import FieldStore.Proofs.Store.Expected
import FieldStore.Proofs.Store.Idempotence
import FieldStore.Proofs.Store.Ranges
import FieldStore.Proofs.Tasks.Alone
import FieldStore.Proofs.Tasks.Orderly

namespace FieldStore

variable {fields : List Field} {host host' mid left : Host} {id : TreeId} {bytes : List Byte}

/-! ### The bytes of a tree -/

namespace Host

/-- The bytes of a tree: those of its storage, or zeros as long as it has none. -/
def contents? (host : Host) (index : Nat) : Option (List Byte) :=
  host.program.trees[index]?.map fun tree =>
    (host.treeBytes? index).getD (List.replicate tree.size 0)

theorem contents?_of_storage {index : Nat} (hstorage : host.program.storage? index = some id)
    (hbytes : host.memory.region? id = some bytes) : host.contents? index = some bytes := by
  have htree : host.treeBytes? index = some bytes := by
    rw [treeBytes?, hstorage, Option.bind_some, hbytes]
  obtain ⟨tree, hget, -⟩ := Option.bind_eq_some_iff.mp hstorage
  rw [contents?, hget, htree]
  rfl

theorem contents?_of_no_storage {index : Nat} {tree : Tree}
    (hget : host.program.trees[index]? = some tree) (hnone : tree.storage = none) :
    host.contents? index = some (List.replicate tree.size 0) := by
  rw [contents?, hget, treeBytes?_of_none hget hnone]
  rfl

theorem contents?_of_beyond {index : Nat} (hbeyond : host.program.trees.length ≤ index) :
    host.contents? index = none := by
  rw [contents?, List.getElem?_eq_none hbeyond]
  rfl

/-- There are as many bytes as the tree has. -/
theorem length_of_contents? {index : Nat} {tree : Tree} (h : Placed fields host)
    (hget : host.program.trees[index]? = some tree) (hbytes : host.contents? index = some bytes) :
    bytes.length = tree.size := by
  cases hstorage : tree.storage with
  | none =>
      rw [contents?_of_no_storage hget hstorage] at hbytes
      cases hbytes
      exact List.length_replicate
  | some id =>
      obtain ⟨found, hfound, hlength, -⟩ := region_of_storage h hget hstorage
      rw [contents?_of_storage ((storage?_of_get hget).trans hstorage) hfound] at hbytes
      cases hbytes
      exact hlength

/-- Obtaining storage changes the bytes of no tree. -/
theorem Prepared.contents? (h : host.Prepared mid) (hplaced : Placed fields host) (index : Nat) :
    mid.contents? index = host.contents? index := by
  cases hget : host.program.trees[index]? with
  | none =>
      have hbeyond := List.getElem?_eq_none_iff.mp hget
      rw [contents?_of_beyond hbeyond, contents?_of_beyond (h.length ▸ hbeyond)]
  | some tree =>
      obtain ⟨tree', hget'⟩ : ∃ tree', mid.program.trees[index]? = some tree' := by
        obtain ⟨hlt, -⟩ := List.getElem?_eq_some_iff.mp hget
        exact ⟨_, List.getElem?_eq_getElem (h.length ▸ hlt)⟩
      have hnone : tree.isPending = true → tree.storage = none :=
        fun hpending => (isPending_iff.mp hpending).1
      cases h.trees index tree tree' hget hget' with
      | same =>
          cases hstorage : tree.storage with
          | none =>
              rw [contents?_of_no_storage hget hstorage, contents?_of_no_storage hget' hstorage]
          | some id =>
              obtain ⟨found, hfound, -⟩ := region_of_storage hplaced hget hstorage
              rw [contents?_of_storage ((storage?_of_get hget).trans hstorage) hfound,
                contents?_of_storage ((storage?_of_get hget').trans hstorage) (h.region? hfound)]
      | closed hpending =>
          rw [contents?_of_no_storage hget (hnone hpending),
            contents?_of_no_storage hget' (hnone hpending)]
          rfl
      | given hpending _ hzeros =>
          rw [contents?_of_no_storage hget (hnone hpending),
            contents?_of_storage (storage?_of_get hget') hzeros]

/-- The program is the same, and so are all regions but one. -/
structure Put (id : TreeId) (bytes : List Byte) (host host' : Host) : Prop where
  program : host'.program = host.program
  self : host'.memory.region? id = some bytes
  others : ∀ other, other ≠ id → host'.memory.region? other = host.memory.region? other

theorem put_read (start count : Nat) (hbytes : host.memory.region? id = some bytes) :
    Put id bytes host { host with memory := host.memory.afterRead id start count } :=
  ⟨rfl, hbytes, fun _ _ => rfl⟩

theorem put_written (start : Nat) (words : List Word)
    (hbytes : host.memory.region? id = some bytes) :
    Put id (overwrite start (bytesOfWords words) bytes) host
      (host.written id start words bytes) :=
  ⟨rfl, HostMemory.region?_afterWrite_self hbytes,
    fun _ hne => HostMemory.region?_afterWrite_of_ne hne⟩

/-- No other tree has the same storage, so the bytes of one tree change. -/
theorem Put.contents? {index : Nat} (h : Put id bytes host host') (hplaced : Placed fields host)
    (hstorage : host.program.storage? index = some id) :
    host'.contents? index = some bytes ∧
      ∀ other, other ≠ index → host'.contents? other = host.contents? other := by
  refine ⟨contents?_of_storage (by rw [h.program, hstorage]) h.self, ?_⟩
  intro other hne
  obtain ⟨tree, hget, hid⟩ := Option.bind_eq_some_iff.mp hstorage
  have hsame : host'.treeBytes? other = host.treeBytes? other := by
    rw [treeBytes?, treeBytes?, h.program]
    cases hother : host.program.storage? other with
    | none => rfl
    | some otherId =>
        obtain ⟨tree', hget', hid'⟩ := Option.bind_eq_some_iff.mp hother
        refine h.others otherId fun heq => hne ?_
        exact hplaced.distinct other index tree' tree id hget' hget (heq ▸ hid') hid
  rw [Host.contents?, Host.contents?, h.program, hsame]

end Host

/-! ### The transfer itself -/

/-- What a transfer answers that begins at a byte of a region. -/
def Payload.reply (start : Nat) (bytes : List Byte) : Payload → Reply
  | read length => .lanes (Lanes.ofBytes (window start length bytes))
  | write _ => .done

/-- The bytes of the region afterwards. -/
def Payload.apply (start : Nat) (bytes : List Byte) : Payload → List Byte
  | read _ => bytes
  | write words => overwrite start (bytesOfWords words) bytes

/-- Where a transfer begins in its tree. -/
def Transfer.place (transfer : Transfer) : Nat := transfer.field.offset + transfer.offset

/-- The device moves the bytes, or refuses the range and leaves the host as it is. -/
theorem Transfer.ends_onMemory (transfer : Transfer) (start : Nat)
    (hbytes : host.memory.region? id = some bytes) :
    Host.Ends (transfer.onMemory id start) host
      (fun reply left => checkRange start transfer.payload.length bytes.length = .ok () ∧
        reply = transfer.payload.reply start bytes ∧
        Host.Put id (transfer.payload.apply start bytes) host left)
      (fun failure left => left = host ∧
        checkRange start transfer.payload.length bytes.length = .error failure) := by
  unfold onMemory
  cases transfer.payload with
  | read length =>
      refine Host.ends_bind.mpr (Host.ends_readRegion ?_ ?_)
      · intro found hfound hcheck
        cases hbytes.symm.trans hfound
        exact ⟨hcheck, rfl, Host.put_read start length hbytes⟩
      · intro failure hfailed
        rw [HostMemory.read_eq_error_iff, HostMemory.checkTransfer_of_region? hbytes] at hfailed
        exact ⟨rfl, hfailed⟩
  | write words =>
      refine Host.ends_bind.mpr (Host.ends_writeRegion ?_ ?_)
      · intro found hfound hcheck
        cases hbytes.symm.trans hfound
        exact ⟨hcheck, rfl, Host.put_written start words hbytes⟩
      · intro failure hfailed
        rw [HostMemory.write_eq_error_iff, HostMemory.checkTransfer_of_region? hbytes] at hfailed
        exact ⟨rfl, hfailed⟩

/-- The place of a transfer has an address. -/
theorem Transfer.send_eq {transfer : Transfer} (hplace : transfer.place < Size.bound)
    (id : TreeId) : transfer.send id = Host.onDevice (transfer.onMemory id transfer.place) := by
  have hsum : (Size.add transfer.field.offset transfer.offset : Outcome FieldError Nat)
      = .ok transfer.place := Size.add_eq_ok_iff.mpr ⟨rfl, hplace⟩
  rw [send, hsum]
  rfl

/-! ### Materializations that fail -/

namespace Ledger

variable {ledger : Ledger} {transfer : Transfer} {outcome : Outcome FieldError Reply}

/-- Whether this is how a materialization of the program ends, some tree that wants storage
exceeding the limit. -/
def Exhausts (ledger : Ledger) (outcome : Outcome FieldError Reply) : Prop :=
  ledger.outcome .materialize = outcome ∧ ∃ requested limit,
    outcome = .error (.error (.device (.memoryExhaustion requested limit)))

theorem exhausts_of_falters {failure : Failure FieldError}
    (h : Placed ledger.fields ledger.host) (hroomy : ledger.host.Roomy)
    (hfalters : ledger.host.Falters failure left) : ledger.Exhausts (.error failure) := by
  constructor
  · rw [(materialize_eq ledger).1]
    rcases Host.runs_of_ends (Host.ends_materialize_supply h) with
      ⟨_, _, -, hgrants, -⟩ | ⟨_, _, hrun, hfalters'⟩
    · exact absurd hgrants hfalters.not_grantsAll
    · rw [hrun, hfalters.unique hfalters']
      rfl
  · have hexpected := hfalters.expected fun hroom : ledger.host.Roomy => hroom
    generalize houtcome : (.error failure : Outcome FieldError Reply) = outcome at hexpected
    cases hexpected with
    | answered => cases houtcome
    | exhausted => exact ⟨_, _, rfl⟩
    | crowded hfull => exact absurd hroomy hfull

/-- Unless it is granted all storage, the host is blocked, and then a materialization leaves every
tree as it was in this respect. -/
theorem Regular.storage?_of_falters {failure : Failure FieldError} (h : ledger.Regular)
    (hfalters : ledger.host.Falters failure left) (index : Nat) :
    left.program.storage? index = ledger.host.program.storage? index := by
  rcases h.paced.grantsAll_or_blocked h.placed with ⟨-, hgrants⟩ | hblocked
  · exact absurd hgrants hfalters.not_grantsAll
  · exact (hfalters.idle hblocked).storage? index

/-! ### How a transfer ends -/

/-- The host on which the tree at this index has storage. -/
structure Obtains (ledger : Ledger) (index : Nat) (id : TreeId) (bytes : List Byte) (mid : Host) :
    Prop where
  placed : Placed ledger.fields mid
  prepared : ledger.host.Prepared mid
  storage : mid.program.storage? index = some id
  region : mid.memory.region? id = some bytes

/-- The ways in which a transfer ends whose range lies within its field, and the host that it
leaves. -/
inductive Ending (ledger : Ledger) (transfer : Transfer) : Outcome FieldError Reply → Host → Prop
  /-- A tree that wants storage is refused it, and none has been given any. -/
  | exhausted {outcome : Outcome FieldError Reply} {left : Host}
      (hexhausts : ledger.Exhausts outcome) (hprepared : ledger.host.Prepared left)
      (hnone : left.program.storage? transfer.field.tree = none) :
      Ending ledger transfer outcome left
  /-- Every tree has storage, and the one in question is none of them. -/
  | absent {left : Host} (hmaterialized : ∃ reply, ledger.outcome .materialize = .ok reply)
      (hprepared : ledger.host.Prepared left)
      (hbeyond : ledger.host.program.trees.length ≤ transfer.field.tree) :
      Ending ledger transfer (.error (.error (.notMaterialized transfer.field.tree))) left
  /-- The device has refused the range. -/
  | refused {id : TreeId} {bytes : List Byte} {cause : DeviceError} {left : Host}
      (hobtains : ledger.Obtains transfer.field.tree id bytes left)
      (hcheck : checkRange transfer.place transfer.payload.length bytes.length
        = .error (.error cause)) :
      Ending ledger transfer (.error (.error (.device cause))) left
  | done {id : TreeId} {bytes : List Byte} {mid left : Host}
      (hobtains : ledger.Obtains transfer.field.tree id bytes mid)
      (hcheck : checkRange transfer.place transfer.payload.length bytes.length = .ok ())
      (hput : mid.Put id (transfer.payload.apply transfer.place bytes) left) :
      Ending ledger transfer (.ok (transfer.payload.reply transfer.place bytes)) left

theorem Regular.obtains {index : Nat} (h : ledger.Regular)
    (hmet : Demand.own.Met ledger.host index mid)
    (hstorage : mid.program.storage? index = some id) :
    ∃ bytes, ledger.Obtains index id bytes mid := by
  have hkept := hmet.kept h.placed
  obtain ⟨tree, hget, hid⟩ := Option.bind_eq_some_iff.mp hstorage
  obtain ⟨bytes, hbytes, -⟩ := Host.region_of_storage hkept.placed hget hid
  exact ⟨bytes, hkept.placed, hmet.prepared h.placed, hstorage, hbytes⟩

/-- **How a transfer ends** on a program that need not have declared the field. -/
theorem Regular.ends_transfer (h : ledger.Regular) (hroomy : ledger.host.Roomy)
    (hplace : transfer.place < Size.bound) :
    Host.Ends (Tasks.Point.looking transfer).rest ledger.host
      (fun reply left => ledger.Ending transfer (.ok reply) left)
      (fun failure left => ledger.Ending transfer (.error failure) left) := by
  unfold Tasks.Point.rest
  rw [Host.ends_bind]
  refine Host.ends_mono (Host.ends_requireStorage_demand h.placed) ?_ ?_
  · intro id mid hend
    obtain ⟨hmet, hstorage⟩ := hend
    obtain ⟨bytes, hobtains⟩ := h.obtains hmet hstorage
    rw [Transfer.send_eq hplace, Host.ends_onDevice]
    refine Host.ends_mono (transfer.ends_onMemory transfer.place hobtains.region) ?_ ?_
    · intro reply left hmoved
      obtain ⟨hcheck, rfl, hput⟩ := hmoved
      exact .done hobtains hcheck hput
    · intro failure left hfailed
      obtain ⟨rfl, hcheck⟩ := hfailed
      obtain ⟨cause, rfl⟩ := checkRange_eq_error hcheck
      exact .refused hobtains hcheck
  · intro failure left hunmet
    cases hunmet with
    | refused hwants hfalters =>
        have hexhausts := exhausts_of_falters h.placed hroomy hfalters
        obtain ⟨requested, limit, hcause⟩ := hexhausts.2
        cases hcause
        have hspared := (Demand.Unmet.refused hwants hfalters).spared h.placed
        exact .exhausted hexhausts hspared.prepared
          ((h.storage?_of_falters hfalters _).trans hwants)
    | absent hwants hgrants hbeyond =>
        exact .absent ((materialize_succeeds_iff h.placed).mpr hgrants)
          ((Demand.Met.made hwants hgrants).prepared h.placed) hbeyond

/-! ### What is known of it -/

namespace Obtains

variable {index : Nat}

theorem contents? (hobtains : ledger.Obtains index id bytes mid)
    (h : Placed ledger.fields ledger.host) : ledger.host.contents? index = some bytes := by
  rw [← hobtains.prepared.contents? h]
  exact Host.contents?_of_storage hobtains.storage hobtains.region

theorem isMaterialized (hobtains : ledger.Obtains index id bytes mid) :
    mid.program.isMaterialized index = true :=
  Host.isMaterialized_of_storage hobtains.storage

/-- The tree was there before, with as many bytes. -/
theorem exists_tree (hobtains : ledger.Obtains index id bytes mid)
    (h : Placed ledger.fields ledger.host) :
    ∃ tree, ledger.host.program.trees[index]? = some tree ∧ bytes.length = tree.size ∧
      tree.size < Size.bound := by
  have hcontents := hobtains.contents? h
  obtain ⟨tree, hget, -⟩ := Option.map_eq_some_iff.mp hcontents
  exact ⟨tree, hget, Host.length_of_contents? h hget hcontents, h.addressed index tree hget⟩

end Obtains

end Ledger

/-- Whether a transfer moves whole words from a word on. -/
def Transfer.Aligned (transfer : Transfer) : Prop :=
  transfer.place % wordBytes = 0 ∧ transfer.payload.length % wordBytes = 0

/-- How a transfer ends on a tree of the given size that has storage. -/
structure Transfer.Checked (transfer : Transfer) (size : Nat)
    (outcome : Outcome FieldError Reply) : Prop where
  succeeds_iff : (∃ reply, outcome = .ok reply) ↔
    transfer.Aligned ∧ transfer.place + transfer.payload.length ≤ size
  unaligned : ¬ transfer.Aligned → outcome
    = .error (.error (.device (.unaligned transfer.place transfer.payload.length)))
  outOfRange : transfer.Aligned → size < transfer.place + transfer.payload.length → outcome
    = .error (.error (.device (.outOfRange transfer.place transfer.payload.length size)))

theorem Transfer.checked_of_ok {transfer : Transfer} {size : Nat} {reply : Reply}
    (hcheck : checkRange transfer.place transfer.payload.length size = .ok ()) :
    transfer.Checked size (.ok reply) := by
  obtain ⟨hplace, hlength, -, hfits⟩ := checkRange_eq_ok_iff.mp hcheck
  have haligned : transfer.Aligned := ⟨hplace, hlength⟩
  refine ⟨iff_of_true ⟨reply, rfl⟩ ⟨haligned, hfits⟩, fun hno => absurd haligned hno, ?_⟩
  intro _ hbeyond
  exact absurd hfits (Nat.not_le.mpr hbeyond)

theorem Transfer.checked_of_error {transfer : Transfer} {size : Nat} {cause : DeviceError}
    (hsize : size < Size.bound)
    (hcheck : checkRange transfer.place transfer.payload.length size = .error (.error cause)) :
    transfer.Checked size (.error (.error (.device cause))) := by
  rcases checkRange_refuses hsize hcheck with ⟨hno, hcause⟩ | ⟨haligned, hbeyond, hcause⟩
  · cases hcause
    refine ⟨iff_of_false nofun fun hc => hno hc.1, fun _ => rfl, fun haligned => ?_⟩
    exact absurd haligned hno
  · cases hcause
    refine ⟨iff_of_false nofun fun hc => Nat.not_le.mpr hbeyond hc.2, fun hno => ?_, fun _ _ => rfl⟩
    exact absurd haligned hno

namespace Ledger

variable {ledger : Ledger} {transfer : Transfer} {outcome : Outcome FieldError Reply}

/-- What a transfer may do on a program that need not have declared its field. -/
structure Contains (ledger : Ledger) (transfer : Transfer) (outcome : Outcome FieldError Reply)
    (left : Host) : Prop where
  no_fault : ∀ reason, outcome ≠ .error (.fault reason)
  known : ∀ id, outcome ≠ .error (.error (.device (.unknownTree id)))
  /-- The program has no tree at that position. -/
  beyond : ledger.host.program.trees.length ≤ transfer.field.tree →
    (∃ reply, ledger.outcome .materialize = .ok reply) ∧
        outcome = .error (.error (.notMaterialized transfer.field.tree)) ∨
      ledger.Exhausts outcome
  /-- It has one, which is left without storage. -/
  unserved : ∀ tree, ledger.host.program.trees[transfer.field.tree]? = some tree →
    left.program.isMaterialized transfer.field.tree = false → ledger.Exhausts outcome
  /-- It has one, which has or obtains storage. -/
  served : ∀ tree, ledger.host.program.trees[transfer.field.tree]? = some tree →
    left.program.isMaterialized transfer.field.tree = true → transfer.Checked tree.size outcome
  /-- On success the bytes of the range, and no others, have been read or written. -/
  moved : ∀ reply, outcome = .ok reply →
    ∃ bytes, ledger.host.contents? transfer.field.tree = some bytes ∧
      reply = transfer.payload.reply transfer.place bytes ∧
      left.contents? transfer.field.tree
        = some (transfer.payload.apply transfer.place bytes)
  unchanged : ∀ failure, outcome = .error failure →
    left.contents? transfer.field.tree = ledger.host.contents? transfer.field.tree
  others : ∀ index, index ≠ transfer.field.tree →
    left.contents? index = ledger.host.contents? index
  /-- No region is lost, and none changes but that of the tree on success. -/
  regions : ∀ id bytes, ledger.host.memory.region? id = some bytes →
    ((∃ failure, outcome = .error failure) ∨
        left.program.storage? transfer.field.tree ≠ some id) →
      left.memory.region? id = some bytes

/-- On a program that is granted all storage the range alone tells how a transfer ends. -/
theorem Contains.checked {tree : Tree} {reply : Reply}
    (h : ledger.Contains transfer outcome left)
    (hget : ledger.host.program.trees[transfer.field.tree]? = some tree)
    (hmaterialized : ledger.outcome .materialize = .ok reply) :
    transfer.Checked tree.size outcome := by
  cases hstored : left.program.isMaterialized transfer.field.tree with
  | true => exact h.served tree hget hstored
  | false =>
      obtain ⟨hfails, requested, limit, rfl⟩ := h.unserved tree hget hstored
      rw [hmaterialized] at hfails
      cases hfails

namespace Ending

theorem no_fault (hending : ledger.Ending transfer outcome left) (reason : Fault) :
    outcome ≠ .error (.fault reason) := by
  cases hending with
  | exhausted hexhausts =>
      obtain ⟨-, requested, limit, rfl⟩ := hexhausts
      exact nofun
  | absent | refused | done => exact nofun

theorem known (hending : ledger.Ending transfer outcome left)
    (h : Placed ledger.fields ledger.host) (id : TreeId) :
    outcome ≠ .error (.error (.device (.unknownTree id))) := by
  cases hending with
  | exhausted hexhausts =>
      obtain ⟨-, requested, limit, rfl⟩ := hexhausts
      exact nofun
  | refused hobtains hcheck =>
      obtain ⟨tree, -, hlength, hsize⟩ := hobtains.exists_tree h
      rcases checkRange_refuses (hlength ▸ hsize) hcheck with ⟨-, hcause⟩ | ⟨-, -, hcause⟩
      · cases hcause
        exact nofun
      · cases hcause
        exact nofun
  | absent | done => exact nofun

theorem beyond (hending : ledger.Ending transfer outcome left)
    (h : Placed ledger.fields ledger.host)
    (hbeyond : ledger.host.program.trees.length ≤ transfer.field.tree) :
    (∃ reply, ledger.outcome .materialize = .ok reply) ∧
        outcome = .error (.error (.notMaterialized transfer.field.tree)) ∨
      ledger.Exhausts outcome := by
  have hno : ∀ {id bytes mid}, ¬ ledger.Obtains transfer.field.tree id bytes mid := by
    intro id bytes mid hobtains
    obtain ⟨tree, hget, -⟩ := hobtains.exists_tree h
    obtain ⟨hlt, -⟩ := List.getElem?_eq_some_iff.mp hget
    exact Nat.not_le.mpr hlt hbeyond
  cases hending with
  | exhausted hexhausts => exact Or.inr hexhausts
  | absent hmaterialized => exact Or.inl ⟨hmaterialized, rfl⟩
  | refused hobtains => exact absurd hobtains hno
  | done hobtains => exact absurd hobtains hno

theorem unserved (hending : ledger.Ending transfer outcome left) {tree : Tree}
    (hget : ledger.host.program.trees[transfer.field.tree]? = some tree)
    (hstored : left.program.isMaterialized transfer.field.tree = false) :
    ledger.Exhausts outcome := by
  cases hending with
  | exhausted hexhausts => exact hexhausts
  | absent _ _ hbeyond =>
      rw [List.getElem?_eq_none hbeyond] at hget
      cases hget
  | refused hobtains =>
      rw [hobtains.isMaterialized] at hstored
      cases hstored
  | done hobtains _ hput =>
      rw [hput.program, hobtains.isMaterialized] at hstored
      cases hstored

theorem served (hending : ledger.Ending transfer outcome left)
    (h : Placed ledger.fields ledger.host) {tree : Tree}
    (hget : ledger.host.program.trees[transfer.field.tree]? = some tree)
    (hstored : left.program.isMaterialized transfer.field.tree = true) :
    transfer.Checked tree.size outcome := by
  cases hending with
  | exhausted _ _ hnone =>
      rw [Program.isMaterialized, hnone] at hstored
      cases hstored
  | absent _ _ hbeyond =>
      rw [List.getElem?_eq_none hbeyond] at hget
      cases hget
  | refused hobtains hcheck =>
      obtain ⟨tree', hget', hlength, hsize⟩ := hobtains.exists_tree h
      cases hget.symm.trans hget'
      exact Transfer.checked_of_error hsize (hlength ▸ hcheck)
  | done hobtains hcheck =>
      obtain ⟨tree', hget', hlength, -⟩ := hobtains.exists_tree h
      cases hget.symm.trans hget'
      exact Transfer.checked_of_ok (hlength ▸ hcheck)

theorem moved (hending : ledger.Ending transfer outcome left)
    (h : Placed ledger.fields ledger.host) {reply : Reply} (hok : outcome = .ok reply) :
    ∃ bytes, ledger.host.contents? transfer.field.tree = some bytes ∧
      reply = transfer.payload.reply transfer.place bytes ∧
      left.contents? transfer.field.tree
        = some (transfer.payload.apply transfer.place bytes) := by
  cases hending with
  | exhausted hexhausts =>
      obtain ⟨-, requested, limit, rfl⟩ := hexhausts
      cases hok
  | absent | refused => cases hok
  | done hobtains _ hput =>
      cases hok
      exact ⟨_, hobtains.contents? h, rfl, (hput.contents? hobtains.placed hobtains.storage).1⟩

/-- A transfer that fails has obtained storage at most; one that succeeds has then put the bytes of
one region in place. -/
theorem prepared_or_put (hending : ledger.Ending transfer outcome left) :
    (∃ failure, outcome = .error failure) ∧ ledger.host.Prepared left ∨
      ∃ reply id bytes bytes' mid, outcome = .ok reply ∧
        ledger.Obtains transfer.field.tree id bytes mid ∧ mid.Put id bytes' left := by
  cases hending with
  | exhausted hexhausts hprepared =>
      obtain ⟨-, requested, limit, rfl⟩ := hexhausts
      exact Or.inl ⟨⟨_, rfl⟩, hprepared⟩
  | absent _ hprepared => exact Or.inl ⟨⟨_, rfl⟩, hprepared⟩
  | refused hobtains => exact Or.inl ⟨⟨_, rfl⟩, hobtains.prepared⟩
  | done hobtains _ hput => exact Or.inr ⟨_, _, _, _, _, rfl, hobtains, hput⟩

theorem unchanged (hending : ledger.Ending transfer outcome left)
    (h : Placed ledger.fields ledger.host) {failure : Failure FieldError}
    (hfailed : outcome = .error failure) :
    left.contents? transfer.field.tree = ledger.host.contents? transfer.field.tree := by
  rcases hending.prepared_or_put with ⟨-, hprepared⟩ | ⟨_, _, _, _, _, hok, -⟩
  · exact hprepared.contents? h _
  · cases hok.symm.trans hfailed

theorem others (hending : ledger.Ending transfer outcome left)
    (h : Placed ledger.fields ledger.host) {index : Nat} (hne : index ≠ transfer.field.tree) :
    left.contents? index = ledger.host.contents? index := by
  rcases hending.prepared_or_put with ⟨-, hprepared⟩ | ⟨_, _, _, _, mid, -, hobtains, hput⟩
  · exact hprepared.contents? h index
  · calc left.contents? index
        = mid.contents? index := (hput.contents? hobtains.placed hobtains.storage).2 index hne
      _ = ledger.host.contents? index := hobtains.prepared.contents? h index

theorem regions (hending : ledger.Ending transfer outcome left)
    (hbytes : ledger.host.memory.region? id = some bytes)
    (hother : (∃ failure, outcome = .error failure) ∨
      left.program.storage? transfer.field.tree ≠ some id) :
    left.memory.region? id = some bytes := by
  rcases hending.prepared_or_put with ⟨-, hprepared⟩ | ⟨_, _, _, _, mid, rfl, hobtains, hput⟩
  · exact hprepared.region? hbytes
  · have hne := hother.resolve_left nofun
    rw [hput.program, hobtains.storage] at hne
    rw [hput.others id fun heq => hne (heq ▸ rfl)]
    exact hobtains.prepared.region? hbytes

theorem contains (hending : ledger.Ending transfer outcome left)
    (h : Placed ledger.fields ledger.host) : ledger.Contains transfer outcome left where
  no_fault := hending.no_fault
  known := hending.known h
  beyond := hending.beyond h
  unserved _ := hending.unserved
  served _ := hending.served h
  moved _ := hending.moved h
  unchanged _ := hending.unchanged h
  others _ := hending.others h
  regions _ _ := hending.regions

end Ending

end Ledger

/-! ### Fields of other programs -/

/-- The request as a command on a program, whichever program declared the field. -/
def Request.command : Request → Command
  | read field offset length => .queryForeign field (.read offset length)
  | write field words offset => .updateForeign field (.write words offset)

theorem Request.command_run (request : Request) (fields : List Field) :
    request.command.run fields = request.run := by
  cases request <;> rfl

/-- A range within a declared field has a place with an address. -/
theorem Request.place_lt {request : Request} {transfer : Transfer}
    (hdeclared : request.field.Declared) (hcheck : request.check = .ok transfer) :
    transfer.place < Size.bound := by
  have howns : Tasks.Owns [request.field] transfer :=
    Tasks.owns_of_check List.mem_cons_self hcheck
  have hend := hdeclared.end_lt
  have hfits := howns.fits
  rw [List.mem_singleton.mp howns.mem] at hfits
  rw [Transfer.place, List.mem_singleton.mp howns.mem]
  omega

namespace Ledger

variable {ledger : Ledger}

theorem Regular.contains {request : Request} {transfer : Transfer} (h : ledger.Regular)
    (hroomy : ledger.host.Roomy) (hdeclared : request.field.Declared)
    (hcheck : request.check = .ok transfer) :
    ledger.Contains transfer (ledger.outcome request.command)
      (ledger.step request.command).host := by
  have hrun : Host.runs (request.command.run ledger.fields) ledger.host
      = Host.runs (Tasks.Point.looking transfer).rest ledger.host := by
    rw [Request.command_run, Tasks.runs_request, hcheck]
  have hending := Host.outcome_of_ends (P := ledger.Ending transfer)
    (h.ends_transfer hroomy (Request.place_lt hdeclared hcheck))
  rw [← hrun] at hending
  exact hending.contains h.placed

end Ledger

namespace Books

/-- **Fields of other programs do no harm.**  In every state that a session reaches, let some
program be asked to read or to write a range of a field that another one declared, the range being
within the field.  Nothing but the program that was asked is changed.  Without a tree of the same
position, or if the tree is left without storage, the transfer fails as `Contains` says, for want
of the tree or of memory; otherwise the range is compared with the size of the tree, and either
these bytes of the tree are moved or the error names the range and the size, and no byte has
changed. -/
theorem foreign_fields_contained (limits : List (Option Nat)) (history : List (Nat × Command))
    (hgenuine : ∀ entry ∈ history, entry.2.Genuine) :
    let now := (start limits).after history
    ∀ (index owner : Nat) (ledger : Ledger) (request : Request) (transfer : Transfer),
      now.ledger? index = some ledger → request.field ∈ now.fields owner →
      request.check = .ok transfer → ledger.host.Roomy →
        let later := now.step index request.command
        (∃ outcome left, now.outcome? index request.command = some outcome ∧
          later.ledger? index = some left ∧ ledger.Contains transfer outcome left.host) ∧
        ∀ other, other ≠ index →
          later.session.programs[other]? = now.session.programs[other]? ∧
            later.fields other = now.fields other := by
  intro now index owner ledger request transfer hledger hmem hcheck hroomy later
  have hregular : now.Regular := (regular_start limits).after history hgenuine
  have hcontains := (hregular.ledgers index ledger hledger).contains hroomy
    (hregular.declared owner request.field hmem) hcheck
  refine ⟨⟨_, _, outcome?_of_ledger? hledger _, ledger?_step_self hledger _, ?_⟩, ?_⟩
  · exact { hcontains with }
  · intro other hne
    exact now.frame_step request.command hne

/-- A field of sixteen bytes behind another one of eight, used with a program whose only tree has
sixteen bytes.  The field as a whole does not fit; its second word is the last one of the tree. -/
theorem foreign_fields_contained_shorter :
    let history : List (Nat × Command) :=
      [(0, .declare (.scalar .i32) [2]), (0, .declare (.scalar .i32) [4]),
        (1, .declare (.scalar .i32) [4]), (1, .update 0 (.write [1, 2, 3, 4] none))]
    let now := (start [none, some 16]).after history
    (∀ entry ∈ history, entry.2.Genuine) ∧
      ∃ field ∈ now.fields 0, field.offset = 8 ∧ field.size = 16 ∧
        now.outcome? 1 (.queryForeign field (.read none none))
          = some (.error (.error (.device (.outOfRange 8 16 16)))) ∧
        now.outcome? 1 (.updateForeign field (.write [7] (some 4))) = some (.ok .done) ∧
        let later := now.step 1 (.updateForeign field (.write [7] (some 4)))
        later.session.programs[0]? = now.session.programs[0]? ∧
          ∃ left, later.ledger? 1 = some left ∧ left.host.contents? 0
            = some [1, 0, 0, 0, 2, 0, 0, 0, 3, 0, 0, 0, 7, 0, 0, 0] := by
  intro history now
  have hgenuine : ∀ entry ∈ history, entry.2.Genuine := by simp [history, Command.Genuine]
  obtain ⟨field, ledger, tree, hmem, hoffset, hsize, htree, hledger, hnil, hget, hlength,
      hmaterialized, hbytes⟩ : ∃ field ledger tree, field ∈ now.fields 0 ∧ field.offset = 8 ∧
        field.size = 16 ∧ field.tree = 0 ∧ now.ledger? 1 = some ledger ∧
        ledger.host.program.pending = [] ∧ ledger.host.program.trees[0]? = some tree ∧
        tree.size = 16 ∧ ledger.outcome .materialize = .ok .done ∧
        ledger.host.contents? 0 = some (bytesOfWords [1, 2, 3, 4]) :=
    ⟨_, _, _, List.mem_cons_of_mem _ List.mem_cons_self, rfl, rfl, rfl, rfl, rfl, rfl, rfl, rfl,
      rfl⟩
  have hroomy : ledger.host.Roomy := by
    intro entry hentry
    rw [hnil] at hentry
    cases hentry
  have hwhole : (Request.read field none none).check = .ok ⟨field, 0, .read 16⟩ := by
    rw [Request.check, Field.range_eq, Field.stop, hsize]
    rfl
  have hword : (Request.write field [7] (some 4)).check = .ok ⟨field, 4, .write [7]⟩ := by
    rw [Request.check, Field.range_eq, Field.stop, hsize]
    rfl
  have hplace : ∀ offset payload, (⟨field, offset, payload⟩ : Transfer).place = 8 + offset :=
    fun offset payload => congrArg (· + offset) hoffset
  obtain ⟨⟨refusal, _, hrefusal, _, hrefused⟩, -⟩ := foreign_fields_contained [none, some 16]
    history hgenuine 1 0 ledger (.read field none none) _ hledger hmem hwhole hroomy
  obtain ⟨⟨answer, left, hanswer, hleft, hdone⟩, hothers⟩ :=
    foreign_fields_contained [none, some 16] history hgenuine 1 0 ledger
      (.write field [7] (some 4)) _ hledger hmem hword hroomy
  rw [← htree] at hget
  have haligned : ∀ offset payload, offset % wordBytes = 0 → payload.length % wordBytes = 0 →
      (⟨field, offset, payload⟩ : Transfer).Aligned := by
    intro offset payload hstart hcount
    exact ⟨by rw [hplace, Nat.add_mod, hstart]; rfl, hcount⟩
  have hbeyond : tree.size < 8 + 0 + 16 := by omega
  have hfits : 8 + 4 + [7].length * wordBytes ≤ tree.size := Nat.le_of_eq hlength.symm
  have hfails := (hrefused.checked hget hmaterialized).outOfRange (haligned 0 _ rfl rfl)
    ((hplace 0 _).symm ▸ hbeyond)
  obtain ⟨reply, rfl⟩ := (hdone.checked hget hmaterialized).succeeds_iff.mpr
    ⟨haligned 4 _ rfl rfl, (hplace 4 _).symm ▸ hfits⟩
  obtain ⟨bytes, hold, rfl, hnew⟩ := hdone.moved reply rfl
  simp only [htree, hplace] at hold hnew
  cases hbytes.symm.trans hold
  simp only [hplace, hlength] at hfails
  rw [hfails] at hrefusal
  exact ⟨hgenuine, field, hmem, hoffset, hsize, hrefusal, hanswer, (hothers 0 Nat.zero_ne_one).1, left,
    hleft, hnew⟩

end Books

end FieldStore
