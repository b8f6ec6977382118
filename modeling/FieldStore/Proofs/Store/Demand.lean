/-
What a request wants before it goes to the device.

A request is checked first, by its field alone.  What is left then is a demand for storage: none,
that of the field's own tree, or that of every tree.  The demand is met by the host as it is or by
a materialization, and only then does a range of bytes move.  So a request without a reply has
failed in one of four places, and in each of them it is known which host it leaves: the one it
began with, the one that a materialization leaves half-way, or the one with the storage.

What is read is decoded and folded after the transfer, which could be a fifth place.  But the
words of a field always decode, and there are always as many as its shape calls for, so nothing
goes wrong there unless the result has no room.
-/
import FieldStore.Proofs.Store.Access

namespace FieldStore

variable {fields : List Field} {host host' mid : Host} {field : Field}

/-! ### Demands -/

/-- The storage that a request wants. -/
inductive Demand
  | nothing
  /-- That of the tree of its field. -/
  | own
  /-- That of every tree. -/
  | all

namespace Demand

/-- Whether a materialization is to come first. -/
def Wants (host : Host) (tree : Nat) : Demand → Prop
  | nothing => False
  | own => host.program.storage? tree = none
  | all => True

/-- The host on which a demand is met. -/
inductive Met (demand : Demand) (host : Host) (tree : Nat) : Host → Prop
  | found (hwants : ¬ demand.Wants host tree) : Met demand host tree host
  | made (hwants : demand.Wants host tree) (hgrants : host.GrantsAll) :
      Met demand host tree (host.closed.supply host.program.pending)

/-- How a demand fails to be met, and the host that is left then. -/
inductive Unmet (demand : Demand) (host : Host) (tree : Nat) : Failure FieldError → Host → Prop
  | refused {failure : Failure FieldError} {host' : Host} (hwants : demand.Wants host tree)
      (hfalters : host.Falters failure host') : Unmet demand host tree failure host'
  /-- Every tree of the program has storage, and the one that is asked for is none of them. -/
  | absent (hwants : demand.Wants host tree) (hgrants : host.GrantsAll)
      (hbeyond : host.program.trees.length ≤ tree) :
      Unmet demand host tree (.error (.notMaterialized tree))
        (host.closed.supply host.program.pending)

variable {demand : Demand} {tree : Nat}

theorem Met.kept (h : Placed fields host) (hmet : demand.Met host tree mid) :
    Host.Kept fields host mid := by
  cases hmet with
  | found => exact .refl h
  | made => exact (Host.kept_closed_supply h (List.append_nil _).symm).1

/-- There is nothing to be made on a host none of whose trees wants storage. -/
theorem Met.eq_of_pending_nil (hnil : host.program.pending = []) (hmet : demand.Met host tree mid) :
    mid = host := by
  cases hmet with
  | found => rfl
  | made =>
      rw [hnil]
      exact Host.closed_of_pending_nil hnil

end Demand

namespace Host

theorem ends_materialize_demand (tree : Nat) (h : Placed fields host) :
    Ends materialize host (fun _ host' => Demand.all.Met host tree host' ∧
        host'.program.pending = []) (Demand.all.Unmet host tree) := by
  refine ends_mono (ends_materialize_supply h) ?_ fun _ _ => .refused trivial
  intro _ host' hend
  obtain ⟨hgrants, rfl⟩ := hend
  exact ⟨.made trivial hgrants, (kept_closed_supply h (List.append_nil _).symm).2⟩

theorem ends_requireStorage_demand {tree : Nat} (h : Placed fields host) :
    Ends (requireStorage tree) host
      (fun id host' => Demand.own.Met host tree host' ∧ host'.program.storage? tree = some id)
      (Demand.own.Unmet host tree) := by
  unfold requireStorage
  rw [ends_bind, ends_get]
  cases hstorage : host.program.storage? tree with
  | some id =>
      refine ⟨.found ?_, hstorage⟩
      rw [Demand.Wants, hstorage]
      exact nofun
  | none =>
      show Ends (materialize >>= _) host _ _
      rw [ends_bind]
      refine ends_mono (ends_materialize_supply h) ?_ fun _ _ => .refused hstorage
      intro _ host' hend
      obtain ⟨hgrants, rfl⟩ := hend
      obtain ⟨hkept, hnil⟩ := kept_closed_supply h (List.append_nil _).symm
      rw [ends_bind, ends_get]
      cases hstorage' : (host.closed.supply host.program.pending).program.storage? tree with
      | some id => exact ⟨.made hstorage hgrants, hstorage'⟩
      | none =>
          refine .absent hstorage hgrants (Nat.le_of_not_lt fun hlt => ?_)
          rw [← hkept.grown.trees.length] at hlt
          have hsome := isSome_storage?_of_pending_nil hkept.placed hnil hlt
          rw [hstorage'] at hsome
          cases hsome

end Host

/-! ### Transfers -/

/-- A field that can be counted: what is known of every field that was ever declared, in whatever
program. -/
structure Field.Sound (field : Field) : Prop where
  check : field.type.check = .ok ()
  listable : field.type.slotCount ≤ Size.objectLimit
  size_eq : field.size = field.wordCount * wordBytes
  size_lt : field.size < Size.bound

theorem Arranged.sound {trees : List Tree} (h : Arranged fields trees) (hmem : field ∈ fields) :
    field.Sound := by
  obtain ⟨hcheck, hfits⟩ := h.valid field hmem
  have hend := h.end_lt hmem
  exact ⟨hcheck, hfits, h.size_eq field hmem, by omega⟩

theorem Field.Sound.prod_lt (h : field.Sound) : field.shape.dims.prod < Size.bound := by
  have hle : field.shape.dims.prod ≤ field.size := by
    rw [h.size_eq, wordCount, Nat.mul_assoc]
    exact Nat.le_mul_of_pos_right _
      (Nat.mul_pos (ElementType.slotCount_pos h.check) wordBytes_pos)
  exact Nat.lt_of_le_of_lt hle h.size_lt

theorem Field.Sound.range_whole (h : field.Sound) :
    field.range none none = .ok (0, field.size) :=
  range_of_stop_le h.size_lt (Nat.le_of_eq (Nat.zero_add _))

/-- As many words as an element has slots are an element. -/
theorem Field.Sound.decode_element (h : field.Sound) {indices : List Nat} {offset length : Nat}
    {words : List Word} (hrange : field.byteRange indices = .ok (offset, length))
    (hlen : words.length * wordBytes = length) :
    field.type.decode (Lanes.ofWords words) = .ok (field.type.held (Lanes.ofWords words)) := by
  obtain ⟨-, rfl, -⟩ := byteRange_eq_ok hrange
  exact ElementType.decodeWords_eq h.listable (Nat.eq_of_mul_eq_mul_right wordBytes_pos hlen)

/-- As many words as the field has are its elements. -/
theorem Field.Sound.decodeAll (h : field.Sound) {words : List Word}
    (hlen : words.length * wordBytes = field.size) :
    field.type.decodeAll (Lanes.ofWords words) = .ok (field.elements words) := by
  rw [h.size_eq] at hlen
  exact decodeAll_words h.check h.listable (Nat.eq_of_mul_eq_mul_right wordBytes_pos hlen)

/-- Nothing goes wrong with an array of elements unless it has no room. -/
theorem Field.Sound.reshape_eq_error (h : field.Sound) {words : List Word}
    {failure : Failure FieldError}
    (hfailed : NdArray.reshape (field.elements words) field.shape.dims = .error failure) :
    failure = .fault .capacity :=
  NdArray.reshape_eq_error field.shape.dims_ne_nil field.shape.dims_pos h.prod_lt
    (by simp [elements]) hfailed

/-- The demand of a transfer of a range. -/
def Field.rangeDemand (field : Field) (offset length : Option Nat) : Outcome FieldError Demand := do
  let _ ← field.range offset length
  return .own

/-- What a query wants, once it has been checked. -/
def Query.demand (field : Field) : Query → Outcome FieldError Demand
  | read offset length => field.rangeDemand offset length
  | get indices => do
      let (offset, length) ← field.byteRange indices
      field.rangeDemand (some offset) (some length)
  | toArray => .ok .all
  | toNumbers =>
      match field.type.primitive? with
      | none => .ok .nothing
      | some _ => field.rangeDemand none none

/-- What an update wants, once it has been checked. -/
def Update.demand (field : Field) (change : Update) : Outcome FieldError Demand := do
  let (words, offset) ← change.payload field
  field.rangeDemand offset (some (words.length * wordBytes))

/-- The program and the limit are the same; bytes may have moved. -/
structure Host.Moved (host host' : Host) : Prop where
  program : host'.program = host.program
  limit : host'.memory.limit = host.memory.limit

theorem Host.Moved.refl (host : Host) : host.Moved host := ⟨rfl, rfl⟩

/-- How a request goes on to the transfer. -/
inductive Granted (wanted : Outcome FieldError Demand) (host : Host) (tree : Nat) : Host → Prop
  | intro {demand : Demand} {mid host' : Host} (hwanted : wanted = .ok demand)
      (hmet : demand.Met host tree mid) (hmoved : mid.Moved host') : Granted wanted host tree host'

/-- How a request ends without a reply, and the host that it leaves. -/
inductive Denied (wanted : Outcome FieldError Demand) (host : Host) (tree : Nat) :
    Failure FieldError → Host → Prop
  /-- It was not right, and nothing was done. -/
  | refused {failure : Failure FieldError} (hwanted : wanted = .error failure) :
      Denied wanted host tree failure host
  | unmet {demand : Demand} {failure : Failure FieldError} {host' : Host}
      (hwanted : wanted = .ok demand) (hunmet : demand.Unmet host tree failure host') :
      Denied wanted host tree failure host'
  /-- The device refused the range, which leaves it as it was. -/
  | missed {demand : Demand} {mid : Host} {cause : DeviceError} (hwanted : wanted = .ok demand)
      (hmet : demand.Met host tree mid) : Denied wanted host tree (.error (.device cause)) mid
  /-- The place in the tree has no address, or the result has no room. -/
  | faulted {demand : Demand} {mid host' : Host} {reason : Fault} (hwanted : wanted = .ok demand)
      (hmet : demand.Met host tree mid) (hmoved : mid.Moved host') :
      Denied wanted host tree (.fault reason) host'

/-! ### The limit

Whatever a request does, the limit of the memory is as before. -/

section Limit

variable {wanted : Outcome FieldError Demand} {tree : Nat}

theorem Host.Falters.limit {failure : Failure FieldError} (h : host.Falters failure host') :
    host'.memory.limit = host.memory.limit := by
  obtain ⟨given, index, size, rest, -, -, hrefuses⟩ := h
  have hsame : (host.closed.supply given).memory.limit = host.memory.limit := limit_supply given _
  cases hrefuses with
  | limit => exact hsame
  | room => exact hsame

theorem Demand.Met.limit {demand : Demand} (hmet : demand.Met host tree mid) :
    mid.memory.limit = host.memory.limit := by
  cases hmet with
  | found => rfl
  | made => exact Host.limit_supply _ _

theorem Granted.limit (h : Granted wanted host tree host') :
    host'.memory.limit = host.memory.limit := by
  cases h with
  | intro _ hmet hmoved => exact hmoved.limit.trans hmet.limit

theorem Denied.limit {failure : Failure FieldError} (h : Denied wanted host tree failure host') :
    host'.memory.limit = host.memory.limit := by
  cases h with
  | refused => rfl
  | unmet _ hunmet =>
      cases hunmet with
      | refused _ hfalters => exact hfalters.limit
      | absent => exact Host.limit_supply _ _
  | missed _ hmet => exact hmet.limit
  | faulted _ hmet hmoved => exact hmoved.limit.trans hmet.limit

end Limit

namespace Field

variable {offset length : Option Nat}

/-- How the transfer of a range ends before any byte has moved, and the host that is left then. -/
inductive Halts (field : Field) (offset length : Option Nat) (host : Host) :
    Failure FieldError → Host → Prop
  /-- The range does not lie within the field. -/
  | range {failure : Failure FieldError} (hrange : field.range offset length = .error failure) :
      Halts field offset length host failure host
  | storage {range : Nat × Nat} {failure : Failure FieldError} {host' : Host}
      (hrange : field.range offset length = .ok range)
      (hunmet : Demand.own.Unmet host field.tree failure host') :
      Halts field offset length host failure host'
  /-- The place in the tree has no address. -/
  | address {range : Nat × Nat} {mid : Host} (hrange : field.range offset length = .ok range)
      (hmet : Demand.own.Met host field.tree mid) :
      Halts field offset length host (.fault .overflow) mid
  /-- The device has refused the range. -/
  | device {range : Nat × Nat} {mid : Host} {cause : DeviceError}
      (hrange : field.range offset length = .ok range)
      (hmet : Demand.own.Met host field.tree mid) :
      Halts field offset length host (.error (.device cause)) mid

/-- An access, once the storage is there, either moves bytes or fails on the device. -/
theorem ends_access_halts {α : Type} (transfer : TreeId → Nat → Nat → HostM DeviceError α)
    (R : TreeId → Nat → Nat → Host → α → Host → Prop) (h : Placed fields host)
    (htransfer : ∀ id start count (mid : Host), Host.Ends (transfer id start count) mid
      (R id start count mid)
      fun failure host' => host' = mid ∧ ∃ cause, failure = .error cause) :
    Host.Ends (field.access offset length transfer) host
      (fun a host' => ∃ start count id mid, field.range offset length = .ok (start, count) ∧
        Demand.own.Met host field.tree mid ∧ mid.program.storage? field.tree = some id ∧
        R id (field.offset + start) count mid a host')
      (field.Halts offset length host) := by
  refine ends_access (fun _ _ id mid =>
    Demand.own.Met host field.tree mid ∧ mid.program.storage? field.tree = some id)
    (fun _ => .range) ?_ ?_ ?_
  · intro start count hrange
    exact Host.ends_mono (Host.ends_requireStorage_demand h) (fun _ _ hend => hend)
      fun _ _ => .storage hrange
  · intro start count id mid hrange hend _
    exact .address hrange hend.1
  · intro start count id mid hrange hend
    obtain ⟨hmet, hstorage⟩ := hend
    refine Host.ends_mono (htransfer id (field.offset + start) count mid) ?_ ?_
    · intro a host' hmoved
      exact ⟨start, count, id, mid, hrange, hmet, hstorage, hmoved⟩
    · intro failure host' hfailed
      obtain ⟨rfl, cause, rfl⟩ := hfailed
      exact .device hrange hmet

/-- What is read is a run of words of the length that was asked for. -/
theorem ends_read_halts (h : Placed fields host) :
    Host.Ends (field.read offset length) host
      (fun lanes host' => ∃ start count id mid, field.range offset length = .ok (start, count) ∧
        Demand.own.Met host field.tree mid ∧ mid.program.storage? field.tree = some id ∧
        (∃ words, lanes = Lanes.ofWords words ∧ words.length * wordBytes = count) ∧
        host' = { mid with memory := mid.memory.afterRead id (field.offset + start) count })
      (field.Halts offset length host) := by
  rw [read_eq_access]
  refine ends_access_halts Host.readRegion (fun id start count mid lanes host' =>
    (∃ words, lanes = Lanes.ofWords words ∧ words.length * wordBytes = count) ∧
      host' = { mid with memory := mid.memory.afterRead id start count }) h ?_
  intro id start count mid
  refine Host.ends_readRegion ?_ ?_
  · intro bytes _ hcheck
    obtain ⟨-, haligned, -, hfits⟩ := checkRange_eq_ok_iff.mp hcheck
    have hcount : count = count / wordBytes * wordBytes :=
      (Nat.div_mul_cancel (Nat.dvd_of_mod_eq_zero haligned)).symm
    refine ⟨⟨_, rfl, ?_⟩, rfl⟩
    rw [length_wordsOfBytes ((length_window hfits).trans hcount), ← hcount]
  · intro failure hfailed
    exact ⟨rfl, HostMemory.read_eq_error hfailed⟩

theorem ends_write_halts {words : List Word} (h : Placed fields host) :
    Host.Ends (field.write words offset) host
      (fun _ host' => ∃ start count id mid,
        field.range offset (some (words.length * wordBytes)) = .ok (start, count) ∧
        Demand.own.Met host field.tree mid ∧ mid.program.storage? field.tree = some id ∧
        ∃ bytes, mid.memory.region? id = some bytes ∧
          host' = mid.written id (field.offset + start) words bytes)
      (field.Halts offset (some (words.length * wordBytes)) host) := by
  rw [write_eq_access]
  refine ends_access_halts (fun id start _ => Host.writeRegion id start words)
    (fun id start _ mid _ host' => ∃ bytes, mid.memory.region? id = some bytes ∧
      host' = mid.written id start words bytes) h ?_
  intro id start count mid
  refine Host.ends_writeRegion ?_ ?_
  · intro bytes hbytes _
    exact ⟨bytes, hbytes, rfl⟩
  · intro failure hfailed
    exact ⟨rfl, HostMemory.write_eq_error hfailed⟩

theorem rangeDemand_eq_ok {range : Nat × Nat} (hrange : field.range offset length = .ok range) :
    field.rangeDemand offset length = .ok .own := by
  rw [rangeDemand, hrange]
  rfl

theorem Halts.denied {failure : Failure FieldError}
    (h : field.Halts offset length host failure host') :
    Denied (field.rangeDemand offset length) host field.tree failure host' := by
  cases h with
  | range hrange =>
      refine .refused ?_
      rw [rangeDemand, hrange]
      rfl
  | storage hrange hunmet => exact .unmet (rangeDemand_eq_ok hrange) hunmet
  | address hrange hmet => exact .faulted (rangeDemand_eq_ok hrange) hmet (.refl host')
  | device hrange hmet => exact .missed (rangeDemand_eq_ok hrange) hmet

theorem ends_read_demand (h : Placed fields host) :
    Host.Ends (field.read offset length) host
      (fun lanes host' => ∃ start count words, field.range offset length = .ok (start, count) ∧
        lanes = Lanes.ofWords words ∧ words.length * wordBytes = count ∧
        Granted (field.rangeDemand offset length) host field.tree host')
      (Denied (field.rangeDemand offset length) host field.tree) := by
  refine Host.ends_mono (ends_read_halts h) ?_ fun _ _ => Halts.denied
  intro lanes host' hend
  obtain ⟨start, count, id, mid, hrange, hmet, -, ⟨words, hlanes, hlen⟩, rfl⟩ := hend
  exact ⟨start, count, words, hrange, hlanes, hlen,
    .intro (rangeDemand_eq_ok hrange) hmet ⟨rfl, rfl⟩⟩

theorem ends_write_demand {words : List Word} (h : Placed fields host) :
    Host.Ends (field.write words offset) host
      (fun _ host' => Granted (field.rangeDemand offset (some (words.length * wordBytes))) host
        field.tree host')
      (Denied (field.rangeDemand offset (some (words.length * wordBytes))) host field.tree) := by
  refine Host.ends_mono (ends_write_halts h) ?_ fun _ _ => Halts.denied
  intro _ host' hend
  obtain ⟨start, count, id, mid, hrange, hmet, -, bytes, -, rfl⟩ := hend
  exact .intro (rangeDemand_eq_ok hrange) hmet ⟨rfl, rfl⟩

end Field

/-! ### Requests -/

/-- What follows a materialization finds all the storage that there is. -/
theorem Granted.after_all {demand : Demand} {wanted : Outcome FieldError Demand} {tree : Nat}
    (hwanted : wanted = .ok demand) (hmet : demand.Met host tree mid)
    (hnil : mid.program.pending = []) {later : Outcome FieldError Demand}
    (h : Granted later mid tree host') : Granted wanted host tree host' := by
  cases h with
  | intro _ hmet' hmoved =>
      cases hmet'.eq_of_pending_nil hnil
      exact .intro hwanted hmet hmoved

theorem Denied.after_all {later : Outcome FieldError Demand} {next : Demand} {tree : Nat}
    {failure : Failure FieldError} (hmet : Demand.all.Met host tree mid)
    (hlength : mid.program.trees.length = host.program.trees.length)
    (hnil : mid.program.pending = []) (hlater : later = .ok next)
    (h : Denied later mid tree failure host') : Denied (.ok .all) host tree failure host' := by
  cases h with
  | refused hwanted =>
      rw [hlater] at hwanted
      cases hwanted
  | unmet _ hunmet =>
      cases hunmet with
      | refused _ hfalters =>
          obtain ⟨given, index, size, rest, hpending, -⟩ := hfalters
          rw [hnil] at hpending
          simp at hpending
      | absent hwants hgrants hbeyond =>
          rw [(Demand.Met.made hwants hgrants).eq_of_pending_nil hnil]
          cases hmet with
          | found hno => exact absurd trivial hno
          | made hwants' hgrants' => exact .unmet rfl (.absent hwants' hgrants' (hlength ▸ hbeyond))
  | missed _ hmet' =>
      cases hmet'.eq_of_pending_nil hnil
      exact .missed rfl hmet
  | faulted _ hmet' hmoved =>
      cases hmet'.eq_of_pending_nil hnil
      exact .faulted rfl hmet hmoved

/-- An element that has been read is decoded. -/
theorem Field.ends_get_demand (indices : List Nat) (h : Placed fields host)
    (hsound : field.Sound) :
    Host.Ends (field.get indices) host
      (fun _ host' => Granted ((Query.get indices).demand field) host field.tree host')
      (Denied ((Query.get indices).demand field) host field.tree) := by
  unfold get
  rw [Host.ends_bind]
  refine Host.ends_lift ?_ ?_
  · intro pair hrange
    obtain ⟨offset, length⟩ := pair
    have hwanted : (Query.get indices).demand field
        = field.rangeDemand (some offset) (some length) := by
      rw [Query.demand, hrange]
      rfl
    rw [hwanted, Host.ends_bind]
    refine Host.ends_mono (ends_read_demand h) ?_ fun _ _ hdenied => hdenied
    intro lanes host' hend
    obtain ⟨start, count, words, hpart, rfl, hlen, hgranted⟩ := hend
    obtain ⟨-, rfl, -⟩ := range_eq_ok hpart
    rw [hsound.decode_element hrange hlen, Host.ends_ok]
    exact hgranted
  · intro failure hrange
    refine .refused ?_
    rw [Query.demand, hrange]
    rfl

/-- After a materialization, all that can go wrong with an array is that it has no room. -/
theorem Field.ends_toArray_demand (h : Placed fields host) (hsound : field.Sound) :
    Host.Ends field.toArray host (fun _ host' => Granted (.ok .all) host field.tree host')
      (Denied (.ok .all) host field.tree) := by
  have hlater : field.rangeDemand none none = .ok .own := by
    rw [rangeDemand, hsound.range_whole]
    rfl
  unfold toArray
  rw [Host.ends_bind]
  refine Host.ends_mono (Host.ends_materialize_demand field.tree h) ?_ fun _ _ => .unmet rfl
  intro _ mid hend
  obtain ⟨hmet, hnil⟩ := hend
  have hkept := hmet.kept h
  rw [Host.ends_bind]
  refine Host.ends_mono (ends_read_demand hkept.placed) ?_
    fun _ _ => Denied.after_all hmet hkept.grown.trees.length hnil hlater
  intro lanes host' hend
  obtain ⟨start, count, words, hwhole, rfl, hlen, hgranted⟩ := hend
  have hall : Granted (.ok .all) host field.tree host' := hgranted.after_all rfl hmet hnil
  cases hsound.range_whole.symm.trans hwhole
  rw [hsound.decodeAll hlen, Host.ends_bind, Host.ends_ok]
  refine Host.ends_lift (fun _ _ => hall) ?_
  intro failure hfailed
  cases hsound.reshape_eq_error hfailed
  cases hall with
  | intro hwanted hmet' hmoved => exact .faulted hwanted hmet' hmoved

/-- **How a query ends**: with a reply, when its demand has been met, or at one of four places. -/
theorem ends_query_demand (request : Query) (h : Placed fields host) (hsound : field.Sound) :
    Host.Ends (request.run field) host
      (fun _ host' => Granted (request.demand field) host field.tree host')
      (Denied (request.demand field) host field.tree) := by
  have hread : ∀ {offset length : Option Nat}, Host.Ends (field.read offset length) host
      (fun _ host' => Granted (field.rangeDemand offset length) host field.tree host')
      (Denied (field.rangeDemand offset length) host field.tree) :=
    Host.ends_mono (Field.ends_read_demand h)
      (fun _ _ ⟨_, _, _, _, _, _, hgranted⟩ => hgranted) fun _ _ hdenied => hdenied
  cases request with
  | read offset length =>
      unfold Query.run
      rw [Host.ends_bind]
      exact hread
  | get indices =>
      unfold Query.run
      rw [Host.ends_bind]
      exact Field.ends_get_demand indices h hsound
  | toArray =>
      unfold Query.run
      rw [Host.ends_bind]
      exact Field.ends_toArray_demand h hsound
  | toNumbers =>
      unfold Query.run Field.toNumbers Query.demand
      rw [Host.ends_bind]
      cases field.type.primitive? with
      | none => exact .intro rfl (.found id) ⟨rfl, rfl⟩
      | some primitive =>
          show Host.Ends (field.read none none >>= _) host _ _
          rw [Host.ends_bind]
          exact hread

/-- **How an update ends**, likewise. -/
theorem ends_update_demand (change : Update) (h : Placed fields host) :
    Host.Ends (change.run field) host
      (fun _ host' => Granted (change.demand field) host field.tree host')
      (Denied (change.demand field) host field.tree) := by
  rw [Update.run_eq, Host.ends_bind]
  refine Host.ends_lift ?_ ?_
  · intro pair hpayload
    obtain ⟨words, offset⟩ := pair
    have hwanted : change.demand field
        = field.rangeDemand offset (some (words.length * wordBytes)) := by
      rw [Update.demand, hpayload]
      rfl
    rw [hwanted]
    exact Field.ends_write_demand h
  · intro failure hpayload
    refine .refused ?_
    rw [Update.demand, hpayload]
    rfl

/-! ### Commands -/

/-- A command that materializes, reads or writes a field, or does nothing to the host. -/
def Command.IsRequest : Command → Prop
  | materialize | query _ _ | update _ _ | queryForeign _ _ | updateForeign _ _ | drawId => True
  | declare _ _ | allocate _ | readRegion _ _ _ | writeRegion _ _ _ => False

/-- What a command wants, once it has been checked. -/
def Command.demand (fields : List Field) : Command → Outcome FieldError Demand
  | materialize => .ok .all
  | query number request =>
      match fields[number]? with
      | some field => request.demand field
      | none => .ok .nothing
  | update number change =>
      match fields[number]? with
      | some field => change.demand field
      | none => .ok .nothing
  | queryForeign field request => request.demand field
  | updateForeign field change => change.demand field
  | _ => .ok .nothing

/-- The tree of the field that a command is about. -/
def Command.target (fields : List Field) : Command → Nat
  | query number _ | update number _ =>
      match fields[number]? with
      | some field => field.tree
      | none => 0
  | queryForeign field _ | updateForeign field _ => field.tree
  | _ => 0

/-- **A command is granted what it wants or denied.** -/
theorem Command.ends_demand {command : Command} (h : Placed fields host)
    (hrequest : command.IsRequest)
    (hsound : ∀ field request, command = .queryForeign field request → field.Sound) :
    Host.Ends (command.run fields) host
      (fun _ host' => Granted (command.demand fields) host (command.target fields) host')
      (Denied (command.demand fields) host (command.target fields)) := by
  have hnothing : ∀ {host' : Host}, host.Moved host' → Granted (.ok .nothing) host 0 host' :=
    fun hmoved => .intro rfl (.found id) hmoved
  cases command with
  | materialize =>
      unfold run
      rw [Host.ends_bind]
      refine Host.ends_mono (Host.ends_materialize_demand 0 h) ?_ fun _ _ => .unmet rfl
      intro _ host' hend
      exact .intro rfl hend.1 (.refl host')
  | query number request =>
      cases hfield : fields[number]? with
      | none =>
          simp only [run, demand, target, hfield]
          exact hnothing (.refl host)
      | some field =>
          simp only [run, demand, target, hfield]
          exact ends_query_demand request h (h.toArranged.sound (List.mem_of_getElem? hfield))
  | update number change =>
      cases hfield : fields[number]? with
      | none =>
          simp only [run, demand, target, hfield]
          exact hnothing (.refl host)
      | some field =>
          simp only [run, demand, target, hfield]
          rw [Host.ends_bind]
          exact ends_update_demand change h
  | queryForeign field request => exact ends_query_demand request h (hsound field request rfl)
  | updateForeign field change =>
      unfold run
      rw [Host.ends_bind]
      exact ends_update_demand change h
  | drawId => exact hnothing ⟨rfl, rfl⟩
  | declare | allocate | readRegion | writeRegion => exact hrequest.elim

end FieldStore
