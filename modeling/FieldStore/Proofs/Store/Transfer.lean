/-
What a transfer does to a host.

A read or a write of a field first sees to the storage of its tree, which only makes the host
grow, and then moves one range of the region.  A write overwrites the range and leaves every
region as long as it was, so the placement does not notice.  Nothing is asked of the field here:
it may come from another program, and then the transfer ends in whatever tree of this one has
the same position.
-/
import FieldStore.Proofs.Store.Materialize

namespace FieldStore

variable {fields : List Field} {host host' host'' : Host}

/-! ### What lasts -/

/-- A tree that has storage never changes. -/
def Lasting (host host' : Host) : Prop :=
  ∀ (index : Nat) (tree : Tree), host.program.trees[index]? = some tree →
    tree.storage.isSome = true → host'.program.trees[index]? = some tree

/-- The placement still holds, and what had storage lasts. -/
structure Stays (fields : List Field) (host host' : Host) : Prop where
  placed : Placed fields host'
  lasting : Lasting host host'

theorem Lasting.trans (h : Lasting host host') (h' : Lasting host' host'') :
    Lasting host host'' :=
  fun index tree hget hsome => h' index tree (h index tree hget hsome) hsome

theorem Grown.lasting (h : Grown host host') : Lasting host host' := by
  intro index tree hget hsome
  obtain ⟨tree', hget', hbecomes⟩ := h.trees.becomes index tree hget
  rw [hget', hbecomes.kept hsome]

theorem Host.Kept.stays (h : Host.Kept fields host host') : Stays fields host host' :=
  ⟨h.placed, h.grown.lasting⟩

/-! ### Writing into a region -/

theorem size?_afterWrite {memory : HostMemory} {id other : TreeId} {offset : Nat}
    {words : List Word} {bytes : List Byte} (hbytes : memory.region? id = some bytes)
    (hrange : checkRange offset (words.length * wordBytes) bytes.length = .ok ()) :
    (memory.afterWrite id offset words bytes).size? other = memory.size? other := by
  by_cases hid : other = id
  · have hfits : offset + (bytesOfWords words).length ≤ bytes.length := by
      rw [length_bytesOfWords]
      exact (checkRange_eq_ok_iff.mp hrange).2.2.2
    rw [hid, HostMemory.size?, HostMemory.region?_afterWrite_self hbytes, HostMemory.size?, hbytes]
    exact congrArg some (length_overwrite hfits)
  · rw [HostMemory.size?, HostMemory.region?_afterWrite_of_ne hid, HostMemory.size?]

/-- The host after a write into one of its regions. -/
def Host.written (host : Host) (id : TreeId) (offset : Nat) (words : List Word)
    (bytes : List Byte) : Host :=
  { host with memory := host.memory.afterWrite id offset words bytes }

theorem stays_written {id : TreeId} {offset : Nat} {words : List Word} {bytes : List Byte}
    (h : Placed fields host) (hbytes : host.memory.region? id = some bytes)
    (hrange : checkRange offset (words.length * wordBytes) bytes.length = .ok ()) :
    Stays fields host (host.written id offset words bytes) := by
  have hsizes : ∀ other, (host.memory.afterWrite id offset words bytes).size? other
      = host.memory.size? other := fun other => size?_afterWrite hbytes hrange
  refine ⟨⟨h.toArranged, h.toBacked.carry (fun _ _ _ => Iff.rfl) ?_ ?_⟩, fun _ _ hget _ => hget⟩
  · intro other size hsize
    exact (hsizes other).trans hsize
  · intro other bytes' hbytes'
    have hknown : (host.memory.afterWrite id offset words bytes).region? other = some bytes' :=
      hbytes'
    have hsize := hsizes other
    rw [HostMemory.size?, hknown] at hsize
    obtain ⟨old, hold, -⟩ := Option.map_eq_some_iff.mp hsize.symm
    exact h.fresh other old hold

namespace Field

/-! ### Ranges of a field -/

/-- The first byte behind a range, whether or not it has an address. -/
def stop (field : Field) (offset length : Option Nat) : Nat :=
  offset.getD 0 + length.getD (field.size - offset.getD 0)

/-- What becomes of a range is told by where it ends. -/
theorem range_eq (field : Field) (offset length : Option Nat) :
    field.range offset length =
      if Size.bound ≤ field.stop offset length then .error (.fault .overflow)
      else if field.size < field.stop offset length then
        .error (.error (.sizeMismatch field.size (field.stop offset length)))
      else .ok (offset.getD 0, length.getD (field.size - offset.getD 0)) := by
  unfold range stop Size.add
  dsimp only
  by_cases hbound : Size.bound ≤ offset.getD 0 + length.getD (field.size - offset.getD 0)
  · rw [if_pos hbound, if_neg (Nat.not_lt.mpr hbound)]
    rfl
  · rw [if_neg hbound, if_pos (Nat.lt_of_not_le hbound)]
    rfl

/-- A range that ends within the field. -/
theorem range_of_stop_le {field : Field} {offset length : Option Nat}
    (hbound : field.size < Size.bound) (hle : field.stop offset length ≤ field.size) :
    field.range offset length
      = .ok (offset.getD 0, length.getD (field.size - offset.getD 0)) := by
  rw [range_eq, if_neg (by omega), if_neg (Nat.not_lt.mpr hle)]

theorem range_eq_ok {field : Field} {offset length : Option Nat} {start count : Nat}
    (h : field.range offset length = .ok (start, count)) :
    start = offset.getD 0 ∧ count = length.getD (field.size - offset.getD 0) ∧
      start + count ≤ field.size := by
  rw [range_eq] at h
  by_cases hbound : Size.bound ≤ field.stop offset length
  · rw [if_pos hbound] at h
    cases h
  · rw [if_neg hbound] at h
    by_cases hlt : field.size < field.stop offset length
    · rw [if_pos hlt] at h
      cases h
    · rw [if_neg hlt] at h
      cases h
      exact ⟨rfl, rfl, Nat.le_of_not_lt hlt⟩

theorem range_eq_error {field : Field} {offset length : Option Nat} {failure : Failure FieldError}
    (h : field.range offset length = .error failure) :
    failure = .fault .overflow ∨ ∃ stop, failure = .error (.sizeMismatch field.size stop) := by
  rw [range_eq] at h
  by_cases hbound : Size.bound ≤ field.stop offset length
  · rw [if_pos hbound] at h
    cases h
    exact Or.inl rfl
  · rw [if_neg hbound] at h
    by_cases hlt : field.size < field.stop offset length
    · rw [if_pos hlt] at h
      cases h
      exact Or.inr ⟨_, rfl⟩
    · rw [if_neg hlt] at h
      cases h

/-- The lanes that a read of a range of a field yields on a host. -/
def Reads (field : Field) (offset length : Option Nat) (host : Host) (lanes : Lanes) : Prop :=
  ∃ start count id bytes, field.range offset length = .ok (start, count) ∧
    host.program.storage? field.tree = some id ∧ host.memory.region? id = some bytes ∧
    checkRange (field.offset + start) count bytes.length = .ok () ∧
    lanes = Lanes.ofBytes (window (field.offset + start) count bytes)

/-- What a write into a field makes of a host. -/
def Writes (field : Field) (words : List Word) (offset : Option Nat) (host host' : Host) : Prop :=
  ∃ start id bytes, field.range offset (some (words.length * wordBytes))
      = .ok (start, words.length * wordBytes) ∧
    host.program.storage? field.tree = some id ∧ host.memory.region? id = some bytes ∧
    checkRange (field.offset + start) (words.length * wordBytes) bytes.length = .ok () ∧
    host' = host.written id (field.offset + start) words bytes

/-! ### Accesses

A read and a write of a field are one computation but for the transfer, so it is taken apart only
once. -/

section Access

variable {field : Field} {offset length : Option Nat}

/-- Checks a range of a field, sees to the storage of the tree and transfers the range where it
lies in the tree. -/
def access {α : Type} (field : Field) (offset length : Option Nat)
    (transfer : TreeId → Nat → Nat → HostM DeviceError α) : HostM FieldError α := do
  let (start, count) ← field.range offset length
  let tree ← Host.requireStorage field.tree
  let place ← (Size.add field.offset start : Outcome FieldError Nat)
  Host.onDevice (transfer tree place count)

theorem read_eq_access (field : Field) (offset length : Option Nat) :
    field.read offset length = field.access offset length Host.readRegion := rfl

theorem write_eq_access (field : Field) (words : List Word) (offset : Option Nat) :
    field.write words offset = field.access offset (some (words.length * wordBytes))
      fun tree place _ => Host.writeRegion tree place words := rfl

/-- An access may end at the range, at the storage, at the address or with the transfer. -/
theorem ends_access {α : Type} {transfer : TreeId → Nat → Nat → HostM DeviceError α}
    {Q : α → Host → Prop} {E : Failure FieldError → Host → Prop}
    (S : Nat → Nat → TreeId → Host → Prop)
    (hrange : ∀ failure, field.range offset length = .error failure → E failure host)
    (hstorage : ∀ start count, field.range offset length = .ok (start, count) →
      Host.Ends (Host.requireStorage field.tree) host (S start count) E)
    (haddress : ∀ start count id mid, field.range offset length = .ok (start, count) →
      S start count id mid → Size.bound ≤ field.offset + start → E (.fault .overflow) mid)
    (htransfer : ∀ start count id mid, field.range offset length = .ok (start, count) →
      S start count id mid → Host.Ends (transfer id (field.offset + start) count) mid Q
        fun failure => E (failure.map FieldError.device)) :
    Host.Ends (field.access offset length transfer) host Q E := by
  unfold access
  rw [Host.ends_bind]
  refine Host.ends_lift ?_ hrange
  intro pair hpair
  obtain ⟨start, count⟩ := pair
  rw [Host.ends_bind]
  refine Host.ends_mono (hstorage start count hpair) ?_ fun _ _ hends => hends
  intro id mid hmid
  rw [Host.ends_bind]
  refine Host.ends_lift ?_ ?_
  · intro place hplace
    obtain ⟨rfl, -⟩ := Size.add_eq_ok_iff.mp hplace
    exact Host.ends_onDevice.mpr (htransfer start count id mid hpair hmid)
  · intro failure hfailed
    cases Size.add_eq_error hfailed
    refine haddress start count id mid hpair hmid (Nat.le_of_not_lt fun hlt => ?_)
    rw [Size.add_eq_ok_iff.mpr ⟨rfl, hlt⟩] at hfailed
    cases hfailed

/-- An access keeps the placement until the transfer, and so does every failure. -/
theorem ends_access_kept {α : Type} {transfer : TreeId → Nat → Nat → HostM DeviceError α}
    {Q : α → Host → Prop} (h : Placed fields host)
    (htransfer : ∀ start count id mid, field.range offset length = .ok (start, count) →
      Host.Kept fields host mid → mid.program.storage? field.tree = some id →
      Host.Ends (transfer id (field.offset + start) count) mid Q
        fun _ host' => Host.Kept fields host host') :
    Host.Ends (field.access offset length transfer) host Q
      (fun _ host' => Host.Kept fields host host') := by
  refine ends_access (fun _ _ id mid =>
    Host.Kept fields host mid ∧ mid.program.storage? field.tree = some id)
    (fun _ _ => .refl h) ?_ ?_ ?_
  · intro _ _ _
    exact Host.ends_requireStorage h
  · intro _ _ _ _ _ hends _
    exact hends.1
  · intro start count id mid hrange hends
    exact htransfer start count id mid hrange hends.1 hends.2

theorem ends_read (h : Placed fields host) :
    Host.Ends (field.read offset length) host
      (fun lanes host' => Host.Kept fields host host' ∧ field.Reads offset length host' lanes)
      (fun _ host' => Host.Kept fields host host') := by
  rw [read_eq_access]
  refine ends_access_kept h ?_
  intro start count id mid hrange hkept hstorage
  refine Host.ends_readRegion ?_ fun _ _ => hkept
  intro bytes hbytes hcheck
  refine ⟨hkept.trans (.of_eq hkept.placed rfl rfl (Nat.le_refl _)), ?_⟩
  exact ⟨start, count, id, bytes, hrange, hstorage, hbytes, hcheck, rfl⟩

theorem ends_write {words : List Word} (h : Placed fields host) :
    Host.Ends (field.write words offset) host
      (fun _ host' => ∃ before, Host.Kept fields host before ∧
        field.Writes words offset before host')
      (fun _ host' => Host.Kept fields host host') := by
  rw [write_eq_access]
  refine ends_access_kept h ?_
  intro start count id before hrange hkept hstorage
  obtain ⟨-, rfl, -⟩ := range_eq_ok hrange
  refine Host.ends_writeRegion ?_ fun _ _ => hkept
  intro bytes hbytes hcheck
  exact ⟨before, hkept, start, id, bytes, hrange, hstorage, hbytes, hcheck, rfl⟩

end Access

theorem stays_of_writes {field : Field} {words : List Word} {offset : Option Nat}
    (h : Placed fields host) (hwrites : field.Writes words offset host host') :
    Stays fields host host' := by
  obtain ⟨start, id, bytes, -, -, hbytes, hcheck, rfl⟩ := hwrites
  exact stays_written h hbytes hcheck

end Field

end FieldStore
